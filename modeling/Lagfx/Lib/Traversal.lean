import Mathlib.Logic.Relation
import Mathlib.Tactic.SplitIfs

/-! A walk over everything a node contains, with a list of the nodes seen so far that may leave
some out: each node puts out a piece before each child. -/
namespace Lagfx.Traversal
open Relation
variable {α β : Type*}

/-- The children of a node in order, each behind the output that comes before it; `none` for what
is no node. -/
abbrev Graph (α β : Type*) := α → Option (List (List β × α))

def Child (g : Graph α β) (a b : α) : Prop := ∃ es out, g a = some es ∧ (out, b) ∈ es

/-- All that a node puts out itself. -/
def outputs (g : Graph α β) (a : α) : List β := ((g a).getD []).flatMap Prod.fst

def walk (visit : α → List α → Option (List α × List β)) :
    List (List β × α) → List α → Option (List α × List β)
  | [], seen => some (seen, [])
  | (out, child)::es, seen =>
    (visit child seen).bind fun r => (walk visit es r.1).map fun r' => (r'.1, out++(r.2++r'.2))

variable [DecidableEq α]

/-- To a depth; `mark` is for a node that is met for the first time. -/
def visit (g : Graph α β) (mark : List α → α → List α) :
    Nat → α → List α → Option (List α × List β)
  | 0, _, _ => none
  | depth+1, a, seen =>
    match g a with
    | none => some (seen, [])
    | some es => if a ∈ seen then some (seen, []) else walk (visit g mark depth) es (mark seen a)

/-- Whatever the nodes seen contain has been put out, but for the nodes on the way. -/
def Settled (g : Graph α β) (P : β → Prop) (above : α → Prop) (seen : List α) : Prop :=
  ∀ v ∈ seen, ¬above v → ∀ b, ReflTransGen (Child g) v b → ∀ d ∈ outputs g b, P d

section
variable {g : Graph α β} {mark : List α → α → List α}

omit [DecidableEq α] in
theorem Settled.mono {P Q : β → Prop} {above : α → Prop} {seen : List α} (h : Settled g P above seen)
    (hPQ : ∀ d, P d → Q d) : Settled g Q above seen :=
  fun v hv hno b hb d hd => hPQ d (h v hv hno b hb d hd)

omit [DecidableEq α] in
theorem mem_outputs {a : α} {es : List (List β × α)} (ha : g a = some es) {d : β} :
    d ∈ outputs g a ↔ ∃ e ∈ es, d ∈ e.1 := by
  rw [outputs, ha, Option.getD_some, List.mem_flatMap]

omit [DecidableEq α] in
/-- What a walk puts out comes from the pieces or from below the children. -/
theorem walk_sound {rec : α → List α → Option (List α × List β)} {Q : α → β → Prop}
    (hrec : ∀ a seen seen' D, rec a seen = some (seen', D) → ∀ d ∈ D, Q a d)
    (es : List (List β × α)) {seen seen' : List α} {D : List β}
    (h : walk rec es seen = some (seen', D)) :
    ∀ d ∈ D, ∃ e ∈ es, d ∈ e.1 ∨ Q e.2 d := by
  induction es generalizing seen seen' D with
  | nil =>
    cases h
    simp
  | cons e es ih =>
    obtain ⟨⟨seen₁, D₁⟩, h₁, hrest⟩ := Option.bind_eq_some_iff.1 h
    obtain ⟨⟨seen₂, D₂⟩, h₂, heq⟩ := Option.map_eq_some_iff.1 hrest
    cases heq
    intro d hd
    obtain hout | hd := List.mem_append.1 hd
    · exact ⟨e, List.mem_cons_self, Or.inl hout⟩
    obtain hchild | hd := List.mem_append.1 hd
    · exact ⟨e, List.mem_cons_self, Or.inr (hrec _ _ _ _ h₁ d hchild)⟩
    · obtain ⟨e', he', hd'⟩ := ih h₂ d hd
      exact ⟨e', List.mem_cons_of_mem e he', hd'⟩

theorem visit_sound (depth : Nat) : ∀ (a : α) (seen seen' : List α) (D : List β),
    visit g mark depth a seen = some (seen', D) →
      ∀ d ∈ D, ∃ b, ReflTransGen (Child g) a b ∧ d ∈ outputs g b := by
  induction depth with
  | zero =>
    intro a seen seen' D h
    cases h
  | succ depth ih =>
    intro a seen seen' D h d hd
    rw [visit] at h
    cases ha : g a with
    | none =>
      rw [ha] at h
      cases h
      cases hd
    | some es =>
      simp only [ha] at h
      split_ifs at h with hseen
      · cases h
        cases hd
      · obtain ⟨e, he, hout | ⟨b, hb, hd⟩⟩ := walk_sound ih es h d hd
        · exact ⟨a, .refl, (mem_outputs ha).2 ⟨e, he, hout⟩⟩
        · exact ⟨b, .head ⟨es, e.1, ha, he⟩ hb, hd⟩

/-- What a visit of a node does, with the nodes above it on the way. -/
def Settles (g : Graph α β) (rec : α → List α → Option (List α × List β)) (above : α → Prop)
    (a : α) : Prop :=
  ∀ (P : β → Prop) (seen seen' : List α) (D : List β), Settled g P above seen →
    rec a seen = some (seen', D) → Settled g (fun d => P d ∨ d ∈ D) above seen' ∧
      ∀ b, ReflTransGen (Child g) a b → ∀ d ∈ outputs g b, P d ∨ d ∈ D

omit [DecidableEq α] in
theorem walk_settles {rec : α → List α → Option (List α × List β)} {above : α → Prop}
    (es : List (List β × α)) (hrec : ∀ e ∈ es, Settles g rec above e.2) {P : β → Prop}
    {seen seen' : List α} {D : List β} (hseen : Settled g P above seen)
    (h : walk rec es seen = some (seen', D)) :
    Settled g (fun d => P d ∨ d ∈ D) above seen' ∧ ∀ e ∈ es, (∀ d ∈ e.1, P d ∨ d ∈ D) ∧
      ∀ b, ReflTransGen (Child g) e.2 b → ∀ d ∈ outputs g b, P d ∨ d ∈ D := by
  induction es generalizing P seen seen' D with
  | nil =>
    cases h
    exact ⟨hseen.mono fun d hd => Or.inl hd, by simp⟩
  | cons e es ih =>
    obtain ⟨⟨seen₁, D₁⟩, h₁, hrest⟩ := Option.bind_eq_some_iff.1 h
    obtain ⟨⟨seen₂, D₂⟩, h₂, heq⟩ := Option.map_eq_some_iff.1 hrest
    cases heq
    obtain ⟨hseen₁, hbelow₁⟩ := hrec e List.mem_cons_self P _ _ _ hseen h₁
    obtain ⟨hseen₂, hbelow₂⟩ := ih (fun e' he' => hrec e' (List.mem_cons_of_mem e he')) hseen₁ h₂
    have hmono : ∀ d, (P d ∨ d ∈ D₁) ∨ d ∈ D₂ → P d ∨ d ∈ e.1++(D₁++D₂) := by
      intro d hd
      simp only [List.mem_append]
      obtain (hd | hd) | hd := hd
      · exact Or.inl hd
      · exact Or.inr (Or.inr (Or.inl hd))
      · exact Or.inr (Or.inr (Or.inr hd))
    refine ⟨hseen₂.mono hmono, ?_⟩
    intro e' he'
    obtain rfl | he' := List.mem_cons.1 he'
    · exact ⟨fun d hd => Or.inr (List.mem_append_left _ hd),
        fun b hb d hd => hmono d (Or.inl (hbelow₁ b hb d hd))⟩
    · obtain ⟨hpiece, hbelow⟩ := hbelow₂ e' he'
      exact ⟨fun d hd => hmono d (hpiece d hd), fun b hb d hd => hmono d (hbelow b hb d hd)⟩

/-- Where nothing contains itself, a node that was seen and is not on the way is finished. -/
theorem visit_settles (hmark : ∀ seen a, ∀ v ∈ mark seen a, v = a ∨ v ∈ seen)
    (hac : ∀ a, ¬TransGen (Child g) a a) (depth : Nat) : ∀ (a : α) (above : α → Prop),
      (∀ v, above v → TransGen (Child g) v a) → Settles g (visit g mark depth) above a := by
  induction depth with
  | zero =>
    intro a above _ P seen seen' D _ h
    cases h
  | succ depth ih =>
    intro a above habove P seen seen' D hseen h
    rw [visit] at h
    cases ha : g a with
    | none =>
      rw [ha] at h
      cases h
      refine ⟨hseen.mono fun d hd => Or.inl hd, ?_⟩
      intro b hb d hd
      obtain rfl | ⟨c, ⟨es, out, hc, -⟩, -⟩ := hb.cases_head
      · rw [outputs, ha] at hd
        cases hd
      · rw [ha] at hc
        cases hc
    | some es =>
      simp only [ha] at h
      split_ifs at h with hmem
      · cases h
        have hno : ¬above a := fun hup => hac a (habove a hup)
        exact ⟨hseen.mono fun d hd => Or.inl hd,
          fun b hb d hd => Or.inl (hseen a hmem hno b hb d hd)⟩
      · -- the node itself joins those on the way
        have hseen' : Settled g P (fun v => v = a ∨ above v) (mark seen a) := by
          intro v hv hno
          obtain rfl | hv := hmark seen a v hv
          · exact absurd (Or.inl rfl) hno
          · exact hseen v hv fun hup => hno (Or.inr hup)
        have hrec : ∀ e ∈ es, Settles g (visit g mark depth) (fun v => v = a ∨ above v) e.2 := by
          intro e he
          have hchild : Child g a e.2 := ⟨es, e.1, ha, he⟩
          refine ih e.2 _ ?_
          intro v hv
          obtain rfl | hv := hv
          · exact .single hchild
          · exact (habove v hv).tail hchild
        obtain ⟨hdone, hall⟩ := walk_settles es hrec hseen' h
        have hnode : ∀ b, ReflTransGen (Child g) a b → ∀ d ∈ outputs g b, P d ∨ d ∈ D := by
          intro b hb d hd
          obtain rfl | ⟨c, ⟨es', out, hc, he⟩, hb⟩ := hb.cases_head
          · obtain ⟨e, he, hout⟩ := (mem_outputs ha).1 hd
            exact (hall e he).1 d hout
          · cases ha.symm.trans hc
            exact (hall _ he).2 b hb d hd
        refine ⟨?_, hnode⟩
        intro v hv hno
        by_cases heq : v = a
        · rw [heq]
          exact hnode
        · exact hdone v hv fun hup => hup.elim heq hno

/-- Behind nodes on the way, a walk puts out just the pieces and all below the children. -/
theorem mem_walk (hmark : ∀ seen a, ∀ v ∈ mark seen a, v = a ∨ v ∈ seen)
    (hac : ∀ a, ¬TransGen (Child g) a a) {depth : Nat} {es : List (List β × α)}
    {seen seen' : List α} {D : List β}
    (hseen : ∀ v ∈ seen, ∀ e ∈ es, TransGen (Child g) v e.2)
    (h : walk (visit g mark depth) es seen = some (seen', D)) (d : β) :
    d ∈ D ↔ ∃ e ∈ es, d ∈ e.1 ∨ ∃ b, ReflTransGen (Child g) e.2 b ∧ d ∈ outputs g b := by
  constructor
  · exact walk_sound (visit_sound depth) es h d
  · intro ⟨e, he, hd⟩
    have hrec : ∀ e ∈ es, Settles g (visit g mark depth) (fun v => v ∈ seen) e.2 :=
      fun e he => visit_settles hmark hac depth e.2 _ fun v hv => hseen v hv e he
    have hstart : Settled g (fun _ => False) (fun v => v ∈ seen) seen :=
      fun v hv hno => absurd hv hno
    obtain ⟨-, hall⟩ := walk_settles es hrec hstart h
    obtain ⟨hpiece, hbelow⟩ := hall e he
    obtain hd | ⟨b, hb, hd⟩ := hd
    · exact (hpiece d hd).resolve_left not_false
    · exact (hbelow b hb d hd).resolve_left not_false

theorem mem_visit (hmark : ∀ seen a, ∀ v ∈ mark seen a, v = a ∨ v ∈ seen)
    (hac : ∀ a, ¬TransGen (Child g) a a) {depth : Nat} {a : α} {seen' : List α} {D : List β}
    (h : visit g mark depth a [] = some (seen', D)) (d : β) :
    d ∈ D ↔ ∃ b, ReflTransGen (Child g) a b ∧ d ∈ outputs g b := by
  constructor
  · exact visit_sound depth a [] seen' D h d
  · intro ⟨b, hb, hd⟩
    have hsettles := visit_settles hmark hac depth a (fun _ => False) fun v hv => hv.elim
    obtain ⟨-, hall⟩ := hsettles (fun _ => False) [] seen' D (fun v hv => by cases hv) h
    exact (hall b hb d hd).resolve_left not_false

omit [DecidableEq α] in
theorem walk_isSome {rec : α → List α → Option (List α × List β)} (es : List (List β × α))
    (h : ∀ e ∈ es, ∀ seen, (rec e.2 seen).isSome = true) (seen : List α) :
    (walk rec es seen).isSome = true := by
  induction es generalizing seen with
  | nil => rfl
  | cons e es ih =>
    obtain ⟨r, hr⟩ := Option.isSome_iff_exists.1 (h e List.mem_cons_self seen)
    rw [walk, hr, Option.bind_some, Option.isSome_map]
    exact ih (fun e' he' => h e' (List.mem_cons_of_mem e he')) r.1

/-- A depth that is enough for a node, and one less for its children. -/
theorem visit_isSome (Deep : Nat → α → Prop) (hzero : ∀ a, ¬Deep 0 a)
    (hstep : ∀ n a b, Deep (n+1) a → Child g a b → Deep n b) (depth : Nat) :
    ∀ a seen, Deep depth a → (visit g mark depth a seen).isSome = true := by
  induction depth with
  | zero => exact fun a _ h => absurd h (hzero a)
  | succ depth ih =>
    intro a seen h
    rw [visit]
    cases ha : g a with
    | none => rfl
    | some es =>
      simp only
      split_ifs
      · rfl
      · exact walk_isSome es (fun e he seen => ih e.2 seen (hstep depth a e.2 h ⟨es, e.1, ha, he⟩)) _

end

end Lagfx.Traversal
