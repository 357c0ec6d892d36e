import Mathlib.Data.List.Nodup
import Mathlib.Logic.Relation

/-! Depth-first search with a bounded depth: a node is listed behind what it leads to. A path
is a list of positions in the successor lists; a node is found at the first path to it. -/
namespace Lagfx.DepthFirst
open Relation
variable {α : Type*} (ok : α → Bool) (next : α → List α)

def Edge (f g : α) : Prop := g ∈ next f ∧ ok g = true

def Acyclic : Prop := ∀ g, ¬ TransGen (Edge ok next) g g

/-- The node that a path leads to. -/
def follow : α → List Nat → Option α
  | f, [] => some f
  | f, i :: p =>
    match (next f)[i]? with
    | none => none
    | some g => if ok g = true then follow g p else none

/-- `q` turns off at an earlier position than `x`. -/
def Earlier (q x : List Nat) : Prop :=
  ∃ r i j s t, i < j ∧ q = r++i :: s ∧ x = r++j :: t

/-- There is an earlier path to `g`. -/
def Before (root : α) (x : List Nat) (g : α) : Prop :=
  ∃ q, follow ok next root q = some g ∧ Earlier q x

/-- Every node stands behind its successors. -/
def Ordered (done : List α) : Prop :=
  ∀ l f r, done = l++f :: r → ∀ g, Edge ok next f g → g ∈ l

variable {ok next}

/- Paths. -/

theorem earlier_snoc {q p : List Nat} {j : Nat} :
    Earlier q (p++[j]) ↔ Earlier q p ∨ ∃ i s, i < j ∧ q = p++i :: s := by
  constructor
  · intro h
    obtain ⟨r, a, b, s, t, hlt, rfl, hx⟩ := h
    obtain rfl | ⟨t', c, rfl⟩ := t.eq_nil_or_concat
    · obtain ⟨rfl, hb⟩ := List.append_inj' hx rfl
      cases hb
      exact .inr ⟨a, s, hlt, rfl⟩
    · rw [List.concat_eq_append, ← List.cons_append, ← List.append_assoc] at hx
      obtain ⟨rfl, -⟩ := List.append_inj' hx rfl
      exact .inl ⟨r, a, b, s, t', hlt, rfl, rfl⟩
  · intro h
    obtain ⟨r, a, b, s, t, hlt, rfl, rfl⟩ | ⟨i, s, hlt, rfl⟩ := h
    · exact ⟨r, a, b, s, t++[j], hlt, rfl, by simp⟩
    · exact ⟨p, i, j, s, [], hlt, rfl, rfl⟩

theorem Earlier.append {q x : List Nat} (h : Earlier q x) (s t : List Nat) :
    Earlier (q++s) (x++t) := by
  obtain ⟨r, i, j, s', t', hlt, rfl, rfl⟩ := h
  exact ⟨r, i, j, s'++s, t'++t, hlt, by simp, by simp⟩

theorem follow_append (p q : List Nat) : ∀ f : α, follow ok next f (p++q) =
    (follow ok next f p).bind fun g => follow ok next g q := by
  induction p with
  | nil => exact fun f => rfl
  | cons i p ih =>
    intro f
    rw [List.cons_append, follow, follow]
    cases hg : (next f)[i]? with
    | none => rfl
    | some g =>
      dsimp only
      split_ifs with hok
      · exact ih g
      · rfl

theorem follow_edge {f g : α} {i : Nat} {s : List Nat} (h : follow ok next f (i :: s) = some g) :
    ∃ e, (next f)[i]? = some e ∧ ok e = true ∧ follow ok next e s = some g := by
  rw [follow] at h
  cases he : (next f)[i]? with
  | none =>
    rw [he] at h
    cases h
  | some e =>
    rw [he] at h
    dsimp only at h
    split_ifs at h with hok
    exact ⟨e, rfl, hok, h⟩

theorem follow_snoc {root f g : α} {p : List Nat} {i : Nat} (hp : follow ok next root p = some f)
    (hg : (next f)[i]? = some g) (hok : ok g = true) :
    follow ok next root (p++[i]) = some g := by
  rw [follow_append, hp, Option.bind_some, follow, hg]
  exact if_pos hok

/-- A path of at least one step is a chain of edges. -/
theorem follow_transGen (s : List Nat) : ∀ {f g : α} {i : Nat},
    follow ok next f (i :: s) = some g → TransGen (Edge ok next) f g := by
  induction s with
  | nil =>
    intro f g i h
    obtain ⟨e, he, hok, hs⟩ := follow_edge h
    cases hs
    exact .single ⟨List.mem_of_getElem? he, hok⟩
  | cons j s ih =>
    intro f g i h
    obtain ⟨e, he, hok, hs⟩ := follow_edge h
    exact .head ⟨List.mem_of_getElem? he, hok⟩ (ih hs)

theorem Edge.follow {f g : α} (h : Edge ok next f g) :
    ∃ i, (next f)[i]? = some g ∧ DepthFirst.follow ok next f [i] = some g := by
  obtain ⟨i, hi⟩ := List.mem_iff_getElem?.1 h.1
  exact ⟨i, hi, follow_snoc (p := []) rfl hi h.2⟩

theorem transGen_follow {f g : α} (h : TransGen (Edge ok next) f g) :
    ∃ i s, follow ok next f (i :: s) = some g := by
  induction h with
  | single h =>
    obtain ⟨i, -, hi⟩ := h.follow
    exact ⟨i, [], hi⟩
  | tail _ hedge ih =>
    obtain ⟨i, s, hs⟩ := ih
    obtain ⟨j, hj, -⟩ := hedge.follow
    exact ⟨i, s++[j], follow_snoc hs hj hedge.2⟩

/- What lies before a position. -/

theorem before_first {root : α} {p : List Nat} {g : α} :
    Before ok next root (p++[0]) g ↔ Before ok next root p g := by
  simp only [Before, earlier_snoc, Nat.not_lt_zero, false_and, exists_false, or_false]

/-- The next position adds the node at this one and all it leads to. -/
theorem before_succ {root f e : α} {p : List Nat} {i : Nat} (hp : follow ok next root p = some f)
    (he : (next f)[i]? = some e) (hok : ok e = true) {g : α} :
    Before ok next root (p++[i+1]) g ↔
      Before ok next root (p++[i]) g ∨ ∃ s, follow ok next e s = some g := by
  have hsite : ∀ s, follow ok next root (p++i :: s) = follow ok next e s := by
    intro s
    rw [← List.singleton_append, ← List.append_assoc, follow_append, follow_snoc hp he hok,
      Option.bind_some]
  constructor
  · intro h
    obtain ⟨q, hq, hlt⟩ := h
    obtain hlt | ⟨j, s, hj, rfl⟩ := earlier_snoc.1 hlt
    · exact .inl ⟨q, hq, earlier_snoc.2 (.inl hlt)⟩
    · obtain rfl | hj := Nat.lt_succ_iff_lt_or_eq.1 hj |>.symm
      · exact .inr ⟨s, (hsite s) ▸ hq⟩
      · exact .inl ⟨_, hq, earlier_snoc.2 (.inr ⟨j, s, hj, rfl⟩)⟩
  · intro h
    obtain ⟨q, hq, hlt⟩ | ⟨s, hs⟩ := h
    · obtain hlt | ⟨j, s, hj, rfl⟩ := earlier_snoc.1 hlt
      · exact ⟨q, hq, earlier_snoc.2 (.inl hlt)⟩
      · exact ⟨_, hq, earlier_snoc.2 (.inr ⟨j, s, by omega, rfl⟩)⟩
    · exact ⟨_, (hsite s).trans hs, earlier_snoc.2 (.inr ⟨i, s, Nat.lt_succ_self i, rfl⟩)⟩

/-- Where the position leads nowhere, nothing is added. -/
theorem before_succ_of_none {root f : α} {p : List Nat} {i : Nat}
    (hp : follow ok next root p = some f) (hno : follow ok next f [i] = none) {g : α} :
    Before ok next root (p++[i+1]) g ↔ Before ok next root (p++[i]) g := by
  constructor
  · intro h
    obtain ⟨q, hq, hlt⟩ := h
    obtain hlt | ⟨j, s, hj, rfl⟩ := earlier_snoc.1 hlt
    · exact ⟨q, hq, earlier_snoc.2 (.inl hlt)⟩
    · obtain rfl | hj := Nat.lt_succ_iff_lt_or_eq.1 hj |>.symm
      · rw [← List.singleton_append, ← List.append_assoc, follow_append, follow_append, hp,
          Option.bind_some, hno] at hq
        cases hq
      · exact ⟨_, hq, earlier_snoc.2 (.inr ⟨j, s, hj, rfl⟩)⟩
  · intro h
    obtain ⟨q, hq, hlt⟩ := h
    obtain hlt | ⟨j, s, hj, rfl⟩ := earlier_snoc.1 hlt
    · exact ⟨q, hq, earlier_snoc.2 (.inl hlt)⟩
    · exact ⟨_, hq, earlier_snoc.2 (.inr ⟨j, s, by omega, rfl⟩)⟩

/-- What an earlier node leads to lies before as well. -/
theorem Before.follow {root e g : α} {x : List Nat} (h : Before ok next root x e) {s : List Nat}
    (hs : DepthFirst.follow ok next e s = some g) (t : List Nat) :
    Before ok next root (x++t) g := by
  obtain ⟨q, hq, hlt⟩ := h
  exact ⟨q++s, by rw [follow_append, hq, Option.bind_some, hs], hlt.append s t⟩

/-- All positions of a node are passed. -/
theorem before_end {root f : α} {p : List Nat} (hp : follow ok next root p = some f) {g : α} :
    Before ok next root (p++[(next f).length]) g ↔
      Before ok next root p g ∨ ∃ i s, follow ok next f (i :: s) = some g := by
  constructor
  · intro h
    obtain ⟨q, hq, hlt⟩ := h
    obtain hlt | ⟨j, s, hj, rfl⟩ := earlier_snoc.1 hlt
    · exact .inl ⟨q, hq, hlt⟩
    · rw [follow_append, hp, Option.bind_some] at hq
      exact .inr ⟨j, s, hq⟩
  · intro h
    obtain ⟨q, hq, hlt⟩ | ⟨i, s, hs⟩ := h
    · exact ⟨q, hq, earlier_snoc.2 (.inl hlt)⟩
    · obtain ⟨e, he, -, -⟩ := follow_edge hs
      have hi := (List.getElem?_eq_some_iff.1 he).1
      refine ⟨p++i :: s, ?_, earlier_snoc.2 (.inr ⟨i, s, hi, rfl⟩)⟩
      rw [follow_append, hp, Option.bind_some, hs]

/- Orders. -/

theorem ordered_nil : Ordered ok next ([] : List α) := fun l f r h => by
  have := congrArg List.length h
  simp at this

theorem Ordered.of_prefix {done done' : List α} (h : Ordered ok next done')
    (hpre : done <+: done') : Ordered ok next done := by
  obtain ⟨t, rfl⟩ := hpre
  intro l f r hdone
  exact h l f (r++t) (by rw [hdone]; simp)

theorem Ordered.snoc {done : List α} (h : Ordered ok next done) {f : α}
    (hf : ∀ g, Edge ok next f g → g ∈ done) : Ordered ok next (done++[f]) := by
  intro l x r hdone
  obtain rfl | ⟨r', y, rfl⟩ := r.eq_nil_or_concat
  · obtain ⟨rfl, hx⟩ := List.append_inj' hdone rfl
    cases hx
    exact hf
  · rw [List.concat_eq_append, ← List.cons_append, ← List.append_assoc] at hdone
    obtain ⟨rfl, -⟩ := List.append_inj' hdone rfl
    exact h l x r' rfl

/-- The successors of a listed node are listed. -/
theorem Ordered.closed {done : List α} (h : Ordered ok next done) {f g : α} (hf : f ∈ done)
    (hg : Edge ok next f g) : g ∈ done := by
  obtain ⟨l, r, rfl⟩ := List.append_of_mem hf
  exact List.mem_append_left _ (h l f r rfl g hg)

variable (ok next) in
/-- Every path of `depth+1` steps that begins with `p` has an earlier one to its end. -/
def FoundWithin (root : α) (depth : Nat) (p : List Nat) : Prop :=
  ∀ s g, (p++s).length = depth+1 → follow ok next root (p++s) = some g →
    Before ok next root (p++s) g

theorem foundWithin_step {root : α} {depth : Nat} {p : List Nat}
    (hlt : p.length ≤ depth) :
    FoundWithin ok next root depth p ↔ ∀ i, FoundWithin ok next root depth (p++[i]) := by
  constructor
  · intro h i s g hlen hs
    rw [List.append_assoc] at hlen hs ⊢
    exact h _ g hlen hs
  · intro h s g hlen hs
    cases s with
    | nil =>
      rw [List.append_nil] at hlen
      omega
    | cons i s =>
      have hsplit : p++i :: s = p++[i]++s := by simp
      rw [hsplit] at hlen hs ⊢
      exact h i s g hlen hs

/- The search. -/

section search
variable [DecidableEq α] (ok next)

def listed (done : List α) (g : α) : List α := if g ∈ done then done else done++[g]

/-- One node met: what it leads to comes first. -/
def visit (rec : List α → List α → List α → List α) (visiting done : List α) (g : α) : List α :=
  if ok g = true ∧ g ∉ done ∧ g ∉ visiting then listed (rec (g :: visiting) (next g) done) g
  else done

/-- The search goes on as long as `left` lasts. -/
def search : Nat → List α → List α → List α → List α
  | 0, _, _, done => done
  | left+1, visiting, gs, done => gs.foldl (visit ok next (search left) visiting) done

variable {ok next}

theorem listed_grows (done : List α) (g : α) : done <+: listed done g := by
  rw [listed]
  split_ifs
  · exact List.prefix_rfl
  · exact List.prefix_append _ _

theorem mem_listed {done : List α} {g x : α} : x ∈ listed done g ↔ x ∈ done ∨ x = g := by
  rw [listed]
  split_ifs with hg
  · constructor
    · exact .inl
    · intro hx
      obtain hx | rfl := hx
      · exact hx
      · exact hg
  · rw [List.mem_append, List.mem_singleton]

theorem visit_grows {rec : List α → List α → List α → List α} {visiting done : List α} {g : α}
    (h : ∀ visiting gs done, done <+: rec visiting gs done) :
    done <+: visit ok next rec visiting done g := by
  rw [visit]
  split_ifs
  · exact (h _ _ _).trans (listed_grows _ _)
  · exact List.prefix_rfl

theorem search_grows (left : Nat) :
    ∀ visiting gs done : List α, done <+: search ok next left visiting gs done := by
  induction left with
  | zero => exact fun _ _ _ => List.prefix_rfl
  | succ left ih =>
    intro visiting gs
    induction gs with
    | nil => exact fun _ => List.prefix_rfl
    | cons g gs ihgs => exact fun done => (visit_grows ih).trans (ihgs _)

/-- What a search keeps, from a property that a new node keeps. -/
theorem search_inv {Inv : List α → Prop}
    (h : ∀ done g, Inv done → ok g = true → g ∉ done → Inv (done++[g])) (left : Nat) :
    ∀ visiting gs done : List α, Inv done → Inv (search ok next left visiting gs done) := by
  induction left with
  | zero => exact fun _ _ _ hi => hi
  | succ left ih =>
    intro visiting gs
    induction gs with
    | nil => exact fun _ hi => hi
    | cons g gs ihgs =>
      intro done hi
      apply ihgs
      rw [visit]
      split_ifs with hg
      · have hbelow := ih (g :: visiting) (next g) done hi
        rw [listed]
        split_ifs with hmem
        · exact hbelow
        · exact h _ g hbelow hg.1 hmem
      · exact hi

variable (ok next) in
/-- What the search of the node `f` at the path `p` finds, where what lies before it is found. -/
def SearchSpec (root : α) (depth left : Nat) : Prop :=
  ∀ p f visiting done, follow ok next root p = some f → p.length+left = depth →
    (∀ v ∈ visiting, ReflTransGen (Edge ok next) v f) →
    (∀ g, g ∈ done ↔ Before ok next root p g) → Ordered ok next done →
    (FoundWithin ok next root depth p →
      (∀ g, g ∈ search ok next left visiting (next f) done ↔
        Before ok next root (p++[(next f).length]) g) ∧
      Ordered ok next (search ok next left visiting (next f) done)) ∧
    (Ordered ok next (search ok next left visiting (next f) done) →
      (∀ g, Edge ok next f g → g ∈ search ok next left visiting (next f) done) →
      FoundWithin ok next root depth p)

/-- No depth is left: all successors were found before. -/
theorem search_spec_zero (root : α) (depth : Nat) : SearchSpec ok next root depth 0 := by
  intro p f visiting done hp hlen _ hdone hord
  rw [search]
  constructor
  · intro hfound
    refine ⟨fun g => (hdone g).trans ?_, hord⟩
    have hsite : ∀ (i : Nat) (e : α), (next f)[i]? = some e → ok e = true →
        Before ok next root p e := by
      intro i
      induction i using Nat.strongRecOn with
      | ind i ih =>
        intro e he hok
        obtain ⟨q, hq, hlt⟩ := hfound [i] e (by simp; omega) (follow_snoc hp he hok)
        obtain hlt | ⟨j, s, hj, rfl⟩ := earlier_snoc.1 hlt
        · exact ⟨q, hq, hlt⟩
        · rw [follow_append, hp, Option.bind_some] at hq
          obtain ⟨e', he', hok', hs⟩ := follow_edge hq
          have hbefore := (ih j hj e' he' hok').follow hs []
          rw [List.append_nil] at hbefore
          exact hbefore
    rw [before_end hp]
    constructor
    · exact .inl
    · intro h
      obtain h | ⟨i, s, hs⟩ := h
      · exact h
      · obtain ⟨e, he, hok, hs⟩ := follow_edge hs
        have hbefore := (hsite i e he hok).follow hs []
        rw [List.append_nil] at hbefore
        exact hbefore
  · intro _ hall s g hlen' hs
    rw [follow_append, hp, Option.bind_some] at hs
    cases s with
    | nil =>
      rw [List.append_nil] at hlen'
      omega
    | cons i s =>
      obtain ⟨e, he, hok, hs⟩ := follow_edge hs
      have hbefore := (hdone e).1 (hall e ⟨List.mem_of_getElem? he, hok⟩)
      exact hbefore.follow hs (i :: s)

/-- One successor, by what is known of it. -/
theorem visit_spec (hac : Acyclic ok next) {root f e : α} {depth left i : Nat} {p : List Nat}
    {visiting done : List α} (hspec : SearchSpec ok next root depth left)
    (hp : follow ok next root p = some f) (hlen : p.length+(left+1) = depth)
    (habove : ∀ v ∈ visiting, ReflTransGen (Edge ok next) v f)
    (he : (next f)[i]? = some e) (hdone : ∀ g, g ∈ done ↔ Before ok next root (p++[i]) g)
    (hord : Ordered ok next done) :
    (FoundWithin ok next root depth (p++[i]) →
      (∀ g, g ∈ visit ok next (search ok next left) visiting done e ↔
        Before ok next root (p++[i+1]) g) ∧
      Ordered ok next (visit ok next (search ok next left) visiting done e)) ∧
    (Ordered ok next (visit ok next (search ok next left) visiting done e) →
      FoundWithin ok next root depth (p++[i])) := by
  by_cases hok : ok e = true
  swap
  · -- not searched, and no path goes this way
    have hno : follow ok next f [i] = none := by
      rw [follow, he]
      exact if_neg hok
    have hvisit : visit ok next (search ok next left) visiting done e = done :=
      if_neg fun h => hok h.1
    rw [hvisit]
    refine ⟨fun _ => ⟨fun g => (hdone g).trans (before_succ_of_none hp hno).symm, hord⟩,
      fun _ s g _ hs => ?_⟩
    rw [follow_append, follow_append, hp, Option.bind_some, hno] at hs
    cases hs
  have hpe := follow_snoc hp he hok
  have hedge : Edge ok next f e := ⟨List.mem_of_getElem? he, hok⟩
  by_cases hmem : e ∈ done
  · -- found before, with all it leads to
    have hvisit : visit ok next (search ok next left) visiting done e = done :=
      if_neg fun h => h.2.1 hmem
    have hbefore := (hdone e).1 hmem
    rw [hvisit]
    refine ⟨fun _ => ⟨fun g => ?_, hord⟩, fun _ s g _ hs => ?_⟩
    · rw [hdone, before_succ hp he hok]
      constructor
      · exact .inl
      · intro h
        obtain h | ⟨s, hs⟩ := h
        · exact h
        · have hg := hbefore.follow hs []
          rw [List.append_nil] at hg
          exact hg
    · rw [follow_append, hpe, Option.bind_some] at hs
      exact hbefore.follow hs s
  have hfresh : e ∉ visiting := by
    intro hv
    exact hac f (TransGen.trans_left (.single hedge) (habove e hv))
  have hvisit : visit ok next (search ok next left) visiting done e =
      listed (search ok next left (e :: visiting) (next e) done) e := if_pos ⟨hok, hmem, hfresh⟩
  have hchild := hspec (p++[i]) e (e :: visiting) done hpe (by simp; omega) (by
    intro v hv
    obtain rfl | hv := List.mem_cons.1 hv
    · exact .refl
    · exact (habove v hv).tail hedge) hdone hord
  rw [hvisit]
  constructor
  · intro hfound
    obtain ⟨hbelow, hordb⟩ := hchild.1 hfound
    have hnot : e ∉ search ok next left (e :: visiting) (next e) done := by
      rw [hbelow, before_end hpe]
      intro h
      obtain h | ⟨j, s, hs⟩ := h
      · exact hmem ((hdone e).2 h)
      · exact hac e (follow_transGen s hs)
    constructor
    · intro g
      rw [mem_listed, hbelow, before_end hpe, before_succ hp he hok, or_assoc]
      refine or_congr_right ⟨fun h => ?_, fun h => ?_⟩
      · obtain ⟨j, s, hs⟩ | rfl := h
        · exact ⟨j :: s, hs⟩
        · exact ⟨[], rfl⟩
      · obtain ⟨s, hs⟩ := h
        cases s with
        | nil => exact .inr (Option.some.inj hs).symm
        | cons j s => exact .inl ⟨j, s, hs⟩
    · rw [listed, if_neg hnot]
      apply hordb.snoc
      intro g hg
      obtain ⟨j, -, hj⟩ := hg.follow
      exact (hbelow g).2 ((before_end hpe).2 (.inr ⟨j, [], hj⟩))
  · intro hordl
    refine hchild.2 (hordl.of_prefix (listed_grows _ _)) fun g hg => ?_
    -- its successors stand before it
    by_cases hin : e ∈ search ok next left (e :: visiting) (next e) done
    · rw [listed, if_pos hin] at hordl
      exact hordl.closed hin hg
    · rw [listed, if_neg hin] at hordl
      exact hordl _ e [] rfl g hg

theorem search_spec (hac : Acyclic ok next) (root : α) (depth left : Nat) :
    SearchSpec ok next root depth left := by
  induction left with
  | zero => exact search_spec_zero root depth
  | succ left ih =>
    intro p f visiting done hp hlen habove hdone hord
    -- over the successors from position `pre.length` on
    have hfold : ∀ gs pre done, next f = pre++gs →
        (∀ g, g ∈ done ↔ Before ok next root (p++[pre.length]) g) → Ordered ok next done →
        ((∀ i, pre.length ≤ i → FoundWithin ok next root depth (p++[i])) →
          (∀ g, g ∈ gs.foldl (visit ok next (search ok next left) visiting) done ↔
            Before ok next root (p++[(next f).length]) g) ∧
          Ordered ok next (gs.foldl (visit ok next (search ok next left) visiting) done)) ∧
        (Ordered ok next (gs.foldl (visit ok next (search ok next left) visiting) done) →
          ∀ i, pre.length ≤ i → FoundWithin ok next root depth (p++[i])) := by
      intro gs
      induction gs with
      | nil =>
        intro pre done hpre hmem hord
        rw [List.append_nil] at hpre
        rw [hpre]
        refine ⟨fun _ => ⟨hmem, hord⟩, fun _ i hi s g _ hs => ?_⟩
        rw [List.append_assoc, follow_append, hp, Option.bind_some] at hs
        obtain ⟨e, he, -, -⟩ := follow_edge hs
        rw [hpre, List.getElem?_eq_none hi] at he
        cases he
      | cons e gs ihgs =>
        intro pre done hpre hmem hord
        have he : (next f)[pre.length]? = some e := by rw [hpre]; simp
        have hsite := visit_spec hac ih hp hlen habove he hmem hord
        have hnext : next f = (pre++[e])++gs := by rw [hpre]; simp
        have hlenpre : (pre++[e]).length = pre.length+1 := by simp
        rw [List.foldl_cons]
        constructor
        · intro hfound
          obtain ⟨hmem', hord'⟩ := hsite.1 (hfound _ (Nat.le_refl _))
          have hrest := ihgs (pre++[e]) _ hnext (by rw [hlenpre]; exact hmem') hord'
          exact hrest.1 fun i hi => hfound i (by omega)
        · intro hordf i hi
          have hpre' : visit ok next (search ok next left) visiting done e <+:
              gs.foldl (visit ok next (search ok next left) visiting)
                (visit ok next (search ok next left) visiting done e) :=
            search_grows (left+1) visiting gs _
          have hfound := hsite.2 (hordf.of_prefix hpre')
          obtain ⟨hmem', hord'⟩ := hsite.1 hfound
          obtain rfl | hi := Nat.eq_or_lt_of_le hi
          · exact hfound
          · have hrest := ihgs (pre++[e]) _ hnext (by rw [hlenpre]; exact hmem') hord'
            exact hrest.2 hordf i (by omega)
    have hall := hfold (next f) [] done rfl (fun g => (hdone g).trans before_first.symm) hord
    rw [foundWithin_step (by omega)]
    exact ⟨fun h => hall.1 fun i _ => h i, fun h _ i => hall.2 h i (Nat.zero_le _)⟩

/-- The list has everything reachable behind its successors exactly where each node is found
within the depth. -/
theorem search_iff (hac : Acyclic ok next) (root : α) (depth : Nat) :
    (Ordered ok next (search ok next depth [] (next root) []) ∧
      ∀ g, TransGen (Edge ok next) root g → g ∈ search ok next depth [] (next root) []) ↔
      FoundWithin ok next root depth [] := by
  -- nothing lies before the root
  have hnone : ∀ g, g ∈ ([] : List α) ↔ Before ok next root [] g := by
    intro g
    constructor
    · exact fun h => absurd h List.not_mem_nil
    · intro h
      obtain ⟨q, -, r, i, j, s, t, -, -, hx⟩ := h
      exact absurd hx.symm (by simp)
  have hspec := search_spec hac root depth depth [] root [] [] rfl (Nat.zero_add _)
    (fun v hv => absurd hv List.not_mem_nil) hnone ordered_nil
  constructor
  · intro h
    exact hspec.2 h.1 fun g hg => h.2 g (.single hg)
  · intro h
    obtain ⟨hmem, hord⟩ := hspec.1 h
    refine ⟨hord, fun g hg => ?_⟩
    obtain ⟨i, s, hs⟩ := transGen_follow hg
    exact (hmem g).2 ((before_end (p := []) rfl).2 (.inr ⟨i, s, hs⟩))

end search

end Lagfx.DepthFirst
