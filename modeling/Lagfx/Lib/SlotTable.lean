import Mathlib.Data.List.Perm.Basic
import Mathlib.Data.List.Induction
import Mathlib.Algebra.Order.Group.Multiset
import Mathlib.Algebra.BigOperators.Group.List.Basic
import Mathlib.Tactic.Abel

/-! Tables kept as arrays of slots: the multiset of values their slots hold, and
how overwriting, removing or filtering slots changes it. -/
namespace Lagfx.SlotTable
variable {α β : Type*}

/-- The value in one slot as a multiset. -/
def held : Option β → Multiset β
  | none => 0
  | some b => {b}

@[simp] theorem held_none : held (none : Option β) = 0 := rfl
@[simp] theorem held_some (b : β) : held (some b) = {b} := rfl

/-- Every value held in the table, with multiplicity. -/
def tally (f : α → Option β) (l : List α) : Multiset β := (l.filterMap f : List β)

/-- Remove slot `i` by moving the last one into it. -/
def swapRemove (l : List α) (i : Nat) : List α :=
  match l.getLast? with
  | none => l
  | some z => (l.set i z).dropLast

theorem tally_perm (f : α → Option β) {l l' : List α} (h : l.Perm l') : tally f l = tally f l' :=
  Multiset.coe_eq_coe.mpr (h.filterMap f)

theorem tally_cons (f : α → Option β) (a : α) (l : List α) :
    tally f (a::l) = held (f a)+tally f l := by
  unfold tally
  cases h : f a <;> simp [h]

theorem tally_eq_of_map_eq {f : α → Option β} {l l' : List α} (h : l.map f = l'.map f) :
    tally f l = tally f l' := by
  have hm : ∀ l : List α, l.filterMap f = (l.map f).filterMap id := by
    intro l
    simp [List.filterMap_map]
  simp only [tally, hm, h]

/-- A write that keeps a field keeps that field of every slot. -/
theorem map_modify_of_keeps {g : α → β} {f : α → α} (hf : ∀ a, g (f a) = g a)
    (l : List α) (i : Nat) : (l.modify i f).map g = l.map g := by
  apply List.ext_getElem (by simp)
  intro j hj hj'
  by_cases h : i = j
  · simp [h, hf]
  · simp [h]

theorem tally_eq_zero {f : α → Option β} {l : List α} (h : ∀ a ∈ l, f a = none) :
    tally f l = 0 := by
  unfold tally
  rw [List.filterMap_eq_nil_iff.mpr h]
  rfl

theorem mem_tally {f : α → Option β} {l : List α} {b : β} :
    b ∈ tally f l ↔ ∃ a ∈ l, f a = some b := by
  simp [tally]

/-- A slot and the rest of its table. -/
theorem perm_cons_eraseIdx {l : List α} {i : Nat} {a : α} (h : l[i]? = some a) :
    l.Perm (a :: l.eraseIdx i) := by
  obtain ⟨hi, rfl⟩ := List.getElem?_eq_some_iff.mp h
  exact (List.getElem_cons_eraseIdx_perm hi).symm

theorem tally_slot (f : α → Option β) {l : List α} {i : Nat} {a : α} (h : l[i]? = some a) :
    tally f l = held (f a)+tally f (l.eraseIdx i) := by
  rw [tally_perm f (perm_cons_eraseIdx h), tally_cons]

/-- Overwriting slot `i` trades what it held for what it now holds. -/
theorem tally_set (f : α → Option β) {l : List α} {i : Nat} {a : α} (b : α)
    (h : l[i]? = some a) : tally f (l.set i b)+held (f a) = tally f l+held (f b) := by
  obtain ⟨hi, _⟩ := List.getElem?_eq_some_iff.mp h
  rw [tally_perm f (List.set_perm_cons_eraseIdx hi b), tally_cons, tally_slot f h]
  simp only [add_comm, add_left_comm]

theorem modify_eq_set {l : List α} {i : Nat} {a : α} (g : α → α) (h : l[i]? = some a) :
    l.modify i g = l.set i (g a) := by
  obtain ⟨hi, rfl⟩ := List.getElem?_eq_some_iff.mp h
  apply List.ext_getElem (by simp)
  intro j hj hj'
  by_cases hij : i = j
  · subst hij
    simp
  · simp [hij]

theorem tally_modify (f : α → Option β) {l : List α} {i : Nat} {a : α} (g : α → α)
    (h : l[i]? = some a) : tally f (l.modify i g)+held (f a) = tally f l+held (f (g a)) := by
  rw [modify_eq_set g h, tally_set f (g a) h]

/-- A sum over the slots, split at slot `i`. -/
theorem sum_map_split {M : Type*} [AddCommMonoid M] (f : α → M) {l : List α} {i : Nat} {a : α}
    (h : l[i]? = some a) :
    ∃ m, (l.map f).sum = m+f a ∧ ∀ b, ((l.set i b).map f).sum = m+f b := by
  obtain ⟨hi, -⟩ := List.getElem?_eq_some_iff.mp h
  refine ⟨((l.eraseIdx i).map f).sum, ?_, fun b => ?_⟩
  · rw [((perm_cons_eraseIdx h).map f).sum_eq, List.map_cons, List.sum_cons, add_comm]
  · rw [((List.set_perm_cons_eraseIdx hi b).map f).sum_eq, List.map_cons, List.sum_cons, add_comm]

theorem swapRemove_perm {l : List α} {i : Nat} (h : i < l.length) :
    (swapRemove l i).Perm (l.eraseIdx i) := by
  induction l using List.reverseRecOn with
  | nil => simp at h
  | append_singleton l z _ =>
    simp only [swapRemove, List.getLast?_append, List.getLast?_singleton, Option.some_or]
    by_cases hi : i < l.length
    · rw [List.set_append_left i z hi, List.dropLast_concat, List.eraseIdx_append_of_lt_length hi]
      calc (l.set i z).Perm (z :: l.eraseIdx i) := List.set_perm_cons_eraseIdx hi z
        _ |>.Perm (l.eraseIdx i++[z]) := (List.perm_append_singleton z _).symm
    · have he : i = l.length := by simp at h; omega
      subst he
      simp [List.set_append_right, List.eraseIdx_append_of_length_le]

/-- The last slot stands where the removed one stood, unless that was the last itself. -/
theorem swapRemove_split {l : List α} {i : Nat} {a : α} (h : l[i]? = some a) :
    (∃ pre, pre.length = i ∧ l = pre++[a] ∧ swapRemove l i = pre) ∨
    ∃ pre mid z, pre.length = i ∧ l = pre++a :: (mid++[z]) ∧ swapRemove l i = pre++z :: mid := by
  obtain ⟨hi, rfl⟩ := List.getElem?_eq_some_iff.1 h
  have hl : l = l.take i++l[i] :: l.drop (i+1) := by
    rw [List.getElem_cons_drop, List.take_append_drop]
  have hpre : (l.take i).length = i := List.length_take_of_le hi.le
  generalize l.take i = pre at hl hpre
  generalize l.drop (i+1) = rest at hl
  generalize l[i] = a at hl
  subst hl hpre
  induction rest using List.reverseRecOn with
  | nil =>
    refine .inl ⟨pre, rfl, rfl, ?_⟩
    simp [swapRemove]
  | append_singleton mid z _ =>
    refine .inr ⟨pre, mid, z, rfl, rfl, ?_⟩
    have hlast : (pre++a :: (mid++[z])).getLast? = some z := by
      rw [← List.cons_append, ← List.append_assoc, List.getLast?_concat]
    have hset : (pre++a :: (mid++[z])).set pre.length z = (pre++z :: mid)++[z] := by simp
    rw [swapRemove, hlast]
    dsimp only
    rw [hset, List.dropLast_concat]

/-- A search that passes by slot `a` finds the same when the last slot `z` is moved there
exactly if it finds something before, or does not stop at `z`, or at nothing between. -/
theorem find?_moved_iff {p : α → Bool} {pre mid : List α} {a z : α} (ha : p a = false)
    (hz : z ∉ mid) : (pre++z :: mid).find? p = (pre++a :: (mid++[z])).find? p ↔
      (∃ e ∈ pre, p e = true) ∨ p z = false ∨ ∀ e ∈ mid, p e = false := by
  rw [List.find?_append, List.find?_append, List.find?_cons, List.find?_cons, ha]
  dsimp only
  cases hpre : pre.find? p with
  | some e =>
    exact iff_of_true rfl (.inl ⟨e, List.mem_of_find?_eq_some hpre, List.find?_some hpre⟩)
  | none =>
    have hno : ¬∃ e ∈ pre, p e = true := by
      intro h
      obtain ⟨e, he, hp⟩ := h
      exact List.find?_eq_none.1 hpre e he hp
    rw [or_iff_right hno, Option.none_or, Option.none_or, List.find?_append]
    cases hpz : p z with
    | false =>
      have hlast : [z].find? p = none := by rw [List.find?_cons, hpz, List.find?_nil]
      rw [hlast, Option.or_none]
      exact iff_of_true rfl (.inl rfl)
    | true =>
      have hlast : [z].find? p = some z := List.find?_cons_of_pos hpz
      rw [hlast, or_iff_right (by decide)]
      cases hmid : mid.find? p with
      | none =>
        refine iff_of_true rfl fun e he => ?_
        exact eq_false_of_ne_true (List.find?_eq_none.1 hmid e he)
      | some e =>
        have he := List.mem_of_find?_eq_some hmid
        refine iff_of_false ?_ ?_
        · intro h
          exact hz (Option.some.inj h ▸ he)
        · intro h
          have hpe := List.find?_some hmid
          rw [h e he] at hpe
          cases hpe

/-- Overwriting a slot that a search passes by does not change what it finds. -/
theorem find?_modify_of_not {p : α → Bool} {f : α → α} :
    ∀ {l : List α} {i : Nat}, (∀ a, l[i]? = some a → p a = false ∧ p (f a) = false) →
      (l.modify i f).find? p = l.find? p := by
  intro l
  induction l with
  | nil => intro i _; simp
  | cons a l ih =>
    intro i h
    cases i with
    | zero =>
      obtain ⟨ha, hf⟩ := h a rfl
      rw [List.modify_zero_cons, List.find?_cons, List.find?_cons, ha, hf]
    | succ i =>
      rw [List.modify_succ_cons, List.find?_cons, List.find?_cons, ih fun b hb => h b hb]

/-- A filter that keeps what a search finds does not change it. -/
theorem find?_filter_of_kept {p q : α → Bool} {l : List α}
    (h : ∀ a, l.find? p = some a → q a = true) : (l.filter q).find? p = l.find? p := by
  induction l with
  | nil => rfl
  | cons a l ih =>
    cases hp : p a with
    | true =>
      have hq := h a (List.find?_cons_of_pos hp)
      rw [List.filter_cons_of_pos hq, List.find?_cons_of_pos hp, List.find?_cons_of_pos hp]
    | false =>
      have hp' : ¬p a = true := by rw [hp]; decide
      rw [List.find?_cons_of_neg hp'] at h ⊢
      by_cases hq : q a = true
      · rw [List.filter_cons_of_pos hq, List.find?_cons_of_neg hp']
        exact ih h
      · rw [List.filter_cons_of_neg hq]
        exact ih h

theorem tally_swapRemove (f : α → Option β) {l : List α} {i : Nat} {a : α}
    (h : l[i]? = some a) : held (f a)+tally f (swapRemove l i) = tally f l := by
  obtain ⟨hi, _⟩ := List.getElem?_eq_some_iff.mp h
  rw [tally_perm f (swapRemove_perm hi), ← tally_slot f h]

/-- Dropping slots splits the table's values into kept and dropped. -/
theorem tally_filter (f : α → Option β) (p : α → Bool) (l : List α) :
    tally f (l.filter p)+tally f (l.filter (fun a => !p a)) = tally f l := by
  induction l with
  | nil => rfl
  | cons a l ih =>
    cases hp : p a
    · simp [hp, tally_cons, ← ih, add_left_comm]
    · simp [hp, tally_cons, ← ih, add_assoc]

end Lagfx.SlotTable
