import Mathlib.Data.Finset.Card
import Mathlib.Data.List.Nodup
import Mathlib.Data.List.TakeDrop

/-! Least-recently-used lists. The recency list of a history holds what it
touched, latest first; a cache of `n` slots holds its first `n` entries. -/
namespace Lagfx.Lru
variable {α : Type*} [DecidableEq α]

def touch (l : List α) (a : α) : List α := a::l.erase a

/-- Everything touched, latest first. -/
def recency (ts : List α) : List α := ts.foldl touch []

/-- What was touched after the last touch of `a`. -/
def since (ts : List α) (a : α) : List α := ts.reverse.takeWhile (· ≠ a)

theorem recency_append (ts : List α) (a : α) : recency (ts++[a]) = touch (recency ts) a := by
  simp [recency]

theorem mem_touch {l : List α} {a b : α} : b ∈ touch l a ↔ b = a ∨ b ∈ l := by
  by_cases h : b = a
  · simp [touch, h]
  · simp [touch, h, List.mem_erase_of_ne h]

theorem nodup_touch {l : List α} (a : α) (h : l.Nodup) : (touch l a).Nodup :=
  List.nodup_cons.mpr ⟨h.not_mem_erase, h.erase a⟩

theorem recency_nodup (ts : List α) : (recency ts).Nodup := by
  induction ts using List.reverseRecOn with
  | nil => exact List.nodup_nil
  | append_singleton ts a ih =>
    rw [recency_append]
    exact nodup_touch a ih

theorem mem_recency {ts : List α} {a : α} : a ∈ recency ts ↔ a ∈ ts := by
  induction ts using List.reverseRecOn with
  | nil => rfl
  | append_singleton ts b ih =>
    rw [recency_append, mem_touch, ih, List.mem_append, List.mem_singleton, or_comm]

theorem takeWhile_erase {a b : α} (h : b ≠ a) (l : List α) :
    (l.erase b).takeWhile (· ≠ a) = (l.takeWhile (· ≠ a)).erase b := by
  induction l with
  | nil => rfl
  | cons x l ih =>
    by_cases hx : x = b
    · subst hx
      simp [h]
    · by_cases hxa : x = a
      · subst hxa
        simp [hx]
      · simpa [hx, hxa] using ih

theorem since_append_self (ts : List α) (a : α) : since (ts++[a]) a = [] := by simp [since]

theorem since_append_ne (ts : List α) {a b : α} (h : b ≠ a) :
    since (ts++[b]) a = b::since ts a := by
  simp [since, h]

/-- Ahead of `a` in the recency list stands what was touched since. -/
theorem mem_takeWhile_recency (ts : List α) (a b : α) :
    b ∈ (recency ts).takeWhile (· ≠ a) ↔ b ∈ since ts a := by
  induction ts using List.reverseRecOn with
  | nil => rfl
  | append_singleton ts c ih =>
    rw [recency_append, touch]
    by_cases hc : c = a
    · subst hc
      simp [since_append_self]
    · rw [since_append_ne ts hc, List.takeWhile_cons_of_pos (by simpa using hc),
        takeWhile_erase hc, List.mem_cons, List.mem_cons]
      by_cases hb : b = c
      · simp [hb]
      · rw [List.mem_erase_of_ne hb, ih]

theorem length_takeWhile_ne {l : List α} {a : α} (h : a ∈ l) :
    (l.takeWhile (· ≠ a)).length = l.idxOf a := by
  induction l with
  | nil => simp at h
  | cons x l ih =>
    by_cases hx : x = a
    · simp [hx]
    · have hm : a ∈ l := by simpa [Ne.symm hx] using h
      simp only [ne_eq, decide_not] at ih ⊢
      simp [hx, List.idxOf_cons_ne _ hx, ih hm]

/-- The place of `a` is the number of others touched since. -/
theorem idxOf_recency {ts : List α} {a : α} (h : a ∈ ts) :
    (recency ts).idxOf a = (since ts a).toFinset.card := by
  rw [← length_takeWhile_ne (mem_recency.mpr h),
    ← List.toFinset_card_of_nodup ((recency_nodup ts).sublist (List.takeWhile_sublist _))]
  congr 1
  ext b
  simp only [List.mem_toFinset]
  exact mem_takeWhile_recency ts a b

theorem take_erase_take (l : List α) (a : α) (n : Nat) :
    ((l.take (n+1)).erase a).take n = (l.erase a).take n := by
  induction l generalizing n with
  | nil => simp
  | cons x l ih =>
    by_cases hx : x = a
    · subst hx
      simp
    · cases n with
      | zero => simp
      | succ n =>
        simp only [List.take_succ_cons, List.erase_cons, beq_iff_eq, hx, if_false]
        rw [ih]

/-- Touching the cached part and touching the whole list agree on the cache. -/
theorem touch_take (l : List α) (a : α) {n : Nat} (hn : 1 ≤ n) :
    (touch (l.take n) a).take n = (touch l a).take n := by
  obtain ⟨m, rfl⟩ : ∃ m, n = m+1 := ⟨n-1, by omega⟩
  simp only [touch, List.take_succ_cons]
  rw [take_erase_take]

/-- An element is cached exactly while fewer than `n` others came after it. -/
theorem mem_take_recency {ts : List α} {a : α} (h : a ∈ ts) (n : Nat) :
    a ∈ (recency ts).take n ↔ (since ts a).toFinset.card < n := by
  rw [← idxOf_recency h]
  exact List.mem_take_iff_idxOf_lt (mem_recency.mpr h)

end Lagfx.Lru
