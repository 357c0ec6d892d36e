import Mathlib.Data.List.Infix
import Mathlib.Data.List.TakeWhile

/-! Tables that are searched for the first key a name starts with, and names whose parts end
at a separator. -/
namespace Lagfx.PrefixTable
variable {α β : Type*}

section
variable [DecidableEq α]

/-- The row of the first key that the name starts with. -/
def lookup (rows : List (List α × β)) (name : List α) : Option β :=
  (rows.find? fun r => r.1.isPrefixOf name).map Prod.snd

/-- The rest of a key behind `k`. -/
def strip (k : List α) (r : List α × β) : Option (List α × β) :=
  if k <+: r.1 then some (r.1.drop k.length, r.2) else none

theorem lookup_cons (r : List α × β) (rows : List (List α × β)) (name : List α) :
    lookup (r::rows) name = if r.1 <+: name then some r.2 else lookup rows name := by
  rw [lookup, List.find?_cons]
  by_cases h : r.1 <+: name
  · rw [if_pos h, List.isPrefixOf_iff_prefix.2 h]
    rfl
  · have hfalse : r.1.isPrefixOf name = false := by
      rw [← Bool.not_eq_true, List.isPrefixOf_iff_prefix]
      exact h
    rw [if_neg h, hfalse]
    rfl

/-- Names with the same keys in front have the same row. -/
theorem lookup_congr {rows : List (List α × β)} {u v : List α}
    (h : ∀ r ∈ rows, (r.1 <+: u ↔ r.1 <+: v)) : lookup rows u = lookup rows v := by
  induction rows with
  | nil => rfl
  | cons r rows ih =>
    have hrest := ih fun r hr => h r (List.mem_cons_of_mem _ hr)
    rw [lookup_cons, lookup_cons, hrest]
    simp only [h r List.mem_cons_self]

theorem lookup_eq_none {rows : List (List α × β)} {name : List α} :
    lookup rows name = none ↔ ∀ r ∈ rows, ¬r.1 <+: name := by
  rw [lookup, Option.map_eq_none_iff, List.find?_eq_none]
  exact forall₂_congr fun r _ => by rw [List.isPrefixOf_iff_prefix]

/-- Rows that do not match may be left out. -/
theorem lookup_filter {rows : List (List α × β)} {name : List α} (p : List α × β → Bool)
    (h : ∀ r ∈ rows, p r = false → ¬r.1 <+: name) :
    lookup (rows.filter p) name = lookup rows name := by
  induction rows with
  | nil => rfl
  | cons r rows ih =>
    have hrest := ih fun r hr => h r (List.mem_cons_of_mem _ hr)
    rw [lookup_cons]
    cases hp : p r with
    | true => rw [List.filter_cons_of_pos hp, lookup_cons, hrest]
    | false =>
      rw [List.filter_cons_of_neg (by rw [hp]; exact Bool.false_ne_true), hrest,
        if_neg (h r List.mem_cons_self hp)]

/-- Behind `k`, when no key ends inside of it. -/
theorem lookup_append {rows : List (List α × β)} {k : List α}
    (h : ∀ r ∈ rows, r.1 <+: k → k <+: r.1) (u : List α) :
    lookup rows (k++u) = lookup (rows.filterMap (strip k)) u := by
  induction rows with
  | nil => rfl
  | cons r rows ih =>
    have hrest := ih fun r hr => h r (List.mem_cons_of_mem _ hr)
    rw [lookup_cons, hrest]
    by_cases hk : k <+: r.1
    · obtain ⟨v, hv⟩ := hk
      have hstrip : strip k r = some (v, r.2) := by
        rw [strip, ← hv, if_pos (List.prefix_append k v), List.drop_left]
      rw [List.filterMap_cons_some hstrip, lookup_cons, ← hv]
      simp only [List.prefix_append_right_inj]
    · have hno : ¬r.1 <+: k++u := by
        intro hr
        rcases List.prefix_or_prefix_of_prefix hr (List.prefix_append k u) with hle | hle
        · exact hk (h r List.mem_cons_self hle)
        · exact hk hle
      have hstrip : strip k r = none := if_neg hk
      rw [List.filterMap_cons_none hstrip, if_neg hno]

end

/- Separators. -/

/-- The name of a part is over: nothing follows, or the separator. -/
def EndsAt (sep : α) (rest : List α) : Prop := ∀ a ∈ rest.head?, a = sep

section
variable {sep : α} {p u rest : List α}

/-- A key without a separator lies in front of it. -/
theorem prefix_part (hp : sep ∉ p) (hrest : EndsAt sep rest) : p <+: u++rest ↔ p <+: u := by
  constructor
  · intro h
    rcases List.prefix_or_prefix_of_prefix h (List.prefix_append u rest) with hle | ⟨v, hv⟩
    · exact hle
    · rw [← hv, List.prefix_append_right_inj] at h
      cases v with
      | nil =>
        rw [← hv, List.append_nil]
      | cons a v =>
        obtain ⟨t, ht⟩ := h
        have ha : a = sep := hrest a (by rw [← ht]; rfl)
        exact absurd (hv ▸ ha ▸ List.mem_append_right u List.mem_cons_self) hp
  · exact fun h => h.trans (List.prefix_append u rest)

/-- A key that ends at the separator is the part in front of it. -/
theorem prefix_sep (hp : sep ∉ p) (hu : sep ∉ u) (hrest : EndsAt sep rest) :
    p++[sep] <+: u++rest ↔ p = u ∧ rest ≠ [] := by
  constructor
  · intro h
    obtain ⟨v, rfl⟩ := (prefix_part hp hrest).1 ((List.prefix_append p [sep]).trans h)
    rw [List.append_assoc, List.prefix_append_right_inj] at h
    cases v with
    | nil =>
      refine ⟨(List.append_nil p).symm, fun hnil => ?_⟩
      subst hnil
      exact absurd (List.prefix_nil.1 h) (List.cons_ne_nil _ _)
    | cons a v =>
      have ha : sep = a := (List.cons_prefix_cons.1 h).1
      exact absurd (ha ▸ List.mem_append_right p List.mem_cons_self) hu
  · rintro ⟨rfl, hne⟩
    cases rest with
    | nil => exact absurd rfl hne
    | cons a rest =>
      have ha : a = sep := hrest a rfl
      subst ha
      exact ⟨rest, by rw [List.append_assoc]; rfl⟩

end

end Lagfx.PrefixTable
