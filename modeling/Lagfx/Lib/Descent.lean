import Mathlib.Logic.Relation
import Mathlib.Data.Set.Finite.Basic
import Mathlib.Order.WellFounded
import Mathlib.Order.WellFoundedSet

/-! Recursion to a bounded depth: what a greater depth keeps, when some depth is enough, and
relations without cycles. -/
namespace Lagfx.Descent
variable {α β σ : Type*}

/-- What `o` has, `p` has too. -/
def Within (o p : Option β) : Prop := ∀ r, o = some r → p = some r

namespace Within

theorem refl (o : Option β) : Within o o := fun _ h => h

theorem none (p : Option β) : Within none p := by
  intro r h
  cases h

theorem bind {o p : Option α} {f g : α → Option β} (h : Within o p)
    (hf : ∀ a, Within (f a) (g a)) : Within (o.bind f) (p.bind g) := by
  intro r hr
  obtain ⟨a, ha, har⟩ := Option.bind_eq_some_iff.1 hr
  rw [h a ha, Option.bind_some]
  exact hf a r har

theorem map {o p : Option α} (h : Within o p) (f : α → β) : Within (o.map f) (p.map f) := by
  intro r hr
  obtain ⟨a, ha, rfl⟩ := Option.map_eq_some_iff.1 hr
  rw [h a ha, Option.map_some]

theorem foldlM {f g : σ → α → Option σ} (h : ∀ s a, Within (f s a) (g s a)) (l : List α)
    (s : σ) : Within (l.foldlM f s) (l.foldlM g s) := by
  induction l generalizing s with
  | nil => exact refl _
  | cons a l ih =>
    rw [List.foldlM_cons, List.foldlM_cons]
    exact (h s a).bind ih

end Within

/-- A greater depth keeps the result. -/
def Deepens (f : Nat → Option β) : Prop := ∀ n, Within (f n) (f (n+1))

theorem Deepens.le {f : Nat → Option β} (h : Deepens f) {m n : Nat} (hmn : m ≤ n) :
    Within (f m) (f n) := by
  induction n, hmn using Nat.le_induction with
  | base => exact .refl _
  | succ n hn ih => exact fun r hr => h n r (ih r hr)

/-- Some depth is enough. -/
def Returns (f : Nat → Option β) : Prop := ∃ n, (f n).isSome = true

namespace Returns

theorem of_succ {f : Nat → Option β} (h : Returns fun n => f (n+1)) : Returns f :=
  let ⟨n, hn⟩ := h
  ⟨n+1, hn⟩

theorem some (r : β) : Returns fun _ => some r := ⟨0, rfl⟩

theorem map {f : Nat → Option α} (h : Returns f) (g : α → β) :
    Returns fun n => (f n).map g := by
  obtain ⟨n, hn⟩ := h
  exact ⟨n, by rwa [Option.isSome_map]⟩

theorem bind {f : Nat → Option α} {g : Nat → α → Option β} (hf : Deepens f)
    (hg : ∀ a, Deepens fun n => g n a) (h : Returns f)
    (hret : ∀ a n, f n = Option.some a → Returns fun n => g n a) :
    Returns fun n => (f n).bind (g n) := by
  obtain ⟨m, hm⟩ := h
  obtain ⟨a, ha⟩ := Option.isSome_iff_exists.1 hm
  obtain ⟨k, hk⟩ := hret a m ha
  obtain ⟨r, hr⟩ := Option.isSome_iff_exists.1 hk
  refine ⟨max m k, ?_⟩
  simp only [hf.le (le_max_left m k) a ha, Option.bind_some,
    (hg a).le (le_max_right m k) r hr, Option.isSome_some]

theorem foldlM {f : Nat → σ → α → Option σ} (hf : ∀ s a, Deepens fun n => f n s a)
    (l : List α) (h : ∀ a ∈ l, ∀ s, Returns fun n => f n s a) (s : σ) :
    Returns fun n => l.foldlM (f n) s := by
  induction l generalizing s with
  | nil => exact ⟨0, rfl⟩
  | cons a l ih =>
    simp only [List.foldlM_cons]
    refine bind (hf s a) (fun s n => Within.foldlM (fun s a => hf s a n) l s)
      (h a (List.mem_cons_self ..) s) fun s' n hs' => ?_
    exact ih (fun b hb => h b (List.mem_cons_of_mem a hb)) s'

end Returns

/-- No walk along `r` comes back. -/
def Acyclic (r : α → α → Prop) : Prop := ∀ a, ¬Relation.TransGen r a a

theorem acyclic_of_acc {r : α → α → Prop} (h : ∀ a, Acc (flip r) a) : Acyclic r := by
  intro a hcycle
  have hwf : WellFounded (Relation.TransGen (flip r)) := WellFounded.transGen ⟨h⟩
  have hback : Relation.TransGen (flip r) a a := Relation.transGen_swap.2 hcycle
  exact hwf.irrefl.irrefl a hback

/-- With finitely many sources, a relation without cycles has no endless walk. -/
theorem acc_of_acyclic {r : α → α → Prop} (hfin : {a | ∃ b, r a b}.Finite) (h : Acyclic r)
    (a : α) : Acc (flip r) a := by
  have hsub : Finite {a | ∃ b, r a b} := hfin
  let walk (x y : {a | ∃ b, r a b}) : Prop := Relation.TransGen (flip r) x.1 y.1
  have htrans : IsTrans _ walk := ⟨fun _ _ _ => Relation.TransGen.trans⟩
  have hirrefl : Std.Irrefl walk := ⟨fun x hx => h x.1 (Relation.transGen_swap.1 hx)⟩
  have hwf : WellFounded walk := Finite.wellFounded_of_trans_of_irrefl walk
  have hsource : ∀ x : {a | ∃ b, r a b}, Acc (flip r) x.1 := by
    intro x
    induction x using hwf.induction with
    | _ x ih =>
      refine ⟨x.1, fun b hb => ?_⟩
      by_cases hnext : ∃ c, r b c
      · exact ih ⟨b, hnext⟩ (.single hb)
      · exact ⟨b, fun c hc => absurd ⟨c, hc⟩ hnext⟩
  by_cases hnext : ∃ b, r a b
  · exact hsource ⟨a, hnext⟩
  · exact ⟨a, fun c hc => absurd ⟨c, hc⟩ hnext⟩

theorem acyclic_iff_acc {r : α → α → Prop} (hfin : {a | ∃ b, r a b}.Finite) :
    Acyclic r ↔ ∀ a, Acc (flip r) a :=
  ⟨acc_of_acyclic hfin, acyclic_of_acc⟩

end Lagfx.Descent
