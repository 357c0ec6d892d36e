import Mathlib.Data.List.Basic
import Mathlib.Algebra.Order.Group.Nat

/-! A debounced latch. Whoever asks is refused while pulses keep arriving, but no longer
than a longest hold; what was announced stays until it is taken. The latch keeps three
words, and its answers are those that follow from all that was done before. -/
namespace Lagfx.Debounce

/-- An announcement, an announcement that also disturbs the quiet, a request. -/
inductive Event where
  | raise
  | pulse (t : Nat)
  | ask (t : Nat) (take : Bool)

/-- What was done to the latch; a request, with whether the latch opened. -/
inductive Entry where
  | raised
  | pulsed (t : Nat)
  | asked (t : Nat) (take opened : Bool)

structure Latch where
  raised : Bool := false
  pulsed : Option Nat := none
  heldSince : Option Nat := none

variable (quiet hold : Nat)

def Latch.busy (l : Latch) (t : Nat) : Bool :=
  match l.pulsed with
  | none => false
  | some s => decide (t < s+quiet)

def Latch.holds (l : Latch) (t : Nat) : Bool :=
  l.busy quiet t && decide (t < l.heldSince.getD t+hold)

def Latch.opens (l : Latch) (t : Nat) : Bool := l.raised && !l.holds quiet hold t

/-- A refusal starts the hold, an opening ends it. -/
def Latch.asked (l : Latch) (t : Nat) (take : Bool) : Latch :=
  if l.raised = false then l
  else if l.holds quiet hold t then { l with heldSince := some (l.heldSince.getD t) }
  else { l with raised := !take, heldSince := none }

def Latch.step (l : Latch) : Event → Latch × Entry
  | .raise => ({ l with raised := true }, .raised)
  | .pulse t => ({ l with raised := true, pulsed := some t }, .pulsed t)
  | .ask t take => (l.asked quiet hold t take, .asked t take (l.opens quiet hold t))

/- The past of a latch is the list of its entries, the latest first. -/
def Entry.announces : Entry → Bool
  | .raised | .pulsed _ => true
  | .asked .. => false

def Entry.takes : Entry → Bool
  | .asked _ take opened => take && opened
  | _ => false

def Entry.pulse? : Entry → Option Nat
  | .pulsed t => some t
  | _ => none

def Entry.time? : Entry → Option Nat
  | .pulsed t | .asked t _ _ => some t
  | .raised => none

/-- Something was announced and not taken since. -/
def pending (past : List Entry) : Bool := (past.takeWhile fun x => !x.takes).any Entry.announces

/-- A pulse is less than `quiet` old. -/
def Busy (past : List Entry) (t : Nat) : Prop := ∃ s ∈ past.filterMap Entry.pulse?, t < s+quiet

/-- The refusals, with something to be had, since the latch last opened. -/
def waits : List Entry → List Nat
  | [] => []
  | .asked _ _ true :: _ => []
  | .asked t _ false :: past => if pending past then t :: waits past else waits past
  | .raised :: past => waits past
  | .pulsed _ :: past => waits past

/-- Nothing is to be had, or the pulses go on and nobody has waited long enough. -/
def Refused (past : List Entry) (t : Nat) : Prop :=
  pending past = false ∨ (Busy quiet past t ∧ ∀ h ∈ waits past, t < h+hold)

/-- No entry of the past is later than `t`. -/
def Before (past : List Entry) (t : Nat) : Prop := ∀ s ∈ past.filterMap Entry.time?, s ≤ t

/-- The words of the latch stand for the past. -/
structure Latched (past : List Entry) (l : Latch) : Prop where
  raised : l.raised = pending past
  pulsed : l.pulsed = (past.filterMap Entry.pulse?).head?
  held : l.heldSince = (waits past).getLast?
  ordered : (past.filterMap Entry.time?).Pairwise (· ≥ ·)

theorem latched_nil : Latched [] {} := ⟨rfl, rfl, rfl, List.Pairwise.nil⟩

theorem pending_cons (x : Entry) (past : List Entry) :
    pending (x :: past) = (!x.takes && (x.announces || pending past)) := by
  cases hx : x.takes <;> simp [pending, hx]

/-- What one function reads off a list is among what a wider one does, in order. -/
theorem filterMap_sublist {α β : Type*} {f g : α → Option β}
    (hfg : ∀ x, ∀ y ∈ f x, y ∈ g x) (xs : List α) : (xs.filterMap f).Sublist (xs.filterMap g) := by
  induction xs with
  | nil => exact List.Sublist.refl _
  | cons x xs ih =>
    rw [List.filterMap_cons, List.filterMap_cons]
    cases hf : f x with
    | none =>
      cases g x with
      | none => exact ih
      | some y => exact ih.cons y
    | some y =>
      rw [hfg x y hf]
      exact ih.cons_cons y

theorem pulses_sublist (past : List Entry) :
    (past.filterMap Entry.pulse?).Sublist (past.filterMap Entry.time?) := by
  apply filterMap_sublist
  intro x t ht
  cases x with
  | raised => cases ht
  | pulsed s => exact ht
  | asked s take opened => cases ht

theorem waits_sublist (past : List Entry) : (waits past).Sublist (past.filterMap Entry.time?) := by
  induction past with
  | nil => exact List.Sublist.refl _
  | cons x past ih =>
    cases x with
    | raised => exact ih
    | pulsed s => exact ih.cons s
    | asked s take opened =>
      cases opened with
      | true => exact List.nil_sublist _
      | false =>
        rw [waits]
        split
        · exact ih.cons_cons s
        · exact ih.cons s

/-- Nothing in an ordered list of times is later than its first. -/
theorem le_head {ts : List Nat} {s t : Nat} (h : ts.Pairwise (· ≥ ·)) (hs : ts.head? = some s)
    (ht : t ∈ ts) : t ≤ s := by
  cases ts with
  | nil => cases ht
  | cons a as =>
    cases hs
    rcases List.mem_cons.1 ht with rfl | ht
    · exact Nat.le_refl _
    · exact List.rel_of_pairwise_cons h ht

theorem getLast_le {ts : List Nat} {s t : Nat} (h : ts.Pairwise (· ≥ ·))
    (hs : ts.getLast? = some s) (ht : t ∈ ts) : s ≤ t := by
  induction ts with
  | nil => cases ht
  | cons a as ih =>
    cases as with
    | nil =>
      cases hs
      exact (List.mem_singleton.1 ht).ge
    | cons b bs =>
      rw [List.getLast?_cons_cons] at hs
      rcases List.mem_cons.1 ht with rfl | ht
      · exact List.rel_of_pairwise_cons h (List.mem_of_getLast? hs)
      · exact ih h.of_cons hs ht

section Tracking
variable {quiet hold} {past : List Entry} {l : Latch} (h : Latched past l)
include h

/-- The latest pulse decides whether the latch is busy. -/
theorem Latched.busy_iff (t : Nat) : l.busy quiet t = true ↔ Busy quiet past t := by
  have hordered := h.ordered.sublist (pulses_sublist past)
  rw [Latch.busy, h.pulsed]
  constructor
  · intro hb
    cases hp : (past.filterMap Entry.pulse?).head? with
    | none => rw [hp] at hb; cases hb
    | some s =>
      rw [hp] at hb
      exact ⟨s, List.mem_of_head? hp, of_decide_eq_true hb⟩
  · intro ⟨s, hs, ht⟩
    cases hp : (past.filterMap Entry.pulse?).head? with
    | none => rw [List.head?_eq_none_iff.1 hp] at hs; cases hs
    | some s' =>
      have hle := le_head hordered hp hs
      apply decide_eq_true
      omega

/-- The earliest refusal decides whether somebody has waited long enough. -/
theorem Latched.hold_iff (t : Nat) (hhold : 0 < hold) :
    t < l.heldSince.getD t+hold ↔ ∀ s ∈ waits past, t < s+hold := by
  have hordered := h.ordered.sublist (waits_sublist past)
  rw [h.held]
  cases hw : (waits past).getLast? with
  | none =>
    rw [List.getLast?_eq_none_iff.1 hw]
    simpa using hhold
  | some s =>
    constructor
    · intro ht s' hs'
      have hle := getLast_le hordered hw hs'
      simp only [Option.getD_some] at ht
      omega
    · intro hall
      exact hall s (List.mem_of_getLast? hw)

theorem Latched.holds_iff {t : Nat} (hle : quiet ≤ hold) (hb : Before past t) :
    l.holds quiet hold t = true ↔ Busy quiet past t ∧ ∀ s ∈ waits past, t < s+hold := by
  rw [Latch.holds, Bool.and_eq_true, decide_eq_true_iff, h.busy_iff]
  apply and_congr_right
  intro ⟨s, hs, ht⟩
  -- a pulse that is less than `quiet` old is there only when `quiet` is above 0
  have hst := hb s ((pulses_sublist past).subset hs)
  exact h.hold_iff t (by omega)

/-- What the latch answers is what its past says. -/
theorem Latched.opens_iff {t : Nat} (hle : quiet ≤ hold) (hb : Before past t) :
    l.opens quiet hold t = false ↔ Refused quiet hold past t := by
  rw [Refused, ← h.holds_iff hle hb, ← h.raised, Latch.opens]
  cases l.raised <;> cases l.holds quiet hold t <;> simp

/-- The times of the entries stay in order. -/
theorem Latched.ordered_step (quiet hold : Nat) (e : Event)
    (hb : ∀ t ∈ (l.step quiet hold e).2.time?, Before past t) :
    (((l.step quiet hold e).2 :: past).filterMap Entry.time?).Pairwise (· ≥ ·) := by
  cases ht : (l.step quiet hold e).2.time? with
  | none => simpa [List.filterMap_cons, ht] using h.ordered
  | some t =>
    simp only [List.filterMap_cons, ht]
    exact List.pairwise_cons.2 ⟨hb t ht, h.ordered⟩

/-- The step lemma: the words go on standing for the past. -/
theorem Latched.step (quiet hold : Nat) (e : Event)
    (hb : ∀ t ∈ (l.step quiet hold e).2.time?, Before past t) :
    Latched ((l.step quiet hold e).2 :: past) (l.step quiet hold e).1 := by
  have hordered := h.ordered_step quiet hold e hb
  cases e with
  | raise => exact ⟨(pending_cons .raised past).symm, h.pulsed, h.held, hordered⟩
  | pulse t => exact ⟨(pending_cons (.pulsed t) past).symm, rfl, h.held, hordered⟩
  | ask t take =>
    have hraised := h.raised
    by_cases hr : l.raised = false
    · have hl : l.asked quiet hold t take = l := if_pos hr
      have ho : l.opens quiet hold t = false := by simp [Latch.opens, hr]
      rw [hr] at hraised
      simp only [Latch.step, hl, ho] at hordered ⊢
      refine ⟨?_, h.pulsed, ?_, hordered⟩
      · simp [pending_cons, Entry.takes, Entry.announces, hr, ← hraised]
      · simpa [waits, ← hraised] using h.held
    · rw [Bool.not_eq_false] at hr
      rw [hr] at hraised
      cases hh : l.holds quiet hold t with
      | true =>
        have hl : l.asked quiet hold t take =
            { l with heldSince := some (l.heldSince.getD t) } := by simp [Latch.asked, hr, hh]
        have ho : l.opens quiet hold t = false := by simp [Latch.opens, hh]
        simp only [Latch.step, hl, ho] at hordered ⊢
        refine ⟨?_, h.pulsed, ?_, hordered⟩
        · simp [pending_cons, Entry.takes, Entry.announces, hr, ← hraised]
        · simp [waits, ← hraised, h.held, List.getLast?_cons]
      | false =>
        have hl : l.asked quiet hold t take = { l with raised := !take, heldSince := none } := by
          simp [Latch.asked, hr, hh]
        have ho : l.opens quiet hold t = true := by simp [Latch.opens, hr, hh]
        simp only [Latch.step, hl, ho] at hordered ⊢
        refine ⟨?_, h.pulsed, rfl, hordered⟩
        simp [pending_cons, Entry.takes, Entry.announces, ← hraised]

end Tracking
end Lagfx.Debounce
