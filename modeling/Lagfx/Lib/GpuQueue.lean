import Lagfx.Lib.Runs

/-! Submissions to a device queue and the objects they hold. A submission is pending
from its acceptance until its fence is seen signalled or the device is idle; what it
uses may not be released before. -/
namespace Lagfx.GpuQueue
open Runs
variable {α : Type*} [DecidableEq α]

/-- A pending submission: its fence and everything it uses, the fence included. -/
structure Submission (α : Type*) where
  fence : α
  uses : List α

/- Calls as the queue sees them: an accepted submission, a fence seen signalled, the
   device idle or lost, an object freed, destroyed or reset. -/
inductive Call (α : Type*) where
  | submit (fence : α) (uses : List α)
  | retire (fence : α)
  | idle
  | release (o : α)

def step (pending : List (Submission α)) : Call α → List (Submission α)
  | .submit fence uses => ⟨fence, fence :: uses⟩ :: pending
  | .retire fence => pending.filter fun s => s.fence ≠ fence
  | .idle => []
  | .release _ => pending

def run (pending : List (Submission α)) (calls : List (Call α)) : List (Submission α) :=
  calls.foldl step pending

/-- Nothing that is released is used by a pending submission. -/
def Safe (pending : List (Submission α)) : Call α → Prop
  | .release o => ∀ s ∈ pending, o ∉ s.uses
  | _ => True

instance (pending : List (Submission α)) : ∀ c : Call α, Decidable (Safe pending c)
  | .release o => inferInstanceAs (Decidable (∀ s ∈ pending, o ∉ s.uses))
  | .submit _ _ => isTrue trivial
  | .retire _ => isTrue trivial
  | .idle => isTrue trivial

def SafeRun (pending : List (Submission α)) (calls : List (Call α)) : Prop :=
  AllSteps step Safe pending calls

instance (pending : List (Submission α)) (calls : List (Call α)) :
    Decidable (SafeRun pending calls) :=
  inferInstanceAs (Decidable (AllSteps step Safe pending calls))

theorem run_append (pending : List (Submission α)) (a b : List (Call α)) :
    run pending (a ++ b) = run (run pending a) b := by
  simp [run]

theorem safeRun_append (pending : List (Submission α)) (a b : List (Call α)) :
    SafeRun pending (a ++ b) ↔ SafeRun pending a ∧ SafeRun (run pending a) b :=
  allSteps_append step b a pending

@[simp] theorem run_releases (os : List α) : ∀ pending : List (Submission α),
    run pending (os.map .release) = pending := by
  induction os with
  | nil => exact fun _ => rfl
  | cons o os ih => exact ih

/-- Releases alone are safe when nothing pending uses any of the objects. -/
theorem safeRun_releases (os : List α) : ∀ pending : List (Submission α),
    SafeRun pending (os.map .release) ↔ ∀ o ∈ os, ∀ s ∈ pending, o ∉ s.uses := by
  induction os with
  | nil => intro pending; simp [SafeRun, AllSteps]
  | cons o os ih =>
    intro pending
    rw [List.forall_mem_cons, ← ih]
    exact Iff.rfl

/-- A submission whose fence nothing else has, once seen signalled, leaves no trace. -/
theorem run_submit_retire {pending : List (Submission α)} {fence : α} (uses : List α)
    (h : ∀ s ∈ pending, s.fence ≠ fence) :
    run pending [.submit fence uses, .retire fence] = pending := by
  simp only [run, List.foldl_cons, List.foldl_nil, step]
  rw [List.filter_cons_of_neg (by simp)]
  exact List.filter_eq_self.mpr fun s hs => by simpa using h s hs

end Lagfx.GpuQueue
