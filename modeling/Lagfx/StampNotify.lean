import Lagfx.StampCell
import Mathlib.Data.List.Induction
import Mathlib.Tactic.IntervalCases

/-! Completions on several threads against the guest's reads of the stamp mask. Each memory
access, the bit set and the interrupt of a completion is a step of its own. -/
namespace Lagfx

/-- Where a thread stands in `lagfx_protocol_complete_stamp_slot`. -/
inductive CompletePc where
  | idle
  | called (slot stamp : Nat)
  | loaded (slot stamp cur : Nat)
  | stored (slot stamp : Nat) (ok : Bool)
  | posted
deriving DecidableEq, Repr

/- `published`: `ring_base_pfn` is not zero. -/
structure NotifyState where
  published : Bool
  cell : Nat → Nat
  pending : Nat := 0
  pc : Nat → CompletePc := fun _ => .idle

/-- Steps of thread `t`, and the guest's read of BAR0+0x1018. -/
inductive NotifyStep where
  | call (t slot stamp : Nat)
  | load (t : Nat) (ok : Bool)
  | store (t : Nat) (ok : Bool)
  | post (t : Nat)
  | raiseIrq (t : Nat)
  | readStamps
deriving DecidableEq, Repr

namespace NotifyState
variable (s : NotifyState)

def setPc (t : Nat) (pc : CompletePc) : NotifyState := { s with pc := Function.update s.pc t pc }

def setCell (slot v : Nat) : NotifyState := { s with cell := Function.update s.cell slot v }

/- A failed read leaves `cur` at 0; a failed write goes on to the bit and the interrupt. -/
def step : NotifyStep → Option NotifyState
  | .call t slot stamp =>
    if s.pc t = .idle ∧ slot < maxChannels ∧ stamp < 2^32 then some (s.setPc t (.called slot stamp))
    else none
  | .load t ok =>
    match s.pc t with
    | .called slot stamp =>
      if s.published then some (s.setPc t (.loaded slot stamp (if ok then s.cell slot else 0)))
      else some (s.setPc t (.stored slot stamp false))
    | _ => none
  | .store t ok =>
    match s.pc t with
    | .loaded slot stamp cur =>
      let written := if ok then s.setCell slot (nextStamp cur stamp) else s
      some (written.setPc t (.stored slot stamp ok))
    | _ => none
  | .post t =>
    match s.pc t with
    | .stored slot _ _ => some ({ s with pending := s.pending ||| 1 <<< slot }.setPc t .posted)
    | _ => none
  | .raiseIrq t => if s.pc t = .posted then some (s.setPc t .idle) else none
  | .readStamps => some { s with pending := 0 }

/-- Any interleaving of the steps. -/
def run : NotifyState → List NotifyStep → Option NotifyState
  | s, [] => some s
  | s, a :: l => (s.step a).bind fun u => run u l

end NotifyState
open NotifyState

section Steps
variable {s u : NotifyState} {t t' : Nat}

@[simp] theorem NotifyState.setPc_cell (pc : CompletePc) : (s.setPc t pc).cell = s.cell := rfl

@[simp] theorem NotifyState.setPc_pending (pc : CompletePc) :
    (s.setPc t pc).pending = s.pending := rfl

@[simp] theorem NotifyState.setPc_self (pc : CompletePc) : (s.setPc t pc).pc t = pc := by
  simp [setPc]

theorem NotifyState.setPc_other (pc : CompletePc) (h : t' ≠ t) :
    (s.setPc t pc).pc t' = s.pc t' := by
  simp [setPc, h]

theorem NotifyState.setPc_pc (pc : CompletePc) (c : Nat) :
    (s.setPc t pc).pc c = if c = t then pc else s.pc c := by
  by_cases hc : c = t
  · simp [hc]
  · simp [hc, setPc_other]

@[simp] theorem NotifyState.setCell_pc (slot v : Nat) : (s.setCell slot v).pc = s.pc := rfl

@[simp] theorem NotifyState.setCell_pending (slot v : Nat) :
    (s.setCell slot v).pending = s.pending := rfl

theorem NotifyState.setCell_self (slot v : Nat) : (s.setCell slot v).cell slot = v := by
  simp [setCell]

theorem NotifyState.setCell_other {slot k : Nat} (v : Nat) (h : k ≠ slot) :
    (s.setCell slot v).cell k = s.cell k := by
  simp [setCell, h]

/-- Whatever came of the write, the threads and the mask are as they were. -/
theorem NotifyState.written_rest (ok : Bool) (slot v : Nat) :
    (if ok then s.setCell slot v else s).pc = s.pc ∧
      (if ok then s.setCell slot v else s).pending = s.pending := by
  cases ok <;> exact ⟨rfl, rfl⟩

theorem step_call {slot stamp : Nat} (h : s.step (.call t slot stamp) = some u) :
    s.pc t = .idle ∧ u = s.setPc t (.called slot stamp) := by
  simp only [step] at h
  split at h
  · rename_i hc
    exact ⟨hc.1, by simpa using h.symm⟩
  · cases h

theorem step_load {ok : Bool} (h : s.step (.load t ok) = some u) :
    ∃ slot stamp, s.pc t = .called slot stamp ∧
      ((s.published = true ∧
          u = s.setPc t (.loaded slot stamp (if ok then s.cell slot else 0))) ∨
        (s.published = false ∧ u = s.setPc t (.stored slot stamp false))) := by
  simp only [step] at h
  split at h
  · rename_i slot stamp hp
    refine ⟨slot, stamp, hp, ?_⟩
    split at h
    · rename_i hpub
      exact .inl ⟨hpub, by simpa using h.symm⟩
    · rename_i hpub
      exact .inr ⟨by simpa using hpub, by simpa using h.symm⟩
  · cases h

theorem step_store {ok : Bool} (h : s.step (.store t ok) = some u) :
    ∃ slot stamp cur, s.pc t = .loaded slot stamp cur ∧
      u = (if ok then s.setCell slot (nextStamp cur stamp) else s).setPc t
        (.stored slot stamp ok) := by
  simp only [step] at h
  split at h
  · rename_i slot stamp cur hp
    exact ⟨slot, stamp, cur, hp, by simpa using h.symm⟩
  · cases h

theorem step_post (h : s.step (.post t) = some u) :
    ∃ slot stamp ok, s.pc t = .stored slot stamp ok ∧
      u = { s with pending := s.pending ||| 1 <<< slot }.setPc t .posted := by
  simp only [step] at h
  split at h
  · rename_i slot stamp ok hp
    exact ⟨slot, stamp, ok, hp, by simpa using h.symm⟩
  · cases h

theorem step_raiseIrq (h : s.step (.raiseIrq t) = some u) :
    s.pc t = .posted ∧ u = s.setPc t .idle := by
  simp only [step] at h
  split at h
  · rename_i hp
    exact ⟨hp, by simpa using h.symm⟩
  · cases h

theorem step_readStamps (h : s.step .readStamps = some u) : u = { s with pending := 0 } := by
  simpa [step] using h.symm

/-- Only a post sets a bit and only a read clears them. -/
theorem step_pending {a : NotifyStep} (h : s.step a = some u) :
    u.pending = s.pending ∧ a ≠ .readStamps ∧ (∀ t, a ≠ .post t) ∨
      (a = .readStamps ∧ u.pending = 0) ∨
      ∃ t slot stamp ok, a = .post t ∧ s.pc t = .stored slot stamp ok ∧
        u.pending = s.pending ||| 1 <<< slot := by
  cases a with
  | call t slot stamp =>
    obtain ⟨-, rfl⟩ := step_call h
    exact .inl ⟨rfl, by simp, by simp⟩
  | load t ok =>
    obtain ⟨slot, stamp, -, ⟨-, rfl⟩ | ⟨-, rfl⟩⟩ := step_load h
    · exact .inl ⟨rfl, by simp, by simp⟩
    · exact .inl ⟨rfl, by simp, by simp⟩
  | store t ok =>
    obtain ⟨slot, stamp, cur, -, rfl⟩ := step_store h
    exact .inl ⟨(written_rest ok slot _).2, by simp, by simp⟩
  | post t =>
    obtain ⟨slot, stamp, ok, hp, rfl⟩ := step_post h
    exact .inr (.inr ⟨t, slot, stamp, ok, rfl, hp, rfl⟩)
  | raiseIrq t =>
    obtain ⟨-, rfl⟩ := step_raiseIrq h
    exact .inl ⟨rfl, by simp, by simp⟩
  | readStamps =>
    obtain rfl := step_readStamps h
    exact .inr (.inl ⟨rfl, rfl⟩)

/-- A thread that has set its bit goes on to the interrupt. -/
theorem step_posted {a : NotifyStep} (h : s.step a = some u) (hp : s.pc t = .posted) :
    a = .raiseIrq t ∨ u.pc t = .posted := by
  cases a with
  | call t' slot stamp =>
    obtain ⟨hidle, rfl⟩ := step_call h
    refine .inr ?_
    rw [setPc_other _ (by rintro rfl; rw [hp] at hidle; cases hidle)]
    exact hp
  | load t' ok =>
    obtain ⟨slot, stamp, hcalled, ⟨-, rfl⟩ | ⟨-, rfl⟩⟩ := step_load h
    all_goals
      refine .inr ?_
      rw [setPc_other _ (by rintro rfl; rw [hp] at hcalled; cases hcalled)]
      exact hp
  | store t' ok =>
    obtain ⟨slot, stamp, cur, hloaded, rfl⟩ := step_store h
    refine .inr ?_
    rw [setPc_other _ (by rintro rfl; rw [hp] at hloaded; cases hloaded), (written_rest _ _ _).1]
    exact hp
  | post t' =>
    obtain ⟨slot, stamp, ok, hstored, rfl⟩ := step_post h
    refine .inr ?_
    rw [setPc_other _ (by rintro rfl; rw [hp] at hstored; cases hstored)]
    exact hp
  | raiseIrq t' =>
    obtain ⟨-, rfl⟩ := step_raiseIrq h
    by_cases ht : t' = t
    · exact .inl (by rw [ht])
    · refine .inr ?_
      rw [setPc_other _ (Ne.symm ht)]
      exact hp
  | readStamps =>
    obtain rfl := step_readStamps h
    exact .inr hp

end Steps

section Runs
variable {s₀ s u : NotifyState} {l l₁ l₂ : List NotifyStep}

theorem notifyRun_append (l₁ l₂ : List NotifyStep) :
    s₀.run (l₁ ++ l₂) = (s₀.run l₁).bind fun u => u.run l₂ := by
  induction l₁ generalizing s₀ with
  | nil => rfl
  | cons a l₁ ih =>
    simp only [List.cons_append, NotifyState.run]
    cases s₀.step a with
    | none => rfl
    | some u => exact ih

theorem notifyRun_snoc {a : NotifyStep} (h : s₀.run (l ++ [a]) = some s) :
    ∃ u, s₀.run l = some u ∧ u.step a = some s := by
  rw [notifyRun_append] at h
  obtain ⟨u, hu, hs⟩ := Option.bind_eq_some_iff.mp h
  refine ⟨u, hu, ?_⟩
  obtain ⟨v, hv, hn⟩ := Option.bind_eq_some_iff.mp hs
  rw [NotifyState.run, Option.some.injEq] at hn
  rw [hv, hn]

/-- A part of a list with one element more. -/
theorem snoc_split {a b : NotifyStep} (h : l ++ [a] = l₁ ++ b :: l₂) :
    (l₂ = [] ∧ l = l₁ ∧ a = b) ∨ ∃ l₃, l₂ = l₃ ++ [a] ∧ l = l₁ ++ b :: l₃ := by
  induction l₂ using List.reverseRecOn with
  | nil =>
    obtain ⟨rfl, hab⟩ := List.append_inj' h rfl
    exact .inl ⟨rfl, rfl, by simpa using hab⟩
  | append_singleton l₃ c _ =>
    have hassoc : l₁ ++ b :: (l₃ ++ [c]) = (l₁ ++ b :: l₃) ++ [c] := by simp
    rw [hassoc] at h
    obtain ⟨rfl, hac⟩ := List.append_inj' h rfl
    obtain rfl : a = c := by simpa using hac
    exact .inr ⟨l₃, rfl, rfl⟩

/-- The post of a completion of `k`: what ran before it, the thread, what ran after it. -/
structure PostOf (s₀ : NotifyState) (l : List NotifyStep) (k : Nat) where
  before : List NotifyStep
  thread : Nat
  after : List NotifyStep
  split : l = before ++ .post thread :: after
  state : NotifyState
  reached : s₀.run before = some state
  stamp : Nat
  ok : Bool
  stored : state.pc thread = .stored k stamp ok

/-- The posts of a run one step longer. -/
def PostOf.snoc {k : Nat} (p : PostOf s₀ l k) (a : NotifyStep) : PostOf s₀ (l ++ [a]) k :=
  { p with
    after := p.after ++ [a]
    split := (congrArg (· ++ [a]) p.split).trans (by simp) }

theorem PostOf.of_snoc {k : Nat} {a : NotifyStep} (p : PostOf s₀ (l ++ [a]) k) :
    (p.after = [] ∧ l = p.before ∧ a = .post p.thread) ∨
      ∃ q : PostOf s₀ l k, p.after = q.after ++ [a] ∧ p.thread = q.thread := by
  obtain ⟨h, hl, ha⟩ | ⟨l₃, h, hl⟩ := snoc_split p.split
  · exact .inl ⟨h, hl, ha⟩
  · exact .inr ⟨{ p with after := l₃, split := hl }, h, rfl⟩

/-- A bit is pending exactly when a completion of its slot has posted since the last read. -/
theorem pending_iff_posted (h : s₀.run l = some s) (h0 : s₀.pending = 0) (k : Nat) :
    s.pending.testBit k = true ↔ ∃ p : PostOf s₀ l k, .readStamps ∉ p.after := by
  induction l using List.reverseRecOn generalizing s with
  | nil =>
    obtain rfl : s₀ = s := by simpa [NotifyState.run] using h
    rw [h0]
    simp only [Nat.zero_testBit, Bool.false_eq_true, false_iff, not_exists]
    intro p
    exact absurd p.split (by simp)
  | append_singleton l a ih =>
    obtain ⟨u, hu, ha⟩ := notifyRun_snoc h
    have ih' := ih hu
    obtain ⟨hsame, hread, hpost⟩ | ⟨rfl, hzero⟩ | ⟨t, slot, stamp, ok, rfl, hp, hset⟩ :=
      step_pending ha
    · rw [hsame, ih']
      constructor
      · intro hex
        obtain ⟨p, hp⟩ := hex
        refine ⟨p.snoc a, ?_⟩
        simpa [PostOf.snoc, hp] using hread.symm
      · intro hex
        obtain ⟨p, hp⟩ := hex
        obtain ⟨-, -, hcon⟩ | ⟨q, hq, -⟩ := p.of_snoc
        · exact absurd hcon (hpost _)
        · rw [hq, List.mem_append, not_or] at hp
          exact ⟨q, hp.1⟩
    · rw [hzero]
      simp only [Nat.zero_testBit, Bool.false_eq_true, false_iff, not_exists, not_not]
      intro p
      obtain ⟨-, -, hcon⟩ | ⟨q, hq, -⟩ := p.of_snoc
      · cases hcon
      · simp [hq]
    · rw [hset, Nat.testBit_or, Bool.or_eq_true, ih', Nat.one_shiftLeft, Nat.testBit_two_pow,
        decide_eq_true_eq]
      constructor
      · intro hor
        cases hor with
        | inl hex =>
          obtain ⟨p, hp⟩ := hex
          refine ⟨p.snoc _, ?_⟩
          simpa [PostOf.snoc] using hp
        | inr hk =>
          subst hk
          exact ⟨⟨l, t, [], rfl, u, hu, stamp, ok, hp⟩, by simp⟩
      · intro hex
        obtain ⟨p, hp'⟩ := hex
        obtain ⟨-, hl, hcon⟩ | ⟨q, hq, -⟩ := p.of_snoc
        · refine .inr ?_
          have hreach := p.reached
          have hstored := p.stored
          rw [← hl, hu, Option.some.injEq] at hreach
          have ht : t = p.thread := by simpa using hcon
          rw [← hreach, ← ht, hp] at hstored
          simpa using congrArg (fun | CompletePc.stored k _ _ => k | _ => 0) hstored
        · refine .inl ⟨q, ?_⟩
          rw [hq, List.mem_append, not_or] at hp'
          exact hp'.1

/-- After its post a thread raises the interrupt or is about to. -/
theorem posted_raises (h : s₀.run l = some s) {k : Nat} (p : PostOf s₀ l k) :
    .raiseIrq p.thread ∈ p.after ∨ s.pc p.thread = .posted := by
  induction l using List.reverseRecOn generalizing s with
  | nil => exact absurd p.split (by simp)
  | append_singleton l a ih =>
    obtain ⟨u, hu, ha⟩ := notifyRun_snoc h
    obtain ⟨-, -, hpost⟩ | ⟨q, hq, ht⟩ := p.of_snoc
    · rw [hpost] at ha
      obtain ⟨slot, stamp, ok, -, rfl⟩ := step_post ha
      exact .inr (setPc_self _)
    · rw [hq, ht]
      cases ih hu q with
      | inl hmem => exact .inl (List.mem_append_left _ hmem)
      | inr hposted =>
        cases step_posted ha hposted with
        | inl hraise => exact .inl (by simp [hraise])
        | inr hp => exact .inr hp

/-- Exactly the slots completed since the last read are pending for the next one, whatever
the interleaving, and each of them has been or is about to be announced by an interrupt
raised after its bit was set. -/
theorem stamp_notifications (h : s₀.run l = some s) (h0 : s₀.pending = 0) (k : Nat) :
    (s.pending.testBit k = true ↔ ∃ p : PostOf s₀ l k, .readStamps ∉ p.after) ∧
      ∀ p : PostOf s₀ l k, .raiseIrq p.thread ∈ p.after ∨ s.pc p.thread = .posted :=
  ⟨pending_iff_posted h h0 k, fun p => posted_raises h p⟩

end Runs

def notifyStart : NotifyState := { published := true, cell := fun _ => 0 }

/-- Channels 1 and 2 complete at once, the guest reads between their posts. -/
def twoCompletions : List NotifyStep :=
  [.call 0 1 5, .call 1 2 9, .load 1 true, .load 0 true, .store 0 true, .store 1 true, .post 0,
    .readStamps, .raiseIrq 0, .post 1]

theorem stamp_notifications_two :
    ∃ s, notifyStart.run twoCompletions = some s ∧
      (s.pending.testBit 2 = true ↔
        ∃ p : PostOf notifyStart twoCompletions 2, .readStamps ∉ p.after) ∧
      ∀ p : PostOf notifyStart twoCompletions 2,
        .raiseIrq p.thread ∈ p.after ∨ s.pc p.thread = .posted :=
  ⟨_, rfl, stamp_notifications rfl rfl 2⟩

/- The cells. -/

/-- The slot a thread is in `lagfx_advance_stamp_cell` for. -/
def CompletePc.advancing : CompletePc → Option Nat
  | .called slot _ | .loaded slot _ _ => some slot
  | _ => none

/-- No completion of `k` starts while another thread advances the cell of `k`, no read of a
cell fails, and the cell stays off the last word value. -/
structure CellRun (s₀ : NotifyState) (l : List NotifyStep) (k : Nat) : Prop where
  serialised : ∀ l₁ t stamp l₂ u, l = l₁ ++ .call t k stamp :: l₂ → s₀.run l₁ = some u →
    ∀ t', (u.pc t').advancing ≠ some k
  reads : ∀ t, .load t false ∉ l
  below : ∀ l₁ l₂ u, l = l₁ ++ l₂ → s₀.run l₁ = some u → u.cell k < 2^32-1

structure CellInv (s : NotifyState) (k : Nat) : Prop where
  alone : ∀ t t', (s.pc t).advancing = some k → (s.pc t').advancing = some k → t = t'
  fresh : ∀ t stamp cur, s.pc t = .loaded k stamp cur → cur = s.cell k
  reached : ∀ t stamp, s.pc t = .stored k stamp true → stamp ≤ s.cell k

theorem nextStamp_max {cur : Nat} (target : Nat) (h : cur < 2^32-1) :
    nextStamp cur target = max target (cur+1) := by
  unfold nextStamp u32
  dsimp only
  split_ifs <;> omega

section Cells
variable {s₀ s u : NotifyState} {l : List NotifyStep} {k : Nat}

theorem CellInv.of_idle (h : ∀ t, s.pc t = .idle) : CellInv s k where
  alone t t' ht := by simp [h, CompletePc.advancing] at ht
  fresh t stamp cur ht := by simp [h] at ht
  reached t stamp ht := by simp [h] at ht

/-- A thread that moves outside the cells of `k`. -/
theorem CellInv.setPc {t : Nat} {pc : CompletePc} (hi : CellInv s k)
    (hadv : pc.advancing = some k → (s.pc t).advancing = some k)
    (hload : ∀ stamp cur, pc = .loaded k stamp cur → cur = s.cell k)
    (hstored : ∀ stamp, pc = .stored k stamp true → stamp ≤ s.cell k) :
    CellInv (s.setPc t pc) k := by
  have hstill : ∀ c, ((s.setPc t pc).pc c).advancing = some k → (s.pc c).advancing = some k := by
    intro c hc
    rw [setPc_pc] at hc
    split at hc
    · rename_i hct
      rw [hct]
      exact hadv hc
    · exact hc
  exact {
    alone := fun a b ha hb => hi.alone a b (hstill a ha) (hstill b hb)
    fresh := fun a stamp cur ha => by
      rw [setPc_pc] at ha
      split at ha
      · exact hload stamp cur ha
      · exact hi.fresh a stamp cur ha
    reached := fun a stamp ha => by
      rw [setPc_pc] at ha
      split at ha
      · exact hstored stamp ha
      · exact hi.reached a stamp ha }

/-- The start of a completion of `k` while no thread is at its cell. -/
theorem CellInv.called {t stamp : Nat} (hi : CellInv s k)
    (hnone : ∀ t', (s.pc t').advancing ≠ some k) :
    CellInv (s.setPc t (.called k stamp)) k := by
  have honly : ∀ c, ((s.setPc t (.called k stamp)).pc c).advancing = some k → c = t := by
    intro c hc
    rw [setPc_pc] at hc
    split at hc
    · rename_i hct
      exact hct
    · exact absurd hc (hnone c)
  exact {
    alone := fun a b ha hb => (honly a ha).trans (honly b hb).symm
    fresh := fun a st cur ha => by
      rw [setPc_pc] at ha
      split at ha
      · cases ha
      · exact hi.fresh a st cur ha
    reached := fun a st ha => by
      rw [setPc_pc] at ha
      split at ha
      · cases ha
      · exact hi.reached a st ha }

/-- The write of the thread at the cell of `k`: nobody else has read it, so it advances. -/
theorem CellInv.stored {t stamp cur : Nat} (hi : CellInv s k) (hp : s.pc t = .loaded k stamp cur)
    (hlt : s.cell k < 2^32-1) :
    CellInv ((s.setCell k (nextStamp cur stamp)).setPc t (.stored k stamp true)) k ∧
      s.cell k ≤ nextStamp cur stamp := by
  obtain rfl := hi.fresh t stamp cur hp
  have hnext := nextStamp_max stamp hlt
  have hgone : ∀ c, (((s.setCell k (nextStamp (s.cell k) stamp)).setPc t
      (.stored k stamp true)).pc c).advancing ≠ some k := by
    intro c hc
    rw [setPc_pc] at hc
    split at hc
    · cases hc
    · rename_i hne
      exact hne (hi.alone c t hc (by rw [hp]; rfl))
  refine ⟨{ alone := ?_, fresh := ?_, reached := ?_ }, by omega⟩
  · intro a b ha
    exact absurd ha (hgone a)
  · intro a st cur ha
    exact absurd (congrArg CompletePc.advancing ha) (hgone a)
  · intro a st ha
    rw [setPc_cell, setCell_self, hnext]
    rw [setPc_pc] at ha
    split at ha
    · cases ha
      exact le_max_left _ _
    · have hle := hi.reached a st ha
      omega

/-- One step of any thread. -/
theorem CellInv.step {a : NotifyStep} (hi : CellInv s k) (h : s.step a = some u)
    (hcall : ∀ t stamp, a = .call t k stamp → ∀ t', (s.pc t').advancing ≠ some k)
    (hread : ∀ t, a ≠ .load t false) (hlt : s.cell k < 2^32-1) :
    CellInv u k ∧ s.cell k ≤ u.cell k := by
  cases a with
  | call t slot stamp =>
    obtain ⟨hidle, rfl⟩ := step_call h
    refine ⟨?_, le_rfl⟩
    by_cases hk : slot = k
    · subst hk
      exact hi.called (hcall t stamp rfl)
    · exact hi.setPc (by simp [CompletePc.advancing, hk]) (by simp) (by simp)
  | load t ok =>
    obtain ⟨slot, stamp, hp, ⟨-, rfl⟩ | ⟨-, rfl⟩⟩ := step_load h
    · have hok : ok = true := by
        cases ok with
        | true => rfl
        | false => exact absurd rfl (hread t)
      refine ⟨hi.setPc ?_ ?_ (by simp), le_rfl⟩
      · rw [hp]
        exact id
      · intro st cur hcur
        rw [CompletePc.loaded.injEq, if_pos hok] at hcur
        rw [← hcur.2.2, hcur.1]
    · exact ⟨hi.setPc (by simp [CompletePc.advancing]) (by simp) (by simp), le_rfl⟩
  | store t ok =>
    obtain ⟨slot, stamp, cur, hp, rfl⟩ := step_store h
    by_cases hk : slot = k ∧ ok = true
    · obtain ⟨rfl, rfl⟩ := hk
      rw [if_pos rfl, setPc_cell, setCell_self]
      exact hi.stored hp hlt
    · have hcell : (if ok then s.setCell slot (nextStamp cur stamp) else s).cell k = s.cell k := by
        cases ok with
        | false => rfl
        | true => exact setCell_other _ fun he => hk ⟨he.symm, rfl⟩
      have hpc := (written_rest (s := s) ok slot (nextStamp cur stamp)).1
      have hmoved : CellInv (if ok then s.setCell slot (nextStamp cur stamp) else s) k := by
        refine { alone := ?_, fresh := ?_, reached := ?_ }
        · rw [hpc]
          exact hi.alone
        · rw [hpc, hcell]
          exact hi.fresh
        · rw [hpc, hcell]
          exact hi.reached
      refine ⟨hmoved.setPc (by simp [CompletePc.advancing]) (by simp) ?_, ?_⟩
      · intro st hst
        rw [CompletePc.stored.injEq] at hst
        exact absurd ⟨hst.1, hst.2.2⟩ hk
      · rw [setPc_cell, hcell]
  | post t =>
    obtain ⟨slot, stamp, ok, -, rfl⟩ := step_post h
    have hmask : CellInv { s with pending := s.pending ||| 1 <<< slot } k :=
      ⟨hi.alone, hi.fresh, hi.reached⟩
    exact ⟨hmask.setPc (by simp [CompletePc.advancing]) (by simp) (by simp), le_rfl⟩
  | raiseIrq t =>
    obtain ⟨-, rfl⟩ := step_raiseIrq h
    exact ⟨hi.setPc (by simp [CompletePc.advancing]) (by simp) (by simp), le_rfl⟩
  | readStamps =>
    obtain rfl := step_readStamps h
    exact ⟨⟨hi.alone, hi.fresh, hi.reached⟩, le_rfl⟩

theorem CellRun.init {a : NotifyStep} (h : CellRun s₀ (l ++ [a]) k) : CellRun s₀ l k where
  serialised l₁ t stamp l₂ u hl hu :=
    h.serialised l₁ t stamp (l₂ ++ [a]) u ((congrArg (· ++ [a]) hl).trans (by simp)) hu
  reads t hmem := h.reads t (List.mem_append_left _ hmem)
  below l₁ l₂ u hl hu :=
    h.below l₁ (l₂ ++ [a]) u ((congrArg (· ++ [a]) hl).trans (by simp)) hu

/-- The last step of a run. -/
theorem CellRun.last {a : NotifyStep} (hc : CellRun s₀ (l ++ [a]) k) (hu : s₀.run l = some u)
    (hi : CellInv u k) (ha : u.step a = some s) : CellInv s k ∧ u.cell k ≤ s.cell k := by
  refine hi.step ha ?_ ?_ (hc.below l [a] u rfl hu)
  · intro t stamp hcall
    exact hc.serialised l t stamp [] u (by rw [hcall]) hu
  · intro t hload
    exact hc.reads t (by simp [hload])

theorem CellRun.inv (hidle : ∀ t, s₀.pc t = .idle) (hc : CellRun s₀ l k)
    (h : s₀.run l = some s) : CellInv s k := by
  induction l using List.reverseRecOn generalizing s with
  | nil =>
    obtain rfl : s₀ = s := by simpa [NotifyState.run] using h
    exact .of_idle hidle
  | append_singleton l a ih =>
    obtain ⟨u, hu, ha⟩ := notifyRun_snoc h
    exact (hc.last hu (ih hc.init hu) ha).1

theorem CellRun.mono (hidle : ∀ t, s₀.pc t = .idle) (hc : CellRun s₀ l k)
    (h : s₀.run l = some s) {l₁ l₂ : List NotifyStep} {v : NotifyState} (hl : l = l₁ ++ l₂)
    (hv : s₀.run l₁ = some v) : v.cell k ≤ s.cell k := by
  induction l using List.reverseRecOn generalizing s l₂ with
  | nil =>
    obtain ⟨rfl, -⟩ := List.append_eq_nil_iff.mp hl.symm
    rw [h, Option.some.injEq] at hv
    rw [hv]
  | append_singleton l a ih =>
    obtain ⟨u, hu, ha⟩ := notifyRun_snoc h
    cases List.eq_nil_or_concat l₂ with
    | inl hnil =>
      subst hnil
      rw [List.append_nil] at hl
      rw [← hl, h, Option.some.injEq] at hv
      rw [hv]
    | inr hcon =>
      obtain ⟨l₃, b, rfl⟩ := hcon
      rw [List.concat_eq_append, ← List.append_assoc] at hl
      obtain ⟨hl', -⟩ := List.append_inj' hl rfl
      have hstep := (hc.last hu (hc.init.inv hidle hu) ha).2
      exact (ih hc.init hu hl').trans hstep

/-- While the completions of one slot are serialised its cell only grows, and whoever reads
the bit of a completion whose cell write went through finds the cell at its stamp or beyond. -/
theorem stamp_cells (hidle : ∀ t, s₀.pc t = .idle) (hc : CellRun s₀ l k)
    (h : s₀.run l = some s) :
    (∀ l₁ l₂ v, l = l₁ ++ l₂ → s₀.run l₁ = some v → v.cell k ≤ s.cell k) ∧
      ∀ p : PostOf s₀ l k, p.ok = true → p.stamp ≤ s.cell k := by
  refine ⟨fun l₁ l₂ v hl hv => hc.mono hidle h hl hv, fun p hok => ?_⟩
  have hpre : CellRun s₀ p.before k := {
    serialised := fun l₁ t stamp l₂ u hl hu => by
      refine hc.serialised l₁ t stamp (l₂ ++ .post p.thread :: p.after) u ?_ hu
      calc l = p.before ++ .post p.thread :: p.after := p.split
        _ = (l₁ ++ .call t k stamp :: l₂) ++ .post p.thread :: p.after := by rw [← hl]
        _ = l₁ ++ .call t k stamp :: (l₂ ++ .post p.thread :: p.after) := by simp
    reads := fun t hmem => by
      refine hc.reads t ?_
      rw [p.split]
      exact List.mem_append_left _ hmem
    below := fun l₁ l₂ u hl hu => by
      refine hc.below l₁ (l₂ ++ .post p.thread :: p.after) u ?_ hu
      calc l = p.before ++ .post p.thread :: p.after := p.split
        _ = (l₁ ++ l₂) ++ .post p.thread :: p.after := by rw [← hl]
        _ = l₁ ++ (l₂ ++ .post p.thread :: p.after) := by simp }
  have hstored := p.stored
  rw [hok] at hstored
  exact ((hpre.inv hidle p.reached).reached _ _ hstored).trans
    (hc.mono hidle h p.split p.reached)

end Cells

/- Two completions of one slot at once: the second write takes the cell back. -/
example : (notifyStart.run [.call 0 1 5, .call 1 1 9, .load 0 true, .load 1 true, .store 1 true,
    .post 1, .store 0 true]).map (·.cell 1) = some 5 := by
  decide

theorem twoCompletions_cells : CellRun notifyStart twoCompletions 1 where
  serialised l₁ t stamp l₂ u hl hu := by
    cases l₁ with
    | nil =>
      obtain rfl : notifyStart = u := by simpa [NotifyState.run] using hu
      intro t' ht
      cases ht
    | cons a l₁ =>
      have htail : NotifyStep.call t 1 stamp ∈ twoCompletions.tail := by
        rw [hl]
        simp
      simp [twoCompletions] at htail
  reads t hmem := by simp [twoCompletions] at hmem
  below l₁ l₂ u hl hu := by
    have htake : l₁ = twoCompletions.take l₁.length := by simp [hl]
    have hlen : l₁.length ≤ 10 := by
      have hsum := congrArg List.length hl
      simp only [twoCompletions, List.length_append, List.length_cons, List.length_nil] at hsum
      omega
    rw [htake] at hu
    generalize l₁.length = n at hlen hu
    interval_cases n <;> (cases hu; decide)

theorem stamp_cells_two :
    ∃ s, notifyStart.run twoCompletions = some s ∧
      (∀ l₁ l₂ v, twoCompletions = l₁ ++ l₂ → notifyStart.run l₁ = some v →
        v.cell 1 ≤ s.cell 1) ∧
      ∀ p : PostOf notifyStart twoCompletions 1, p.ok = true → p.stamp ≤ s.cell 1 :=
  ⟨_, rfl, stamp_cells (fun _ => rfl) twoCompletions_cells rfl⟩

/- One completion by itself. -/

def notifyOf (s : State) : NotifyState where
  published := s.ringBasePfn ≠ 0
  cell := s.stampCell
  pending := s.pendingStampsBitmask

/-- The steps of one completion, with what the shell makes of its two transfers. -/
def completionSteps (s : State) (t slot stamp : Nat) : List NotifyStep :=
  [.call t slot stamp, .load t (s.readOk (s.stampCellAddr slot) 4)] ++
    (if s.ringBasePfn ≠ 0 then [.store t (s.writeOk (s.stampCellAddr slot) 4)] else []) ++
    [.post t, .raiseIrq t]

theorem stampCell_completed (s : State) (slot stamp : Nat) (hs : stamp < 2^32) :
    (completeStampSlot s slot stamp).stampCell =
      if s.ringBasePfn ≠ 0 ∧ s.writeOk (s.stampCellAddr slot) 4 = true then
        Function.update s.stampCell slot (nextStamp
          (if s.readOk (s.stampCellAddr slot) 4 then s.stampCell slot else 0) stamp)
      else s.stampCell := by
  funext k
  by_cases hk : k = slot
  · subst hk
    rw [stampCell_self s k stamp hs]
    split
    · rw [Function.update_self]
    · rfl
  · rw [stampCell_other s stamp hk]
    split
    · rw [Function.update_of_ne hk]
    · rfl

theorem completeStampSlot_pending (s : State) (slot stamp : Nat) :
    (completeStampSlot s slot stamp).pendingStampsBitmask =
      s.pendingStampsBitmask ||| 1 <<< slot := by
  unfold completeStampSlot advanceStampCell State.writeMemory
  dsimp only
  split_ifs <;> rfl

/-- With no other thread in between, the steps make up `completeStampSlot`. -/
theorem completionSteps_run (s : State) (t : Nat) {slot stamp : Nat} (hslot : slot < maxChannels)
    (hs : stamp < 2^32) :
    (notifyOf s).run (completionSteps s t slot stamp) =
      some (notifyOf (completeStampSlot s slot stamp)) := by
  have hlt : stamp < 4294967296 := hs
  by_cases hp : s.ringBasePfn = 0
  · simp [completionSteps, hp, NotifyState.run, step, setPc, notifyOf, hslot, hlt, hs,
      stampCell_completed, completeStampSlot_pending]
  · cases hw : s.writeOk (s.stampCellAddr slot) 4 with
    | true =>
      simp [completionSteps, hp, hw, NotifyState.run, step, setPc, setCell, notifyOf, hslot, hlt,
        hs, stampCell_completed, completeStampSlot_pending]
    | false =>
      simp [completionSteps, hp, hw, NotifyState.run, step, setPc, notifyOf, hslot, hlt, hs,
        stampCell_completed, completeStampSlot_pending]

end Lagfx
