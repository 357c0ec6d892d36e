import Lagfx.BitcodeReader
import Mathlib.Tactic.Ring

/-! Progress of the reader: which iterations take the cursor on, which loop does not, and
when the walks come to an end. -/
namespace Lagfx
open ByteMemory Bits Machine

/-- How many loops are entered inside of the root loop. -/
def Reader.level (s : Reader) : Nat :=
  (if s.module.isSome then 1 else 0)+(if s.sub.isSome then 1 else 0)

/-- No later than where the cursor is once the innermost loop is left. -/
def Reader.low (s : Reader) : Nat :=
  match s.sub with
  | none => s.pos
  | some w => min w.blk.endPos s.pos

/-- The walk of a VALUE_SYMTAB block is at the ENTER_SUBBLOCK of a sub-block. -/
def AtNestedSymtab (buf : List UInt8) (s : Reader) : Prop :=
  match s.sub with
  | some ⟨blk, .symtab _⟩ =>
    match blockNextRecord buf blk s.pos with
    | some (.subblock _, _, _) => True
    | _ => False
  | _ => False

instance (buf : List UInt8) (s : Reader) : Decidable (AtNestedSymtab buf s) := by
  unfold AtNestedSymtab
  split
  · split <;> infer_instance
  · infer_instance

/-- What an iteration does to the cursor and the loops. -/
inductive Progress (buf : List UInt8) (s t : Reader) : Prop
  | stay (hl : t.level = s.level) (hlt : s.pos < t.pos) (hlow : s.low ≤ t.low)
  | stuck (hn : AtNestedSymtab buf s) (heq : t = s)
  | enter (hl : t.level = s.level+1) (hlow : s.pos < t.low)
  | leave (hl : t.level+1 = s.level) (hlow : s.low ≤ t.low)

variable {env : ReaderEnv} {buf : List UInt8} {s t : Reader}

theorem low_le_pos (s : Reader) : s.low ≤ s.pos := by
  rw [Reader.low]
  split <;> omega

/-- Behind the loop of a sub-block. -/
theorem closeCursor_low (inner : Inner) (endPos : Nat) {pos p : Nat} (hp : Ahead buf pos p) :
    min endPos pos ≤ inner.closeCursor buf endPos p ∧
      inner.closeCursor buf endPos p ≤ max pos (8*buf.length+31) := by
  obtain ⟨h₁, h₂⟩ := hp
  have hseek : min endPos pos ≤ seekCursor buf endPos p ∧
      seekCursor buf endPos p ≤ max pos (8*buf.length+31) := by
    rw [seekCursor, bsSeek]
    split_ifs
    · exact ⟨by simp only [Option.getD_none]; omega, by simp only [Option.getD_none]; omega⟩
    · exact ⟨by simp only [Option.getD_some]; omega, by simp only [Option.getD_some]; omega⟩
  cases inner with
  | blockinfo target => exact ⟨by simp only [Inner.closeCursor]; omega, h₂⟩
  | _ => exact hseek

theorem subStep_progress {w : SubWalk} (hw : s.sub = some w)
    (h : subStep env buf s w = .inl t) :
    Progress buf s t ∧ t.pos ≤ max s.pos (8*buf.length+31) := by
  obtain ⟨blk, inner⟩ := w
  have hlow : s.low = min blk.endPos s.pos := by rw [Reader.low, hw]
  have leave : ∀ (m : AirModule) (p : Nat) (i : Inner), Ahead buf s.pos p →
      Progress buf s ⟨i.close m, i.closeCursor buf blk.endPos p, s.module, none⟩ ∧
        i.closeCursor buf blk.endPos p ≤ max s.pos (8*buf.length+31) := by
    intro m p i hp
    obtain ⟨h₁, h₂⟩ := closeCursor_low i blk.endPos hp
    refine ⟨.leave ?_ ?_, h₂⟩
    · simp [Reader.level, hw]
    · rw [hlow]
      exact h₁
  have stay : ∀ (m : AirModule) (p : Nat) (blk' : BsBlock) (i : Inner),
      blk'.endPos = blk.endPos → s.pos < p → Ahead buf s.pos p →
      Progress buf s ⟨m, p, s.module, some ⟨blk', i⟩⟩ ∧ p ≤ max s.pos (8*buf.length+31) := by
    intro m p blk' i hend hlt hp
    refine ⟨.stay ?_ hlt ?_, hp.2⟩
    · simp [Reader.level, hw]
    · rw [hlow, Reader.low]
      simp only [hend]
      omega
  simp only [subStep] at h
  split_ifs at h with hin
  · cases h
    exact leave _ _ _ (.refl ..)
  · cases hnext : blockNextRecord buf blk s.pos with
    | none =>
      simp only [hnext] at h
      cases h
      exact leave _ _ _ (nextRecordStop_ahead ..)
    | some next =>
      obtain ⟨ev, blk', p⟩ := next
      have htakes := nextRecord_takes (by omega) hnext
      simp only [hnext] at h
      cases htakes with
      | sub id hcode =>
        cases h
        cases inner with
        | symtab walk =>
          refine ⟨.stuck (by simp only [AtNestedSymtab, hw, hnext]) ?_, by simp [Inner.subblock]⟩
          obtain ⟨m, pos, module, sub⟩ := s
          cases hw
          rfl
        | _ => exact stay _ _ _ _ rfl (skipCursor_takes hcode).1 (skipCursor_takes hcode).2
      | item hev hend hlt hp =>
        cases ev with
        | stop => cases h; exact leave _ _ _ hp
        | subblock id => exact absurd rfl (hev id)
        | define => cases h; exact stay _ _ _ _ hend hlt hp
        | record r =>
          simp only at h
          cases hr : inner.record env s.m r with
          | go m i => rw [hr] at h; cases h; exact stay _ _ _ _ hend hlt hp
          | leave m i => rw [hr] at h; cases h; exact leave _ _ _ hp
          | oom => rw [hr] at h; cases h

theorem moduleStep_progress {w : ModuleWalk} (hsub : s.sub = none) (hw : s.module = some w)
    (h : moduleStep env buf s w = .inl t) :
    Progress buf s t ∧ t.pos ≤ max s.pos (8*buf.length+31) := by
  have hlow : s.low = s.pos := by rw [Reader.low, hsub]
  have hlevel : s.level = 1 := by simp [Reader.level, hsub, hw]
  have leave : ∀ p, Ahead buf s.pos p →
      Progress buf s ⟨s.m, p, none, none⟩ ∧ p ≤ max s.pos (8*buf.length+31) := by
    intro p hp
    refine ⟨.leave (by rw [hlevel]; rfl) ?_, hp.2⟩
    rw [hlow]
    exact hp.1
  have stay : ∀ (m : AirModule) (p : Nat) (w' : ModuleWalk), s.pos < p → Ahead buf s.pos p →
      Progress buf s ⟨m, p, some w', none⟩ ∧ p ≤ max s.pos (8*buf.length+31) := by
    intro m p w' hlt hp
    refine ⟨.stay (by rw [hlevel]; rfl) hlt ?_, hp.2⟩
    rw [hlow]
    exact hp.1
  have bail : ∀ (w : ModuleWalk) (p : Nat), Ahead buf s.pos p → bailModule s.m w p = .inl t →
      Progress buf s t ∧ t.pos ≤ max s.pos (8*buf.length+31) := by
    intro w p hp hb
    rw [bailModule] at hb
    split_ifs at hb
    cases hb
    exact leave p hp
  simp only [moduleStep] at h
  by_cases hin : w.blk.endPos ≤ s.pos
  · rw [if_pos hin] at h
    cases h
    exact leave _ (.refl ..)
  · rw [if_neg hin] at h
    cases hnext : blockNextRecord buf w.blk s.pos with
    | none =>
      rw [hnext] at h
      exact bail _ _ (nextRecordStop_ahead ..) h
    | some next =>
      obtain ⟨ev, blk', p⟩ := next
      have htakes := nextRecord_takes (by omega) hnext
      rw [hnext] at h
      cases htakes with
      | sub id hcode =>
        simp only at h
        by_cases hwalked : id ∈ walkedBlocks
        · rw [if_pos hwalked, enterSub] at h
          cases henter : blockEnter buf w.blk.abbrevWidth
              (if id = 0 then none else some s.m.blockinfo) s.pos with
          | none =>
            simp only [henter] at h
            exact bail _ _ (enterStop_ahead ..) h
          | some entered =>
            obtain ⟨sub, first⟩ := entered
            obtain ⟨hlt, hp, hend⟩ := blockEnter_takes henter
            simp only [henter] at h
            cases ho : openInner env s.m id with
            | none => rw [ho] at h; cases h
            | some opened =>
              rw [ho] at h
              cases h
              refine ⟨.enter (by rw [hlevel]; rfl) ?_, hp.2⟩
              simp only [Reader.low]
              omega
        · rw [if_neg hwalked, skipSub] at h
          cases hskip : blockSkip buf w.blk.abbrevWidth s.pos with
          | none =>
            simp only [hskip] at h
            exact bail _ _ (enterStop_ahead ..) h
          | some stop =>
            simp only [hskip] at h
            cases h
            exact stay _ _ _ (blockSkip_takes hskip).1 (blockSkip_takes hskip).2
      | item hev hend hlt hp =>
        cases ev with
        | stop => cases h; exact leave _ hp
        | subblock id => exact absurd rfl (hev id)
        | define => cases h; exact stay _ _ _ hlt hp
        | record r =>
          simp only at h
          cases hr : moduleRecord env s.m r with
          | none => rw [hr] at h; cases h
          | some m => rw [hr] at h; cases h; exact stay _ _ _ hlt hp

theorem rootStep_progress (hsub : s.sub = none) (hw : s.module = none)
    (h : rootStep buf s = .inl t) :
    Progress buf s t ∧ t.pos ≤ max s.pos (8*buf.length+31) := by
  have hlow : s.low = s.pos := by rw [Reader.low, hsub]
  have hlevel : s.level = 0 := by simp [Reader.level, hsub, hw]
  simp only [rootStep] at h
  split_ifs at h with hin
  cases hread : readBits buf rootAbbrevWidth s.pos with
  | none => rw [hread] at h; cases h
  | some vp =>
    simp only [hread] at h
    split_ifs at h with hcode
    cases henter : blockEnter buf rootAbbrevWidth none s.pos with
    | none => rw [henter] at h; cases h
    | some entered =>
      obtain ⟨blk, first⟩ := entered
      obtain ⟨hlt, hp, hend⟩ := blockEnter_takes henter
      simp only [henter] at h
      split_ifs at h with hstrtab hmodule
      · cases h
        refine ⟨.enter (by rw [hlevel]; rfl) ?_, hp.2⟩
        simp only [Reader.low]
        omega
      · cases h
        exact ⟨.enter (by rw [hlevel]; rfl) hlt, hp.2⟩
      · cases hseek : bsSeek buf blk.endPos with
        | none => rw [hseek] at h; cases h
        | some p =>
          rw [hseek] at h
          cases h
          obtain ⟨hp', hle⟩ := bsSeek_some hseek
          have hgo : s.pos < p := by omega
          refine ⟨.stay (by rw [hlevel]; rfl) hgo ?_, ?_⟩
          · rw [hlow]
            exact Nat.le_of_lt hgo
          · simp only
            omega

theorem readerStep_progress (h : readerStep env buf s = .inl t) :
    Progress buf s t ∧ t.pos ≤ max s.pos (8*buf.length+31) := by
  rw [readerStep] at h
  cases hsub : s.sub with
  | some w => rw [hsub] at h; exact subStep_progress hsub h
  | none =>
    rw [hsub] at h
    cases hmod : s.module with
    | some w => rw [hmod] at h; exact moduleStep_progress hsub hmod h
    | none => rw [hmod] at h; exact rootStep_progress hsub hmod h

theorem Progress.low_le (h : Progress buf s t) : s.low ≤ t.low := by
  cases h with
  | stay hl hlt hlow => exact hlow
  | stuck hn heq => rw [heq]
  | enter hl hlow => exact Nat.le_trans (low_le_pos s) (Nat.le_of_lt hlow)
  | leave hl hlow => exact hlow

theorem reaches_low {c : Nat} (hc : c ≤ s.low) (h : Reaches (readerStep env buf) s t) :
    c ≤ t.low :=
  h.inv (I := fun u => c ≤ u.low)
    (fun _ _ hu hst => Nat.le_trans hu (readerStep_progress hst).1.low_le) hc

/-- From a loop head to the next head of the same loop: every loop entered in between is
left again. -/
def Iterates (env : ReaderEnv) (buf : List UInt8) (s t : Reader) : Prop :=
  ∃ n, run (readerStep env buf) (n+1) s = .inl t ∧ t.level = s.level ∧
    ∀ k, 0 < k → k ≤ n → ∃ u, run (readerStep env buf) k s = .inl u ∧ s.level < u.level

theorem Iterates.advances (h : Iterates env buf s t) (hn : ¬ AtNestedSymtab buf s) :
    s.pos < t.pos := by
  obtain ⟨n, hrun, hlevel, hin⟩ := h
  cases hstep : readerStep env buf s with
  | inr r => rw [run_succ_inr hstep] at hrun; cases hrun
  | inl u =>
    rw [run_succ_inl hstep] at hrun
    have hp := (readerStep_progress hstep).1
    cases n with
    | zero =>
      cases hrun
      cases hp with
      | stay hl hlt hlow => exact hlt
      | stuck hs heq => exact absurd hs hn
      | enter hl hlow => omega
      | leave hl hlow => omega
    | succ n =>
      obtain ⟨u', hu', hdeep⟩ := hin 1 (by omega) (by omega)
      rw [run_succ_inl hstep] at hu'
      cases hu'
      cases hp with
      | stay hl hlt hlow => omega
      | stuck hs heq => exact absurd hs hn
      | leave hl hlow => omega
      | enter hl hlow =>
        have hlow' : u.low ≤ t.low := reaches_low (Nat.le_refl _) ⟨n+1, hrun⟩
        have htop := low_le_pos t
        omega

/- What is left of a run: the outermost cursor counts most, then the loops that are still
   to be left, then the cursor itself. -/
def Reader.left (top : Nat) (s : Reader) : Nat :=
  (4*(top-s.low)+s.level)*(top+1)+(top-s.pos)

theorem left_lt {top a b c d : Nat} (h : a < b) (hc : c ≤ top) :
    a*(top+1)+c < b*(top+1)+d := by
  have hmul : (a+1)*(top+1) ≤ b*(top+1) := Nat.mul_le_mul_right _ h
  have hsplit : (a+1)*(top+1) = a*(top+1)+(top+1) := by ring
  omega

theorem Progress.left_lt {top : Nat} (h : Progress buf s t) (hn : ¬ AtNestedSymtab buf s)
    (ht : t.pos ≤ top) : t.left top < s.left top := by
  have hsl := low_le_pos s
  have htl := low_le_pos t
  rw [Reader.left, Reader.left]
  cases h with
  | stay hl hlt hlow =>
    have hmul : (4*(top-t.low)+t.level)*(top+1) ≤ (4*(top-s.low)+s.level)*(top+1) :=
      Nat.mul_le_mul_right _ (by omega)
    omega
  | stuck hs heq => exact absurd hs hn
  | enter hl hlow => exact Lagfx.left_lt (by omega) (by omega)
  | leave hl hlow => exact Lagfx.left_lt (by omega) (by omega)

/-- The walks come to an end unless a VALUE_SYMTAB walk meets a sub-block. -/
theorem walks_return (s : Reader)
    (h : ∀ t, Reaches (readerStep env buf) s t → ¬ AtNestedSymtab buf t) :
    ∃ r, Returns (readerStep env buf) s r := by
  let top := max s.pos (8*buf.length+31)
  let Inv : Reader → Prop := fun t => t.pos ≤ top ∧ Reaches (readerStep env buf) s t
  refine returns_of_measure (I := Inv) (Reader.left top) ?_ ⟨by omega, reaches_refl s⟩
  intro u v hu hstep
  have hprog := readerStep_progress hstep
  have hv : v.pos ≤ top := by
    have hle := hprog.2
    have hu₁ := hu.1
    omega
  exact ⟨⟨hv, hu.2.trans (reaches_step hstep)⟩, hprog.1.left_lt (h u hu.2) hv⟩

/-- There it stays: the cursor is where it was and the loop goes on. -/
theorem readerStep_stuck (h : AtNestedSymtab buf s) : readerStep env buf s = .inl s := by
  obtain ⟨m, pos, module, sub⟩ := s
  cases sub with
  | none => exact h.elim
  | some w =>
    obtain ⟨blk, inner⟩ := w
    cases inner with
    | symtab walk =>
      simp only [AtNestedSymtab] at h
      split at h
      · rename_i id blk' pos' hnext
        by_cases hend : blk.endPos ≤ pos
        · rw [blockNextRecord, if_pos hend] at hnext
          cases hnext
        · cases nextRecord_takes (by omega) hnext with
          | sub id hcode => simp only [readerStep, subStep, if_neg hend, hnext, Inner.subblock]
          | item hev => exact absurd rfl (hev id)
      · exact h.elim
    | _ => exact h.elim

theorem not_returns_of_nested {t : Reader} (h : Reaches (readerStep env buf) s t)
    (hn : AtNestedSymtab buf t) (r : Walked) : ¬ Returns (readerStep env buf) s r :=
  not_returns_of_fixed h (readerStep_stuck hn) r

theorem opens_iff_returns {blob : List UInt8} {m : AirModule} (hb : parseWrapper blob = some buf)
    (hm : initModule env buf = some m) :
    (∃ r, Opens env blob r) ↔ ∃ r, Returns (readerStep env buf) (.start m) r := by
  have hne : blob ≠ [] := by
    intro hnil
    rw [hnil] at hb
    cases hb
  constructor
  · rintro ⟨r, fuel, hr⟩
    simp only [airModuleOpen, if_neg hne, hb, hm] at hr
    cases hrun : run (readerStep env buf) fuel (.start m) with
    | inl t => rw [hrun] at hr; cases hr
    | inr w => exact ⟨w, fuel, hrun⟩
  · rintro ⟨w, fuel, hrun⟩
    cases w with
    | finished m' =>
      exact ⟨finishOpen env m', fuel, by simp only [airModuleOpen, if_neg hne, hb, hm, hrun]⟩
    | error st =>
      exact ⟨.error st, fuel, by simp only [airModuleOpen, if_neg hne, hb, hm, hrun]⟩

/-- `s` is a loop head that the walks of the blob come to. -/
def Visits (env : ReaderEnv) (blob buf : List UInt8) (s : Reader) : Prop :=
  parseWrapper blob = some buf ∧
    ∃ m, initModule env buf = some m ∧ Reaches (readerStep env buf) (.start m) s

/-- `lagfx_air_module_open` returns, and every iteration of every loop it makes takes the
cursor on, if and only if no VALUE_SYMTAB walk comes to a sub-block. -/
theorem module_open_terminates_iff (env : ReaderEnv) (blob : List UInt8) :
    ((∃ r, Opens env blob r) ∧
      ∀ buf s t, Visits env blob buf s → Iterates env buf s t → s.pos < t.pos) ↔
    ∀ buf s, Visits env blob buf s → ¬ AtNestedSymtab buf s := by
  constructor
  · rintro ⟨hopens, -⟩ buf s ⟨hb, m, hm, hs⟩ hn
    obtain ⟨r, hr⟩ := (opens_iff_returns hb hm).1 hopens
    exact not_returns_of_nested hs hn r hr
  · intro h
    refine ⟨?_, fun buf s t hs hst => hst.advances (h buf s hs)⟩
    by_cases hne : blob = []
    · exact ⟨.error .invalidArg, 0, by rw [airModuleOpen, if_pos hne]⟩
    · cases hb : parseWrapper blob with
      | none => exact ⟨.error .protocol, 0, by simp only [airModuleOpen, if_neg hne, hb]⟩
      | some buf =>
        cases hm : initModule env buf with
        | none =>
          exact ⟨.error .outOfMemory, 0, by simp only [airModuleOpen, if_neg hne, hb, hm]⟩
        | some m =>
          rw [opens_iff_returns hb hm]
          exact walks_return _ fun t ht => h buf t ⟨hb, m, hm, ht⟩

/-- The walks of the blob come to a nested VALUE_SYMTAB block in `n` iterations. -/
def nestedAfter (env : ReaderEnv) (blob : List UInt8) (n : Nat) : Bool :=
  match parseWrapper blob with
  | none => false
  | some buf =>
    match initModule env buf with
    | none => false
    | some m =>
      match run (readerStep env buf) n (.start m) with
      | .inl s => decide (AtNestedSymtab buf s)
      | .inr _ => false

theorem not_opens_of_nestedAfter {blob : List UInt8} {n : Nat}
    (h : nestedAfter env blob n = true) : ¬ ∃ r, Opens env blob r := by
  rw [nestedAfter] at h
  cases hb : parseWrapper blob with
  | none => simp [hb] at h
  | some buf =>
    cases hm : initModule env buf with
    | none => simp [hb, hm] at h
    | some m =>
      cases hrun : run (readerStep env buf) n (.start m) with
      | inr r => simp [hb, hm, hrun] at h
      | inl s =>
        simp only [hb, hm, hrun, decide_eq_true_eq] at h
        rw [opens_iff_returns hb hm]
        rintro ⟨r, hr⟩
        exact not_returns_of_nested ⟨n, hrun⟩ h r hr

/- A wrapped bitstream of one MODULE block with one VALUE_SYMTAB block, which has one
   sub-block of id 18; every block ends with its END_BLOCK. -/
def nestedSymtabBlob : List UInt8 :=
  [0xDE, 0xC0, 0x17, 0x0B, 0, 0, 0, 0, 20, 0, 0, 0, 40, 0, 0, 0, 255, 255, 255, 255,
   0x42, 0x43, 0xC0, 0xDE,
   0x21, 0x0C, 0, 0, 7, 0, 0, 0,
   0x71, 0x18, 0, 0, 4, 0, 0, 0,
   0x91, 0x18, 0, 0, 1, 0, 0, 0,
   0, 0, 0, 0, 0, 0, 0, 0, 0, 0, 0, 0]

/-- The reader does not return from it. -/
theorem nested_symtab_never_returns : ¬ ∃ r, Opens allGranted nestedSymtabBlob r :=
  not_opens_of_nestedAfter (n := 2) (by decide +kernel)

end Lagfx
