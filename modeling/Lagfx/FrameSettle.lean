import Lagfx.FramePresent

/-! When the shell gets a frame. The words newFrameReady, lastSignalNs and
settleHoldStartNs are a debounced latch, so that a read is refused exactly when no frame
is due, or the draw stream goes on and no refusal is older than the longest hold. -/
namespace Lagfx.Present
open Debounce

/-- A read keeps the target, the scanout and the time of the last signal. -/
structure ReadKeeps (d d' : FrameDisplay) : Prop where
  display : d'.toDisplay = d.toDisplay
  rt : d'.rt = d.rt
  signal : d'.lastSignalNs = d.lastSignalNs

theorem serveTarget_keeps (cfg : FrameConfig) (d : FrameDisplay) (dst : Option (List UInt8))
    (gpu : GpuStatus) (image : Nat → UInt8) : ReadKeeps d (serveTarget cfg d dst gpu image).1 := by
  unfold serveTarget
  split
  · exact ⟨rfl, rfl, rfl⟩
  · cases dst with
    | none => exact ⟨rfl, rfl, rfl⟩
    | some buf =>
      simp only
      split <;> exact ⟨rfl, rfl, rfl⟩

theorem serveFrame_keeps (cfg : FrameConfig) (d : FrameDisplay) (dst : Option (List UInt8))
    (gpu : GpuStatus) (image : Nat → UInt8) : ReadKeeps d (serveFrame cfg d dst gpu image).1 := by
  have h := serveTarget_keeps cfg d dst gpu image
  unfold serveFrame
  cases d.fallback with
  | none => exact h
  | some fb =>
    cases dst with
    | none => exact h
    | some buf =>
      simp only
      split
      · exact h
      · exact ⟨rfl, rfl, rfl⟩

theorem readFrame_keeps (cfg : FrameConfig) (d : FrameDisplay) (now : Nat)
    (dst : Option (List UInt8)) (gpu : GpuStatus) (image : Nat → UInt8) :
    ReadKeeps d (displayReadFrame cfg d now dst gpu image).1 := by
  simp only [displayReadFrame]
  split
  · exact ⟨rfl, rfl, rfl⟩
  · split
    · exact ⟨rfl, rfl, rfl⟩
    · have h := serveFrame_keeps cfg { d with settleHoldStartNs := (settle cfg d now).2 }
        dst gpu image
      exact ⟨h.display, h.rt, h.signal⟩

/-- What a submit can do: announce, and leave pixels for a display without a scanout. -/
theorem submit_cases (cfg : FrameConfig) (d : FrameDisplay) (gpa len : Nat)
    (alloc : Option (Nat → UInt8)) (gpu : GpuStatus) (image : Nat → UInt8) :
    let r := displaySubmitRendered cfg d gpa len alloc gpu image
    (r.2.announced = false ∧ r.1 = d) ∨
      (r.2.announced = true ∧ ∃ fb, r.1 = { d with fallback := fb, newFrameReady := true } ∧
        (d.rt.image = false → fb = d.fallback)) := by
  simp only [displaySubmitRendered]
  split
  · unfold submitFallback
    cases cfg.frameImage with
    | none => exact .inl ⟨rfl, rfl⟩
    | some m =>
      simp only
      split
      · exact .inl ⟨rfl, rfl⟩
      · cases alloc with
        | none => exact .inl ⟨rfl, rfl⟩
        | some heap =>
          simp only
          split
          · exact .inl ⟨rfl, rfl⟩
          · rename_i hok
            refine .inr ⟨rfl, ?_⟩
            have himage : d.rt.image = true := by
              by_contra hc
              rw [Bool.not_eq_true] at hc
              simp [renderTargetReadback, hc] at hok
            cases cfg.readMemory with
            | true => exact ⟨_, rfl, fun hc => absurd himage (by simp [hc])⟩
            | false => exact ⟨_, rfl, fun _ => rfl⟩
  · unfold submitScanout
    cases cfg.frameImage with
    | none => exact .inl ⟨rfl, rfl⟩
    | some m =>
      simp only
      split
      · exact .inl ⟨rfl, rfl⟩
      · split
        · exact .inl ⟨rfl, rfl⟩
        · exact .inr ⟨rfl, d.fallback, rfl, fun _ => rfl⟩

theorem submitClear_cases (cfg : FrameConfig) (d : FrameDisplay) (gpu : GpuStatus) :
    let r := submitClearColor cfg d gpu
    (r.2.announced = false ∧ r.1 = d) ∨
      (r.2.announced = true ∧ r.1 = { d with newFrameReady := true }) := by
  simp only [submitClearColor]
  split
  · exact .inr ⟨rfl, rfl⟩
  · split
    · exact .inl ⟨rfl, rfl⟩
    · exact .inr ⟨rfl, rfl⟩

theorem swap_cases (cfg : FrameConfig) (index : Nat) (d : FrameDisplay) (now : Nat)
    (hdr : CmdHeader) :
    let r := swapMapping cfg index d now hdr
    let disp := mapScanout index d.toDisplay hdr
    (r.2.announced = false ∧ r.1 = { d with toDisplay := disp }) ∨
      (r.2.announced = true ∧
        r.1 = { d with toDisplay := disp, newFrameReady := true, lastSignalNs := now }) := by
  simp only [swapMapping, mapScanout]
  cases swapScanout index hdr with
  | none => exact .inl ⟨rfl, rfl⟩
  | some m =>
    cases cfg.frameOnSwap with
    | true => exact .inr ⟨rfl, rfl⟩
    | false => exact .inl ⟨rfl, rfl⟩

/-- The quiet a frame waits for, in nanoseconds. -/
def FrameConfig.quietNs (cfg : FrameConfig) : Nat :=
  if cfg.disableSettle then 0 else cfg.settleMs*1000000

/-- The longest hold. -/
def FrameConfig.holdNs (cfg : FrameConfig) : Nat := 8*cfg.quietNs

/- A read takes the frame when it has room for one. What the other calls did to the latch
   shows in whether frame_ready was called, and a signal carries the time. -/
def FrameEntry.latch? (x : FrameEntry) : Option Entry :=
  match x.event.call with
  | .readFrame dst _ _ => some (.asked x.event.now dst.isSome (decide (x.reply.status ≠ .noFrame)))
  | .signalFrameReady | .swapMapping _ =>
    if x.reply.announced then some (.pulsed x.event.now) else none
  | .submitClearColor _ | .submitRendered .. => if x.reply.announced then some .raised else none

def latchLog (past : List FrameEntry) : List Entry := past.filterMap FrameEntry.latch?

/-- No frame is due, or draws were signalled less than `quietNs` ago and every refusal
since the last read let through is younger than `holdNs`. -/
def Unsettled (cfg : FrameConfig) (past : List FrameEntry) (now : Nat) : Prop :=
  Refused cfg.quietNs cfg.holdNs (latchLog past) now

def stamp? (ns : Nat) : Option Nat := if ns = 0 then none else some ns

/-- The latch that the three words are. -/
def FrameDisplay.latch (d : FrameDisplay) : Latch where
  raised := d.newFrameReady
  pulsed := stamp? d.lastSignalNs
  heldSince := stamp? d.settleHoldStartNs

theorem stamp?_pos {t : Nat} (h : 0 < t) : stamp? t = some t := if_neg (by omega)

theorem stamp?_getD (ns t : Nat) : (stamp? ns).getD t = if ns = 0 then t else ns := by
  rw [stamp?]
  split <;> rfl

theorem elapsed_of_le {now since : Nat} (h : since ≤ now) (hnow : now < 2^64) :
    elapsed now since = now-since := by
  rw [elapsed, u64]
  omega

theorem latchLog_cons (x : FrameEntry) (past : List FrameEntry) :
    latchLog (x :: past) = x.latch?.toList++latchLog past := by
  rw [latchLog, List.filterMap_cons]
  cases x.latch? <;> rfl

/-- What every call of a run on a display with a target keeps. -/
structure Follows (cfg : FrameConfig) (d : FrameDisplay) (past : List FrameEntry) : Prop where
  vk : cfg.vk = true
  ready : d.rtReady = true
  image : d.rt.image = true
  unheld : cfg.disableSettle = true ∨ d.lastSignalNs = 0 → d.settleHoldStartNs = 0
  tracks : Latched (latchLog past) d.latch

section Settling
variable {cfg : FrameConfig} {d : FrameDisplay} {past : List FrameEntry} {now : Nat}

/-- The stamps of the display are times of its past. -/
theorem Follows.signal_le (h : Follows cfg d past) (hb : Before (latchLog past) now) :
    d.lastSignalNs ≤ now := by
  by_cases h0 : d.lastSignalNs = 0
  · omega
  · have hp : stamp? d.lastSignalNs = _ := h.tracks.pulsed
    rw [stamp?_pos (by omega)] at hp
    exact hb _ ((pulses_sublist _).subset (List.mem_of_head? hp.symm))

theorem Follows.hold_le (h : Follows cfg d past) (hb : Before (latchLog past) now) :
    d.settleHoldStartNs ≤ now := by
  by_cases h0 : d.settleHoldStartNs = 0
  · omega
  · have hp : stamp? d.settleHoldStartNs = _ := h.tracks.held
    rw [stamp?_pos (by omega)] at hp
    exact hb _ ((waits_sublist _).subset (List.mem_of_getLast? hp.symm))

/-- The two tests of the gate, where it is on. -/
theorem latch_holds_iff (hon : cfg.disableSettle = false) (hsig : d.lastSignalNs ≠ 0)
    (hle : d.lastSignalNs ≤ now)
    (hstart : (if d.settleHoldStartNs = 0 then now else d.settleHoldStartNs) ≤ now) :
    d.latch.holds cfg.quietNs cfg.holdNs now = true ↔
      now-d.lastSignalNs < cfg.settleMs*1000000 ∧
        now-(if d.settleHoldStartNs = 0 then now else d.settleHoldStartNs) <
          cfg.settleMs*8*1000000 := by
  have hq : cfg.quietNs = cfg.settleMs*1000000 := by simp [FrameConfig.quietNs, hon]
  simp only [Latch.holds, Latch.busy, FrameDisplay.latch, stamp?_getD, FrameConfig.holdNs, hq,
    stamp?_pos (Nat.pos_of_ne_zero hsig), Bool.and_eq_true, decide_eq_true_iff]
  omega

/-- Where it is off there is no draw to wait for, or no time to wait. -/
theorem latch_idle (hoff : cfg.disableSettle = true ∨ d.lastSignalNs = 0)
    (hle : d.lastSignalNs ≤ now) : d.latch.busy cfg.quietNs now = false := by
  rw [Latch.busy, FrameDisplay.latch]
  by_cases h0 : d.lastSignalNs = 0
  · rw [h0]
    rfl
  · have hq : cfg.quietNs = 0 := by simp [FrameConfig.quietNs, hoff.resolve_right h0]
    rw [stamp?_pos (Nat.pos_of_ne_zero h0), hq]
    exact decide_eq_false (by omega)

/-- The settle gate is the hold of the latch. -/
theorem Follows.settle_eq (h : Follows cfg d past) (hb : Before (latchLog past) now)
    (hsettle : cfg.settleMs*8*1000000 < 2^64) (hnow : now < 2^64) :
    settle cfg d now =
      if d.latch.holds cfg.quietNs cfg.holdNs now then
        (true, if d.settleHoldStartNs = 0 then now else d.settleHoldStartNs)
      else (false, 0) := by
  have hsig := h.signal_le hb
  have hst := h.hold_le hb
  rw [settle]
  by_cases hon : cfg.disableSettle = false ∧ d.rtReady = true ∧ d.lastSignalNs ≠ 0
  · have hstart : (if d.settleHoldStartNs = 0 then now else d.settleHoldStartNs) ≤ now := by
      split <;> omega
    have hholds := latch_holds_iff hon.1 hon.2.2 hsig hstart
    have hle : cfg.settleMs ≤ cfg.settleMs*8 := Nat.le_mul_of_pos_right _ (by decide)
    have hlt : cfg.settleMs*1000000 < 2^64 :=
      (Nat.mul_le_mul_right 1000000 hle).trans_lt hsettle
    have hquiet : u64 (cfg.settleMs*1000000) = cfg.settleMs*1000000 := Nat.mod_eq_of_lt hlt
    have hhold : u64 (cfg.settleMs*8*1000000) = cfg.settleMs*8*1000000 := Nat.mod_eq_of_lt hsettle
    rw [if_pos hon]
    dsimp only
    rw [elapsed_of_le hsig hnow, elapsed_of_le hstart hnow, hquiet, hhold]
    by_cases hheld : d.latch.holds cfg.quietNs cfg.holdNs now = true
    · rw [if_pos hheld, if_pos (hholds.1 hheld).1, if_pos (hholds.1 hheld).2]
    · rw [if_neg hheld]
      split
      · rename_i hbusy
        exact if_neg fun hlt => hheld (hholds.2 ⟨hbusy, hlt⟩)
      · rfl
  · have hoff : cfg.disableSettle = true ∨ d.lastSignalNs = 0 := by
      by_contra hc
      rw [not_or, Bool.not_eq_true] at hc
      exact hon ⟨hc.1, h.ready, hc.2⟩
    rw [if_neg hon, Latch.holds, latch_idle hoff hsig, h.unheld hoff]
    rfl

theorem readback_status (rt : RenderTarget) (dst : List UInt8) (gpu : GpuStatus)
    (image : Nat → UInt8) : (renderTargetReadback rt dst gpu image).1 ≠ .noFrame := by
  rw [renderTargetReadback]
  split
  · simp
  · split
    · simp
    · cases gpu <;> simp [GpuStatus.status]

/-- The pixels kept for a display without a target are no business of one that has it. -/
theorem serveFrame_ready (hready : d.rtReady = true) (dst : Option (List UInt8)) (gpu : GpuStatus)
    (image : Nat → UInt8) : serveFrame cfg d dst gpu image = serveTarget cfg d dst gpu image := by
  unfold serveFrame
  cases d.fallback with
  | none => rfl
  | some fb =>
    cases dst with
    | none => rfl
    | some buf => exact if_pos hready

/-- Past the latch a display with a target answers, and takes what there is room for. -/
theorem serve_ready (hready : d.rtReady = true) (hvk : cfg.vk = true) (dst : Option (List UInt8))
    (gpu : GpuStatus) (image : Nat → UInt8) :
    let r := serveFrame cfg d dst gpu image
    r.2.status ≠ .noFrame ∧ r.1.newFrameReady = (d.newFrameReady && !dst.isSome) ∧
      r.1.settleHoldStartNs = d.settleHoldStartNs := by
  simp only [serveFrame_ready hready]
  unfold serveTarget
  rw [if_neg (by simp [hready, hvk])]
  cases dst with
  | none => simp
  | some buf =>
    have hst := readback_status d.rt buf gpu image
    simp only
    split
    · exact ⟨hst, by simp, rfl⟩
    · simp

theorem read_idle (hup : d.newFrameReady = false) (dst : Option (List UInt8)) (gpu : GpuStatus)
    (image : Nat → UInt8) :
    displayReadFrame cfg d now dst gpu image = (d, { status := .noFrame, dst := dst }) :=
  if_pos hup

theorem read_held {n : Nat} (hup : d.newFrameReady = true) (hs : settle cfg d now = (true, n))
    (dst : Option (List UInt8)) (gpu : GpuStatus) (image : Nat → UInt8) :
    displayReadFrame cfg d now dst gpu image =
      ({ d with settleHoldStartNs := n }, { status := .noFrame, dst := dst }) := by
  simp [displayReadFrame, hup, hs]

theorem read_served {n : Nat} (hup : d.newFrameReady = true) (hs : settle cfg d now = (false, n))
    (dst : Option (List UInt8)) (gpu : GpuStatus) (image : Nat → UInt8) :
    displayReadFrame cfg d now dst gpu image =
      serveFrame cfg { d with settleHoldStartNs := n } dst gpu image := by
  simp [displayReadFrame, hup, hs]

/-- A read asks the latch. -/
theorem Follows.asked (h : Follows cfg d past) (hb : Before (latchLog past) now)
    (hsettle : cfg.settleMs*8*1000000 < 2^64) (hpos : 0 < now) (hnow : now < 2^64)
    (dst : Option (List UInt8)) (gpu : GpuStatus) (image : Nat → UInt8) :
    let r := displayReadFrame cfg d now dst gpu image
    r.1.latch = d.latch.asked cfg.quietNs cfg.holdNs now dst.isSome ∧
      decide (r.2.status ≠ .noFrame) = d.latch.opens cfg.quietNs cfg.holdNs now := by
  have hs := h.settle_eq hb hsettle hnow
  cases hup : d.newFrameReady with
  | false =>
    have hraised : d.latch.raised = false := hup
    rw [read_idle hup, Latch.asked, Latch.opens, if_pos hraised, hraised]
    exact ⟨rfl, rfl⟩
  | true =>
    have hraised : ¬d.latch.raised = false := by simp [FrameDisplay.latch, hup]
    rw [Latch.asked, Latch.opens, if_neg hraised, (Bool.not_eq_false _).mp hraised]
    cases hheld : d.latch.holds cfg.quietNs cfg.holdNs now with
    | true =>
      rw [hheld, if_pos rfl] at hs
      have hst : stamp? (if d.settleHoldStartNs = 0 then now else d.settleHoldStartNs) =
          some ((stamp? d.settleHoldStartNs).getD now) := by
        rw [stamp?_getD, stamp?_pos]
        split <;> omega
      rw [read_held hup hs]
      simp [FrameDisplay.latch, hst, hup]
    | false =>
      rw [hheld, if_neg (by decide)] at hs
      have hserve := serve_ready (d := { d with settleHoldStartNs := 0 }) h.ready h.vk dst gpu image
      have hk := serveFrame_keeps cfg { d with settleHoldStartNs := 0 } dst gpu image
      rw [read_served hup hs]
      refine ⟨?_, by simpa using hserve.1⟩
      rw [FrameDisplay.latch, hserve.2.1, hserve.2.2, hk.signal, hup]
      rfl

theorem Follows.unheld_read (h : Follows cfg d past) (dst : Option (List UInt8)) (gpu : GpuStatus)
    (image : Nat → UInt8) (hoff : cfg.disableSettle = true ∨ d.lastSignalNs = 0) :
    (displayReadFrame cfg d now dst gpu image).1.settleHoldStartNs = 0 := by
  have h0 := h.unheld hoff
  have hs : settle cfg d now = (false, 0) := by
    rw [settle, if_neg, h0]
    intro hc
    rcases hoff with hdis | hsig
    · rw [hdis] at hc
      cases hc.1
    · exact hc.2.2 hsig
  cases hup : d.newFrameReady with
  | false =>
    rw [read_idle hup]
    exact h0
  | true =>
    rw [read_served hup hs]
    exact (serve_ready (d := { d with settleHoldStartNs := 0 }) h.ready h.vk dst gpu image).2.2

/-- An announcement without a stamp. -/
theorem Follows.raise (h : Follows cfg d past) {fb : Option FallbackPixels} {x : FrameEntry}
    (hx : x.latch? = some .raised) :
    Follows cfg { d with fallback := fb, newFrameReady := true } (x :: past) := by
  refine ⟨h.vk, h.ready, h.image, h.unheld, ?_⟩
  rw [latchLog_cons, hx]
  exact h.tracks.step cfg.quietNs cfg.holdNs .raise (by simp [Latch.step, Entry.time?])

theorem Follows.pulse (h : Follows cfg d past) (hb : Before (latchLog past) now) (hpos : 0 < now)
    {disp : Display} (hdisp : disp.rtReady = true) {x : FrameEntry}
    (hx : x.latch? = some (.pulsed now)) :
    Follows cfg { d with toDisplay := disp, newFrameReady := true, lastSignalNs := now }
      (x :: past) := by
  refine ⟨h.vk, hdisp, h.image, fun hoff => h.unheld (hoff.imp_right fun h0 => ?_), ?_⟩
  · simp only at h0
    omega
  · have ht := h.tracks.step cfg.quietNs cfg.holdNs (.pulse now)
      (by simpa [Latch.step, Entry.time?] using hb)
    rw [latchLog_cons, hx]
    simpa [Latch.step, FrameDisplay.latch, stamp?_pos hpos] using ht

/-- A call that announces nothing leaves no trace. -/
theorem Follows.silent (h : Follows cfg d past) {disp : Display} (hdisp : disp.rtReady = true)
    {x : FrameEntry} (hx : x.latch? = none) :
    Follows cfg { d with toDisplay := disp } (x :: past) := by
  refine ⟨h.vk, hdisp, h.image, h.unheld, ?_⟩
  rw [latchLog_cons, hx]
  exact h.tracks

theorem mapScanout_rtReady (index : Nat) (disp : Display) (hdr : CmdHeader) :
    (mapScanout index disp hdr).rtReady = disp.rtReady := by
  rw [mapScanout]
  cases swapScanout index hdr <;> rfl

/-- The step lemma: every call keeps the words and the past together. -/
theorem Follows.step (h : Follows cfg d past) (index : Nat) (e : FrameEvent)
    (hb : Before (latchLog past) e.now) (hsettle : cfg.settleMs*8*1000000 < 2^64)
    (hpos : 0 < e.now) (hnow : e.now < 2^64) :
    Follows cfg (frameStep cfg index d e).1 (⟨e, (frameStep cfg index d e).2⟩ :: past) := by
  obtain ⟨now, call⟩ := e
  cases call with
  | signalFrameReady => exact h.pulse hb hpos h.ready rfl
  | submitClearColor gpu =>
    rcases submitClear_cases cfg d gpu with ⟨ha, hd⟩ | ⟨ha, hd⟩
    · simp only [frameStep, hd]
      exact h.silent h.ready (by simp [FrameEntry.latch?, ha])
    · simp only [frameStep, hd]
      exact h.raise (by simp [FrameEntry.latch?, ha])
  | submitRendered gpa len alloc gpu image =>
    rcases submit_cases cfg d gpa len alloc gpu image with ⟨ha, hd⟩ | ⟨ha, fb, hd, _⟩
    · simp only [frameStep, hd]
      exact h.silent h.ready (by simp [FrameEntry.latch?, ha])
    · simp only [frameStep, hd]
      exact h.raise (by simp [FrameEntry.latch?, ha])
  | swapMapping hdr =>
    have hready := (mapScanout_rtReady index d.toDisplay hdr).trans h.ready
    rcases swap_cases cfg index d now hdr with ⟨ha, hd⟩ | ⟨ha, hd⟩
    · simp only [frameStep, hd]
      exact h.silent hready (by simp [FrameEntry.latch?, ha])
    · simp only [frameStep, hd]
      exact h.pulse hb hpos hready (by simp [FrameEntry.latch?, ha])
  | readFrame dst gpu image =>
    have hasked := h.asked hb hsettle hpos hnow dst gpu image
    have hk := readFrame_keeps cfg d now dst gpu image
    refine ⟨h.vk, ?_, ?_, ?_, ?_⟩
    · rw [frameStep, hk.display]
      exact h.ready
    · rw [frameStep, hk.rt]
      exact h.image
    · intro hoff
      rw [frameStep, hk.signal] at hoff
      exact h.unheld_read dst gpu image hoff
    · have ht := h.tracks.step cfg.quietNs cfg.holdNs (.ask now dst.isSome)
        (by simpa [Latch.step, Entry.time?] using hb)
      simp only [Latch.step, ← hasked.1, ← hasked.2] at ht
      rw [latchLog_cons]
      exact ht

theorem latch_time {x : FrameEntry} {y : Entry} {t : Nat} (hx : x.latch? = some y)
    (ht : y.time? = some t) : t = x.event.now := by
  rw [FrameEntry.latch?] at hx
  split at hx
  · cases hx
    cases ht
    rfl
  all_goals
    split at hx
    all_goals
      cases hx
    all_goals
      cases ht
    all_goals
      rfl

theorem before_of_le (hle : ∀ x ∈ past, x.event.now ≤ now) : Before (latchLog past) now := by
  intro s hs
  obtain ⟨y, hy, hys⟩ := List.mem_filterMap.1 hs
  obtain ⟨x, hx, hxy⟩ := List.mem_filterMap.1 hy
  rw [latch_time hxy hys]
  exact hle x hx

theorem foldl_events (cfg : FrameConfig) (index : Nat) (es : List FrameEvent) :
    ∀ (d : FrameDisplay) (past : List FrameEntry),
      (es.foldl (frameAdvance cfg index) (d, past)).2.map FrameEntry.event =
        es.reverse++past.map FrameEntry.event := by
  induction es with
  | nil => exact fun _ _ => rfl
  | cons e es ih =>
    intro d past
    rw [List.foldl_cons, frameAdvance, ih, List.reverse_cons, List.append_assoc]
    rfl

/-- The run lemma: whatever was called, in the order of the clock. -/
theorem Follows.run (index : Nat) (hsettle : cfg.settleMs*8*1000000 < 2^64)
    (es : List FrameEvent) :
    ∀ {d : FrameDisplay} {past : List FrameEntry}, Follows cfg d past →
      Clocked es → (∀ x ∈ past, ∀ e ∈ es, x.event.now ≤ e.now) →
      Follows cfg (es.foldl (frameAdvance cfg index) (d, past)).1
        (es.foldl (frameAdvance cfg index) (d, past)).2 := by
  induction es with
  | nil => exact fun h _ _ => h
  | cons e es ih =>
    intro d past h hclock hlate
    have hnow := hclock.2 e List.mem_cons_self
    have horder := List.pairwise_cons.1 hclock.1
    have hb := before_of_le fun x hx => hlate x hx e List.mem_cons_self
    have hstep := h.step index e hb hsettle hnow.1 hnow.2
    rw [List.foldl_cons]
    apply ih hstep ⟨horder.2, fun e' he' => hclock.2 e' (List.mem_cons_of_mem _ he')⟩
    intro x hx e' he'
    rcases List.mem_cons.1 hx with rfl | hx
    · exact horder.1 _ (List.mem_map_of_mem he')
    · exact hlate x hx e' (List.mem_cons_of_mem _ he')

/-- With room for the frame and a readback that succeeds, a read let through is served. -/
theorem Follows.read_ok (h : Follows cfg d past) (hb : Before (latchLog past) now)
    (hsettle : cfg.settleMs*8*1000000 < 2^64) (hnow : now < 2^64)
    (hopen : d.latch.opens cfg.quietNs cfg.holdNs now = true) {buf : List UInt8}
    (hroom : d.rt.need ≤ buf.length) (image : Nat → UInt8) :
    let r := displayReadFrame cfg d now (some buf) .success image
    r.2.status = .ok ∧ r.2.newFrame = true := by
  have hup : d.newFrameReady = true ∧ d.latch.holds cfg.quietNs cfg.holdNs now = false := by
    simpa [Latch.opens, FrameDisplay.latch] using hopen
  have hs := h.settle_eq hb hsettle hnow
  rw [hup.2, if_neg (by decide)] at hs
  have hread : renderTargetReadback d.rt buf .success image =
      (.ok, d.rt.stride, (List.range d.rt.need).map image++buf.drop d.rt.need) := by
    rw [renderTargetReadback, if_neg (by simp [h.image]), if_neg (by omega), if_neg (by simp)]
  have hready : ({ d with settleHoldStartNs := 0 } : FrameDisplay).rtReady = true := h.ready
  simp only [read_served hup.1 hs]
  rw [serveFrame_ready hready]
  unfold serveTarget
  rw [if_neg (by simp [h.ready, h.vk])]
  simp [hread]

end Settling

theorem follows_new {cfg : FrameConfig} {modes : List (Nat × Nat)} {created : Bool}
    (hready : (displayNew cfg modes created).rtReady = true) :
    Follows cfg (displayNew cfg modes created) [] := by
  simp only [displayNew, displayRtCreate] at hready ⊢
  split
  · rename_i hvk
    rw [if_pos hvk] at hready
    cases hready
  · rename_i hvk
    rw [if_neg hvk] at hready
    split
    · exact ⟨(Bool.not_eq_false _).mp hvk, rfl, rfl, fun _ => rfl, latched_nil⟩
    · rename_i hnone
      rw [if_neg hnone] at hready
      cases hready

/-- In every run a read is refused exactly when no frame announced is left to take, or the
draws go on and every refusal since the last read let through is younger than the longest
hold. A read let through gets the frame, where there is room and the readback succeeds. -/
theorem readFrame_refused_iff {cfg : FrameConfig} {index : Nat} {modes : List (Nat × Nat)}
    {created : Bool} {es : List FrameEvent} {now : Nat} {dst : Option (List UInt8)}
    {gpu : GpuStatus} {image : Nat → UInt8} (hsettle : cfg.settleMs*8*1000000 < 2^64)
    (hready : (displayNew cfg modes created).rtReady = true)
    (hclock : Clocked (es++[⟨now, .readFrame dst gpu image⟩])) :
    let s := frameRun cfg index modes created es
    let reply := (displayReadFrame cfg s.1 now dst gpu image).2
    (reply.status = .noFrame ↔ Unsettled cfg s.2 now) ∧
      (¬Unsettled cfg s.2 now → gpu = .success → ∀ buf, dst = some buf →
        s.1.rt.need ≤ buf.length → reply.status = .ok ∧ reply.newFrame = true) := by
  have horder := List.pairwise_append.1 (List.map_append ▸ hclock.1)
  have hnow := hclock.2 _ (List.mem_append_right es List.mem_cons_self)
  have hF : Follows cfg (frameRun cfg index modes created es).1
      (frameRun cfg index modes created es).2 := (follows_new hready).run index hsettle es
    ⟨horder.1, fun e he => hclock.2 e (List.mem_append_left _ he)⟩ (by simp)
  have hb : Before (latchLog (frameRun cfg index modes created es).2) now := by
    apply before_of_le
    intro x hx
    have he : x.event ∈ es := by
      have hmem := List.mem_map_of_mem (f := FrameEntry.event) hx
      rw [frameRun, foldl_events] at hmem
      simpa using hmem
    exact horder.2.2 _ (List.mem_map_of_mem he) now (by simp)
  have hle : cfg.quietNs ≤ cfg.holdNs := Nat.le_mul_of_pos_left _ (by decide)
  have hasked := (hF.asked hb hsettle hnow.1 hnow.2 dst gpu image).2
  have hiff := hF.tracks.opens_iff hle hb
  constructor
  · rw [Unsettled, ← hiff, ← hasked, decide_eq_false_iff_not, not_not]
  · intro hlet hgpu buf hdst hroom
    have hopen := (Bool.not_eq_false _).mp fun hc => hlet (hiff.1 hc)
    rw [hgpu, hdst]
    exact hF.read_ok hb hsettle hnow.2 hopen hroom image

/-- Draws in quick succession, with a display tick between them. -/
def burst : List FrameEvent :=
  [⟨1000000, .signalFrameReady⟩, ⟨2000000, .readFrame (some []) .success fun _ => 0⟩,
    ⟨3000000, .signalFrameReady⟩]

def room : List UInt8 := List.replicate 8 0

theorem burst_readFrame :
    let s := frameRun {} 0 [(2, 1)] true burst
    let reply := (displayReadFrame {} s.1 300000000 (some room) .success fun i => i.toUInt8).2
    (reply.status = .noFrame ↔ Unsettled {} s.2 300000000) ∧
      (¬Unsettled {} s.2 300000000 → GpuStatus.success = .success →
        ∀ buf, some room = some buf → s.1.rt.need ≤ buf.length →
          reply.status = .ok ∧ reply.newFrame = true) :=
  @readFrame_refused_iff {} 0 [(2, 1)] true burst 300000000 (some room) .success
    (fun i => i.toUInt8) (by decide) rfl ⟨by simp [burst], by simp [burst]⟩

end Lagfx.Present
