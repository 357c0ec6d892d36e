import Lagfx.FrameSettle

/-! What the shell gets when it gets a frame: the image of the render target inside the
scanout the guest mapped last, black beyond it, never the pixels kept for a display that
has no target. -/
namespace Lagfx.Present

theorem blank_length (fb : List UInt8) (off len : Nat) (h : off+len ≤ fb.length) :
    (blank fb off len).length = fb.length := by
  simp only [blank, List.length_append, List.length_take, List.length_replicate, List.length_drop]
  omega

theorem blank_getElem? (fb : List UInt8) {off len : Nat} (h : off+len ≤ fb.length) (i : Nat) :
    (blank fb off len)[i]? = if off ≤ i ∧ i < off+len then some 0 else fb[i]? := by
  have hoff : (fb.take off).length = off := by
    rw [List.length_take]
    omega
  rw [blank]
  by_cases h1 : i < off
  · rw [List.getElem?_append_left (by omega), List.getElem?_take_of_lt h1, if_neg (by omega)]
  · rw [List.getElem?_append_right (by omega), hoff]
    by_cases h2 : i < off+len
    · rw [List.getElem?_append_left (by simp; omega), if_pos ⟨by omega, h2⟩]
      exact List.getElem?_replicate_of_lt (by omega)
    · rw [List.getElem?_append_right (by simp; omega), List.getElem?_drop, if_neg (by omega)]
      congr 1
      simp only [List.length_replicate]
      omega

section Crop
variable (rt : RenderTarget) (gw gh : Nat)

/-- The `k`-th byte of row `y` of the target. -/
def RenderTarget.at (y k : Nat) : Nat := y*rt.stride+k

/-- A byte of the row that is beyond the scanout. -/
def Gutter (y k : Nat) : Prop := gh ≤ y ∨ gw*4 ≤ k

instance (y k : Nat) : Decidable (Gutter gw gh y k) := inferInstanceAs (Decidable (_ ∨ _))

variable {rt}

theorem at_lt {y z k j : Nat} (hy : y < z) (hk : k < rt.stride) : rt.at y k < rt.at z j := by
  have h := Nat.mul_le_mul_right rt.stride (show y+1 ≤ z from hy)
  rw [Nat.add_mul, Nat.one_mul] at h
  simp only [RenderTarget.at]
  omega

theorem at_lt_need {y k : Nat} (hy : y < rt.height) (hk : k < rt.stride) : rt.at y k < rt.need := by
  have h := at_lt (j := 0) hy hk
  rw [RenderTarget.need, Nat.mul_comm]
  exact h

theorem at_row {y y' k : Nat} (hk : k < rt.stride) :
    (rt.at y 0 ≤ rt.at y' k ∧ rt.at y' k < rt.at y rt.stride) ↔ y' = y := by
  constructor
  · intro ⟨h1, h2⟩
    rcases Nat.lt_trichotomy y' y with h | h | h
    · have hlt := at_lt (j := 0) h hk
      omega
    · exact h
    · have hlt := at_lt (j := k) h (show 0 < rt.stride by omega)
      have hmul := Nat.mul_le_mul_right rt.stride (show y+1 ≤ y' from h)
      rw [Nat.add_mul, Nat.one_mul] at hmul
      simp only [RenderTarget.at] at h2
      omega
  · rintro rfl
    simp only [RenderTarget.at]
    omega

/-- One row is cropped and the others are left alone. -/
theorem cropRow_spec {fb : List UInt8} {y : Nat} (hy : rt.at y rt.stride ≤ fb.length) :
    (cropRow rt gw gh y fb).length = fb.length ∧
      ∀ i, (cropRow rt gw gh y fb)[i]? =
        if rt.at y 0 ≤ i ∧ i < rt.at y rt.stride ∧ Gutter gw gh y (i-rt.at y 0) then some 0
        else fb[i]? := by
  simp only [RenderTarget.at, Nat.add_zero, RenderTarget.stride] at hy ⊢
  rw [cropRow]
  by_cases hgh : gh ≤ y
  · have hlen : y*rt.stride+rt.width*4 ≤ fb.length := hy
    rw [if_pos hgh]
    refine ⟨blank_length fb _ _ hlen, fun i => ?_⟩
    rw [blank_getElem? fb hlen]
    congr 1
    simp [Gutter, hgh, RenderTarget.stride]
  · rw [if_neg hgh]
    by_cases hgw : gw < rt.width
    · have hlen : y*rt.stride+gw*4+(rt.width-gw)*4 ≤ fb.length := by
        simp only [RenderTarget.stride]
        omega
      rw [if_pos hgw]
      refine ⟨blank_length fb _ _ hlen, fun i => ?_⟩
      rw [blank_getElem? fb hlen]
      congr 1
      simp only [Gutter, hgh, RenderTarget.stride, false_or, eq_iff_iff]
      omega
    · rw [if_neg hgw]
      refine ⟨rfl, fun i => (if_neg ?_).symm⟩
      simp only [Gutter, hgh, false_or]
      omega

/-- The rows from `y` to `y+n` are cropped. The loop is never left early: a row of the
target is all in a buffer that the readback accepted. -/
theorem gutterCrop_spec (n : Nat) : ∀ (y : Nat) (fb : List UInt8),
    rt.at (y+n) 0 ≤ fb.length →
      (gutterCrop rt gw gh n y fb).length = fb.length ∧
        (∀ i, rt.at (y+n) 0 ≤ i → (gutterCrop rt gw gh n y fb)[i]? = fb[i]?) ∧
        ∀ y' k, k < rt.stride → (gutterCrop rt gw gh n y fb)[rt.at y' k]? =
          if y ≤ y' ∧ y' < y+n ∧ Gutter gw gh y' k then some 0 else fb[rt.at y' k]? := by
  induction n with
  | zero =>
    intro y fb _
    refine ⟨rfl, fun _ _ => rfl, fun y' k _ => (if_neg ?_).symm⟩
    omega
  | succ n ih =>
    intro y fb hfit
    have hrow : rt.at y rt.stride ≤ rt.at (y+(n+1)) 0 := by
      have hmul := Nat.mul_le_mul_right rt.stride (show y+1 ≤ y+(n+1) by omega)
      rw [Nat.add_mul, Nat.one_mul] at hmul
      simpa [RenderTarget.at] using hmul
    have hy := cropRow_spec gw gh (hrow.trans hfit)
    have hnext := ih (y+1) (cropRow rt gw gh y fb) (by
      rw [hy.1, show y+1+n = y+(n+1) by omega]
      exact hfit)
    have hstay : ¬fb.length < y*rt.stride+rt.width*4 := by
      have := hrow.trans hfit
      simp only [RenderTarget.at, RenderTarget.stride] at this ⊢
      omega
    rw [gutterCrop, if_neg hstay]
    rw [show y+1+n = y+(n+1) by omega] at hnext
    refine ⟨hnext.1.trans hy.1, fun i hi => ?_, fun y' k hk => ?_⟩
    · rw [hnext.2.1 i hi, hy.2, if_neg (by omega)]
    · rw [hnext.2.2 y' k hk, hy.2]
      by_cases hyy : y' = y
      · have hcol : rt.at y k-rt.at y 0 = k := by simp [RenderTarget.at]
        have hin := (at_row hk).2 hyy
        rw [hyy] at hin ⊢
        rw [if_neg (by omega), hcol]
        congr 1
        simp only [hin.1, hin.2, true_and, eq_iff_iff]
        constructor
        · exact fun hg => ⟨Nat.le_refl y, by omega, hg⟩
        · exact fun hg => hg.2.2
      · have hout : ¬(rt.at y 0 ≤ rt.at y' k ∧ rt.at y' k < rt.at y rt.stride ∧
            Gutter gw gh y (rt.at y' k-rt.at y 0)) :=
          fun hc => hyy ((at_row hk).1 ⟨hc.1, hc.2.1⟩)
        rw [if_neg hout]
        congr 1
        simp only [eq_iff_iff]
        apply and_congr_left
        intro _
        omega

end Crop

/-- The size of the scanout that a call maps to display `index`. -/
def FrameEntry.scanout? (index : Nat) (x : FrameEntry) : Option (Nat × Nat) :=
  match x.event.call with
  | .swapMapping hdr => swapScanout index hdr
  | _ => none

/-- The size the guest gave its scanout last. -/
def lastScanout (index : Nat) (past : List FrameEntry) : Option (Nat × Nat) :=
  past.findSome? (FrameEntry.scanout? index)

/-- A pixel is shown when it is inside the scanout; a scanout of no size hides nothing. -/
def Shown (cfg : FrameConfig) : Option (Nat × Nat) → Nat → Nat → Prop
  | none, _, _ => True
  | some (w, h), x, y => cfg.disableGutterCrop = true ∨ w = 0 ∨ h = 0 ∨ (x < w ∧ y < h)

instance (cfg : FrameConfig) (m : Option (Nat × Nat)) (x y : Nat) : Decidable (Shown cfg m x y) :=
  match m with
  | none => isTrue trivial
  | some (w, h) => inferInstanceAs (Decidable (_ ∨ w = 0 ∨ h = 0 ∨ (x < w ∧ y < h)))

/-- What every call keeps, with a target or without. -/
structure Kept (index : Nat) (rt : RenderTarget) (d : FrameDisplay) (past : List FrameEntry) :
    Prop where
  target : d.rt = rt
  ready : d.rtReady = rt.image
  unkept : rt.image = false → d.fallback = none
  unmapped : lastScanout index past = none → d.scanoutValid = false
  mapped : ∀ m, lastScanout index past = some m →
    d.scanoutValid = true ∧ d.scanoutWidth = m.1 ∧ d.scanoutHeight = m.2

theorem serve_unkept {cfg : FrameConfig} {d : FrameDisplay} (h : d.fallback = none)
    (dst : Option (List UInt8)) (gpu : GpuStatus) (image : Nat → UInt8) :
    serveFrame cfg d dst gpu image = serveTarget cfg d dst gpu image ∧
      (serveTarget cfg d dst gpu image).1.fallback = none := by
  constructor
  · unfold serveFrame
    rw [h]
  · unfold serveTarget
    split
    · exact h
    · cases dst with
      | none => exact h
      | some buf =>
        simp only
        split <;> exact h

theorem read_unkept {cfg : FrameConfig} {d : FrameDisplay} (h : d.fallback = none) (now : Nat)
    (dst : Option (List UInt8)) (gpu : GpuStatus) (image : Nat → UInt8) :
    (displayReadFrame cfg d now dst gpu image).1.fallback = none := by
  simp only [displayReadFrame]
  split
  · exact h
  · split
    · exact h
    · have hfb : ({ d with settleHoldStartNs := (settle cfg d now).2 } : FrameDisplay).fallback =
        none := h
      have hs := @serve_unkept cfg _ hfb dst gpu image
      rw [hs.1]
      exact hs.2

/-- The handler on the table of displays, seen from one display of it. -/
theorem displaySwapMapping_display {w : World} {d : FrameDisplay} {index : Nat}
    (hi : index < maxDisplays) (hd : w.displays index = some d.toDisplay) (cfg : FrameConfig)
    (now : Nat) (hdr : CmdHeader) :
    (displaySwapMapping w hdr).displays index =
      some (swapMapping cfg index d now hdr).1.toDisplay := by
  have hswap : (swapMapping cfg index d now hdr).1.toDisplay =
      mapScanout index d.toDisplay hdr := by
    rcases swap_cases cfg index d now hdr with ⟨_, hd⟩ | ⟨_, hd⟩
    · rw [hd]
    · rw [hd]
  rw [hswap, mapScanout, displaySwapMapping]
  by_cases hshort : hdr.payloadSize < 40
  · have hs : swapScanout index hdr = none := if_pos (Or.inl hshort)
    rw [hs, if_pos hshort]
    exact hd
  · rw [if_neg hshort]
    by_cases hid : hdr.word 0 = index
    · have hs : swapScanout index hdr = some (hdr.word 16, hdr.word 20) :=
        if_neg (not_or.2 ⟨hshort, not_not.2 hid⟩)
      rw [hs, hid]
      simp only [if_pos hi, hd, Function.update_self]
      rfl
    · have hs : swapScanout index hdr = none := if_pos (Or.inr hid)
      rw [hs]
      simp only
      split
      · cases hw : w.displays (hdr.word 0) with
        | none => exact hd
        | some disp => exact (Function.update_of_ne (Ne.symm hid) _ _).trans hd
      · exact hd

section Keeping
variable {cfg : FrameConfig} {index : Nat} {rt : RenderTarget} {d : FrameDisplay}
  {past : List FrameEntry}

theorem lastScanout_cons (x : FrameEntry) (hx : x.scanout? index = none) :
    lastScanout index (x :: past) = lastScanout index past := by
  rw [lastScanout, List.findSome?_cons, hx]
  rfl

/-- A call that is no swap mapping. -/
theorem Kept.other (h : Kept index rt d past) {d' : FrameDisplay} {x : FrameEntry}
    (hdisp : d'.toDisplay = d.toDisplay) (hrt : d'.rt = d.rt)
    (hfb : rt.image = false → d'.fallback = none) (hx : x.scanout? index = none) :
    Kept index rt d' (x :: past) := by
  refine ⟨hrt.trans h.target, ?_, hfb, ?_, ?_⟩
  · rw [hdisp]
    exact h.ready
  · rw [lastScanout_cons x hx, hdisp]
    exact h.unmapped
  · rw [lastScanout_cons x hx, hdisp]
    exact h.mapped

theorem Kept.swap (h : Kept index rt d past) {d' : FrameDisplay} {now : Nat} {hdr : CmdHeader}
    {reply : FrameReply}
    (hdisp : d'.toDisplay = mapScanout index d.toDisplay hdr)
    (hrt : d'.rt = d.rt) (hfb : d'.fallback = d.fallback) :
    Kept index rt d' (⟨⟨now, .swapMapping hdr⟩, reply⟩ :: past) := by
  have hx : (⟨⟨now, .swapMapping hdr⟩, reply⟩ : FrameEntry).scanout? index =
      swapScanout index hdr := rfl
  rw [mapScanout] at hdisp
  cases hm : swapScanout index hdr with
  | none =>
    rw [hm] at hx hdisp
    exact h.other hdisp hrt (fun hi => hfb.trans (h.unkept hi)) hx
  | some m =>
    rw [hm] at hx hdisp
    have hlast : lastScanout index (⟨⟨now, .swapMapping hdr⟩, reply⟩ :: past) = some m := by
      rw [lastScanout, List.findSome?_cons, hx]
    refine ⟨hrt.trans h.target, ?_, fun hi => hfb.trans (h.unkept hi), ?_, ?_⟩
    · rw [hdisp]
      exact h.ready
    · intro hnone
      rw [hlast] at hnone
      cases hnone
    · intro m' hm'
      rw [hlast] at hm'
      cases hm'
      rw [hdisp]
      exact ⟨rfl, rfl, rfl⟩

theorem Kept.step (h : Kept index rt d past) (e : FrameEvent) :
    Kept index rt (frameStep cfg index d e).1 (⟨e, (frameStep cfg index d e).2⟩ :: past) := by
  obtain ⟨now, call⟩ := e
  cases call with
  | signalFrameReady => exact h.other rfl rfl h.unkept rfl
  | submitClearColor gpu =>
    rcases submitClear_cases cfg d gpu with ⟨_, hd⟩ | ⟨_, hd⟩
    · simp only [frameStep, hd]
      exact h.other rfl rfl h.unkept rfl
    · simp only [frameStep, hd]
      exact h.other rfl rfl h.unkept rfl
  | submitRendered gpa len alloc gpu image =>
    rcases submit_cases cfg d gpa len alloc gpu image with ⟨_, hd⟩ | ⟨_, fb, hd, hfb⟩
    · simp only [frameStep, hd]
      exact h.other rfl rfl h.unkept rfl
    · simp only [frameStep, hd]
      exact h.other rfl rfl (fun hi => (hfb (h.target ▸ hi)).trans (h.unkept hi)) rfl
  | swapMapping hdr =>
    rcases swap_cases cfg index d now hdr with ⟨_, hd⟩ | ⟨_, hd⟩
    · simp only [frameStep, hd]
      exact h.swap rfl rfl rfl
    · simp only [frameStep, hd]
      exact h.swap rfl rfl rfl
  | readFrame dst gpu image =>
    have hk := readFrame_keeps cfg d now dst gpu image
    exact h.other hk.display hk.rt (fun hi => read_unkept (h.unkept hi) now dst gpu image) rfl

theorem Kept.run (es : List FrameEvent) : ∀ {d : FrameDisplay} {past : List FrameEntry},
    Kept index rt d past → Kept index rt (es.foldl (frameAdvance cfg index) (d, past)).1
      (es.foldl (frameAdvance cfg index) (d, past)).2 := by
  induction es with
  | nil => exact fun h => h
  | cons e es ih =>
    intro d past h
    exact ih (h.step e)

end Keeping

/-- Before the first call. -/
theorem kept_start {index : Nat} {rt : RenderTarget} {d : FrameDisplay} (hrt : d.rt = rt)
    (hready : d.rtReady = rt.image) (hfb : d.fallback = none) (hvalid : d.scanoutValid = false) :
    Kept index rt d [] := by
  refine ⟨hrt, hready, fun _ => hfb, fun _ => hvalid, ?_⟩
  intro m hm
  cases hm

theorem kept_new (cfg : FrameConfig) (index : Nat) (modes : List (Nat × Nat)) (created : Bool) :
    Kept index (displayNew cfg modes created).rt (displayNew cfg modes created) [] := by
  simp only [displayNew, displayRtCreate]
  split
  · exact kept_start rfl rfl rfl rfl
  · split
    · exact kept_start rfl rfl rfl rfl
    · exact kept_start rfl rfl rfl rfl

/-- A target, where there is one, has the size of the display's mode. -/
theorem displayNew_mode (cfg : FrameConfig) (modes : List (Nat × Nat)) (created : Bool) :
    (displayNew cfg modes created).rt.image = true →
      (displayNew cfg modes created).rt =
        ⟨true, (displayMode modes).1, (displayMode modes).2⟩ := by
  simp only [displayNew, displayRtCreate]
  split
  · intro h
    cases h
  · split
    · exact fun _ => rfl
    · intro h
      cases h

section Serving
variable {cfg : FrameConfig} {d : FrameDisplay} {dst : Option (List UInt8)} {gpu : GpuStatus}
  {image : Nat → UInt8}

/-- What the readback leaves in the buffer. -/
def imageIn (rt : RenderTarget) (image : Nat → UInt8) (buf : List UInt8) : List UInt8 :=
  (List.range rt.need).map image++buf.drop rt.need

theorem imageIn_spec (image : Nat → UInt8) {rt : RenderTarget} {buf : List UInt8}
    (hfit : rt.need ≤ buf.length) :
    (imageIn rt image buf).length = buf.length ∧
      (∀ i, i < rt.need → (imageIn rt image buf)[i]? = some (image i)) ∧
      ∀ i, rt.need ≤ i → (imageIn rt image buf)[i]? = buf[i]? := by
  have hlen : ((List.range rt.need).map image).length = rt.need := by simp
  refine ⟨?_, fun i hi => ?_, fun i hi => ?_⟩
  · rw [imageIn, List.length_append, hlen, List.length_drop]
    omega
  · rw [imageIn, List.getElem?_append_left (by omega)]
    simp [hi]
  · rw [imageIn, List.getElem?_append_right (by omega), hlen, List.getElem?_drop]
    congr 1
    omega

theorem readback_ok {rt : RenderTarget} {buf : List UInt8}
    (h : (renderTargetReadback rt buf gpu image).1 = .ok) :
    rt.image = true ∧ rt.need ≤ buf.length ∧
      renderTargetReadback rt buf gpu image = (.ok, rt.stride, imageIn rt image buf) := by
  rw [renderTargetReadback] at h ⊢
  by_cases himage : rt.image = false
  · rw [if_pos himage] at h
    cases h
  · by_cases hfit : buf.length < rt.need
    · rw [if_neg himage, if_pos hfit] at h
      cases h
    · rw [if_neg himage, if_neg hfit] at h ⊢
      cases gpu with
      | success => exact ⟨(Bool.not_eq_false _).mp himage, by omega, rfl⟩
      | vulkanInit => cases h
      | backend => cases h

/-- The reply of a read that is served from the target. -/
theorem serveTarget_ok (h : (serveTarget cfg d dst gpu image).2.status = .ok) :
    ∃ buf, dst = some buf ∧ d.rt.image = true ∧ d.rt.need ≤ buf.length ∧
      (serveTarget cfg d dst gpu image).2 =
        { status := .ok
          stride := d.rt.stride
          newFrame := true
          dst := some (if cropsGutter cfg d d.rt.stride then
              gutterCrop d.rt d.scanoutWidth d.scanoutHeight d.rt.height 0 (imageIn d.rt image buf)
            else imageIn d.rt image buf) } := by
  by_cases hnone : d.rtReady = false ∨ cfg.vk = false
  · rw [serveTarget.eq_def, if_pos hnone] at h
    cases h
  · cases dst with
    | none =>
      rw [serveTarget.eq_def, if_neg hnone] at h
      cases h
    | some buf =>
      rw [serveTarget.eq_def, if_neg hnone] at h ⊢
      simp only at h ⊢
      by_cases hr : (renderTargetReadback d.rt buf gpu image).1 = .ok
      · have hok := readback_ok hr
        refine ⟨buf, rfl, hok.1, hok.2.1, ?_⟩
        rw [if_neg (not_not.2 hr), hok.2.2]
      · rw [if_pos hr] at h
        exact absurd h hr

/-- Where rows are cropped, the pixels shown are those out of the gutter. -/
theorem shown_iff_of_crops {m : Option (Nat × Nat)} (hcrops : cropsGutter cfg d d.rt.stride = true)
    (hnone : m = none → d.scanoutValid = false)
    (hsome : ∀ k, m = some k →
      d.scanoutValid = true ∧ d.scanoutWidth = k.1 ∧ d.scanoutHeight = k.2)
    (y x : Nat) {c : Nat} (hc : c < 4) :
    Shown cfg m x y ↔ ¬Gutter d.scanoutWidth d.scanoutHeight y (x*4+c) := by
  have hon := of_decide_eq_true hcrops
  cases m with
  | none =>
    rw [hnone rfl] at hon
    cases hon.2.1
  | some m =>
    have hm := hsome m rfl
    simp only [Shown, Gutter, ← hm.2.1, ← hm.2.2, hon.1, Bool.false_eq_true, false_or]
    omega

/-- Where none is cropped, all of a target that has pixels is shown. -/
theorem shown_of_whole {m : Option (Nat × Nat)} (hwhole : cropsGutter cfg d d.rt.stride = false)
    (hsome : ∀ k, m = some k →
      d.scanoutValid = true ∧ d.scanoutWidth = k.1 ∧ d.scanoutHeight = k.2)
    (y : Nat) {x : Nat} (hx : x < d.rt.width) : Shown cfg m x y := by
  cases m with
  | none => trivial
  | some m =>
    have hm := hsome m rfl
    have hstride : 4 ≤ d.rt.stride := by
      rw [RenderTarget.stride]
      omega
    simp only [Shown, ← hm.2.1, ← hm.2.2]
    by_contra hc
    apply of_decide_eq_false hwhole
    simp only [not_or, Bool.not_eq_true] at hc
    exact ⟨hc.1, hm.1, by omega, by omega, hstride⟩

/-- The buffer as the shell gets it, by pixels: `m` is the scanout mapped last. -/
theorem served_pixels (cfg : FrameConfig) (image : Nat → UInt8) {m : Option (Nat × Nat)}
    {buf : List UInt8} (hfit : d.rt.need ≤ buf.length)
    (hnone : m = none → d.scanoutValid = false)
    (hsome : ∀ k, m = some k →
      d.scanoutValid = true ∧ d.scanoutWidth = k.1 ∧ d.scanoutHeight = k.2) :
    let out := if cropsGutter cfg d d.rt.stride then
        gutterCrop d.rt d.scanoutWidth d.scanoutHeight d.rt.height 0 (imageIn d.rt image buf)
      else imageIn d.rt image buf
    out.length = buf.length ∧
      (∀ y x c, y < d.rt.height → x < d.rt.width → c < 4 →
        out[d.rt.at y (x*4+c)]? =
          some (if Shown cfg m x y then image (d.rt.at y (x*4+c)) else 0)) ∧
      ∀ i, d.rt.need ≤ i → out[i]? = buf[i]? := by
  have himage := imageIn_spec image hfit
  have hneed : d.rt.at (0+d.rt.height) 0 = d.rt.need := by
    simp [RenderTarget.at, RenderTarget.need, Nat.mul_comm]
  have hcrop := gutterCrop_spec d.scanoutWidth d.scanoutHeight d.rt.height 0
    (imageIn d.rt image buf) (by rw [hneed, himage.1]; exact hfit)
  rw [hneed] at hcrop
  have hbyte {y x c : Nat} (hy : y < d.rt.height) (hx : x < d.rt.width) (hc : c < 4) :
      x*4+c < d.rt.stride ∧ (imageIn d.rt image buf)[d.rt.at y (x*4+c)]? =
        some (image (d.rt.at y (x*4+c))) := by
    have hk : x*4+c < d.rt.stride := by
      rw [RenderTarget.stride]
      omega
    exact ⟨hk, himage.2.1 _ (at_lt_need hy hk)⟩
  cases hcrops : cropsGutter cfg d d.rt.stride with
  | true =>
    refine ⟨hcrop.1.trans himage.1, fun y x c hy hx hc => ?_, fun i hi => ?_⟩
    · have hb := hbyte hy hx hc
      have hshown := shown_iff_of_crops hcrops hnone hsome y x hc
      rw [if_pos rfl, hcrop.2.2 y _ hb.1, hb.2]
      by_cases hg : Gutter d.scanoutWidth d.scanoutHeight y (x*4+c)
      · rw [if_pos ⟨by omega, by omega, hg⟩, if_neg fun hs => hshown.1 hs hg]
      · rw [if_neg fun hin => hg hin.2.2, if_pos (hshown.2 hg)]
    · rw [if_pos rfl, hcrop.2.1 i hi, himage.2.2 i hi]
  | false =>
    refine ⟨himage.1, fun y x c hy hx hc => ?_, himage.2.2⟩
    have hb := hbyte hy hx hc
    rw [if_neg (by decide), hb.2, if_pos (shown_of_whole hcrops hsome y hx)]

end Serving

/-- A frame comes from the target, whether or not there is one. -/
theorem Kept.served {cfg : FrameConfig} {index : Nat} {rt : RenderTarget} {d : FrameDisplay}
    {past : List FrameEntry} (h : Kept index rt d past) {now : Nat} {dst : Option (List UInt8)}
    {gpu : GpuStatus} {image : Nat → UInt8}
    (hok : (displayReadFrame cfg d now dst gpu image).2.status = .ok) :
    displayReadFrame cfg d now dst gpu image =
      serveTarget cfg { d with settleHoldStartNs := (settle cfg d now).2 } dst gpu image := by
  have hup : d.newFrameReady = true := by
    by_contra hc
    rw [Bool.not_eq_true] at hc
    rw [read_idle hc] at hok
    cases hok
  have hs : settle cfg d now = (false, (settle cfg d now).2) := by
    refine Prod.ext ?_ rfl
    by_contra hc
    rw [Bool.not_eq_false] at hc
    have hheld : settle cfg d now = (true, (settle cfg d now).2) := Prod.ext hc rfl
    rw [read_held hup hheld] at hok
    cases hok
  rw [read_served hup hs]
  cases hi : rt.image with
  | true =>
    have hready : ({ d with settleHoldStartNs := (settle cfg d now).2 } : FrameDisplay).rtReady =
      true := h.ready.trans hi
    exact serveFrame_ready hready dst gpu image
  | false =>
    have hfb : ({ d with settleHoldStartNs := (settle cfg d now).2 } : FrameDisplay).fallback =
      none := h.unkept hi
    exact (serve_unkept hfb dst gpu image).1

/-- In every run of a display a read that gives a frame gives the image of the display's
target, as large as its mode, inside the scanout the guest mapped last and black outside
it; the rest of the shell's buffer is as it was. -/
theorem readFrame_pixels {cfg : FrameConfig} {index : Nat} {modes : List (Nat × Nat)}
    {created : Bool} {es : List FrameEvent} {now : Nat} {dst : Option (List UInt8)}
    {gpu : GpuStatus} {image : Nat → UInt8} :
    let s := frameRun cfg index modes created es
    let reply := (displayReadFrame cfg s.1 now dst gpu image).2
    let m := displayMode modes
    reply.status = .ok → ∃ buf out, dst = some buf ∧ reply.dst = some out ∧
      reply.newFrame = true ∧ reply.stride = m.1*4 ∧ out.length = buf.length ∧
      (∀ y x c, y < m.2 → x < m.1 → c < 4 →
        out[y*(m.1*4)+(x*4+c)]? =
          some (if Shown cfg (lastScanout index s.2) x y then image (y*(m.1*4)+(x*4+c)) else 0)) ∧
      ∀ i, m.1*4*m.2 ≤ i → out[i]? = buf[i]? := by
  intro s reply m hstatus
  have hK : Kept index (displayNew cfg modes created).rt s.1 s.2 :=
    (kept_new cfg index modes created).run es
  have hserve := hK.served hstatus
  have hreply : reply = (serveTarget cfg { s.1 with settleHoldStartNs := (settle cfg s.1 now).2 }
      dst gpu image).2 := congrArg Prod.snd hserve
  rw [hreply] at hstatus ⊢
  obtain ⟨buf, hdst, himage, hfit, hout⟩ := serveTarget_ok hstatus
  have hrt : s.1.rt = ⟨true, m.1, m.2⟩ := by
    rw [hK.target]
    exact displayNew_mode cfg modes created (hK.target ▸ himage)
  have hpix := served_pixels cfg image hfit hK.unmapped hK.mapped
  rw [hout]
  simp only [hrt, RenderTarget.need, RenderTarget.stride, RenderTarget.at] at hpix ⊢
  exact ⟨buf, _, hdst, rfl, trivial, trivial, hpix⟩

/-- A scanout of one pixel on a display of two. -/
def onePixel : CmdHeader :=
  CmdHeader.of 0x12 0 (List.replicate 16 0++[1, 0, 0, 0, 1, 0, 0, 0]++List.replicate 16 0)

def mappedOnce : List FrameEvent :=
  [⟨1, .swapMapping onePixel⟩, ⟨2, .submitClearColor .success⟩]

theorem mappedOnce_pixels :
    ∃ buf out, some room = some buf ∧
      (displayReadFrame {} (frameRun {} 0 [(2, 1)] true mappedOnce).1 3 (some room) .success
        fun _ => 255).2.dst = some out ∧
      (displayReadFrame {} (frameRun {} 0 [(2, 1)] true mappedOnce).1 3 (some room) .success
        fun _ => 255).2.newFrame = true ∧
      (displayReadFrame {} (frameRun {} 0 [(2, 1)] true mappedOnce).1 3 (some room) .success
        fun _ => 255).2.stride = (displayMode [(2, 1)]).1*4 ∧ out.length = buf.length ∧
      (∀ y x c, y < (displayMode [(2, 1)]).2 → x < (displayMode [(2, 1)]).1 → c < 4 →
        out[y*((displayMode [(2, 1)]).1*4)+(x*4+c)]? =
          some (if Shown {} (lastScanout 0 (frameRun {} 0 [(2, 1)] true mappedOnce).2) x y then 255
            else 0)) ∧
      ∀ i, (displayMode [(2, 1)]).1*4*(displayMode [(2, 1)]).2 ≤ i → out[i]? = buf[i]? :=
  @readFrame_pixels {} 0 [(2, 1)] true mappedOnce 3 (some room) .success (fun _ => 255) (by decide)

end Lagfx.Present
