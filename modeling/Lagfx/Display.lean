import Lagfx.Iosurface

/-! Display channel handlers: shared-state page, swap mapping, submit and the two
present commands, with the queue of surfaces composited at the next submit. -/
namespace Lagfx
open ByteMemory Runs

def displayDefaultW : Nat := 1920
def displayDefaultH : Nat := 1080
def displayDefaultBytesPerPixel : Nat := 4
def frameBlitMax : Nat := 16

/-- The published prefix of the shared-state page. -/
def ssBlob (displayIndex : Nat) : List UInt8 :=
  putLe 4 1++
  [0x31, 0x39, 0x32, 0x30, 0x78, 0x31, 0x30, 0x38, 0x30, 0]++List.replicate 4 0++
  putLe 2 displayIndex++putLe 2 displayDefaultW++putLe 2 displayDefaultH++
  putLe 2 64++putLe 2 64++putLe 4 0++
  putLe 4 (displayDefaultW*displayDefaultH*displayDefaultBytesPerPixel)++List.replicate 220 0++
  putLe 4 0x4++putLe 4 0xC++List.replicate 256 0++
  putLe 2 1++List.replicate 6 0++
  putLe 4 displayDefaultW++putLe 4 displayDefaultH++[0x42, 0x47, 0x52, 0x41]++List.replicate 4 0

theorem ssBlob_length (displayIndex : Nat) : (ssBlob displayIndex).length = 0x220 := by
  unfold ssBlob
  simp only [List.length_append, putLe_length, List.length_replicate]
  rfl

def vchanSetupSharedState (s : State) (hdr : CmdHeader) : State :=
  if hdr.payloadSize < 8 then s
  else
    let displayIndex := hdr.word 0
    let ssPfn := hdr.word 4
    if ssPfn = 0 then s
    else
      let ssGpa := ssPfn*2^12
      let s := if displayIndex < 16 then
          { s with world := { s.world with
              displaySsGpa := Function.update s.world.displaySsGpa displayIndex ssGpa
              displaySsInstalled := s.world.displaySsInstalled ||| 1 <<< displayIndex } }
        else s
      s.writeMemory ssGpa (ssBlob displayIndex)

def displaySwapMapping (w : World) (hdr : CmdHeader) : World :=
  if hdr.payloadSize < 40 then w
  else
    let displayId := hdr.word 0
    if displayId < maxDisplays then
      match w.displays displayId with
      | none => w
      | some disp =>
        { w with displays := Function.update w.displays displayId (some { disp with
            scanoutGpa := hdr.quad 8
            scanoutLength := hdr.word 4
            scanoutWidth := hdr.word 16
            scanoutHeight := hdr.word 20
            scanoutValid := true }) }
    else w

/-- `display_index` and `arg2` of a submit; both 0 in a short payload. -/
def submitArgs (hdr : CmdHeader) : Nat × Nat :=
  if 8 ≤ hdr.payloadSize then (hdr.word 0, hdr.word 4) else (0, 0)

/-- The display a submit addresses, if it is attached. -/
def submitDisplay (w : World) (hdr : CmdHeader) : Option Display :=
  if (submitArgs hdr).1 < maxDisplays then w.displays (submitArgs hdr).1 else none

/- A submit to an attached display is a frame boundary: the queue starts over. -/
def submitWorld (w : World) (hdr : CmdHeader) : World :=
  let w := if (submitArgs hdr).2 ≠ 0 ∧ (submitArgs hdr).1 < 8 then
      { w with submitProbeCount := u32 (w.submitProbeCount+1) }
    else w
  match submitDisplay w hdr with
  | none => w
  | some _ => { w with frameBlitQueue := [] }

def defaultFrameLength : Nat := displayDefaultW*displayDefaultH*displayDefaultBytesPerPixel

/-- Where the frame goes and how much room is there. -/
def scanoutTarget (disp : Display) (arg2 : Nat) : Nat × Nat :=
  if arg2 = 0 then
    if disp.scanoutValid then (disp.scanoutGpa, disp.scanoutLength)
    else (0, if disp.rtReady then u64 (disp.rtWidth*disp.rtHeight*4) else defaultFrameLength)
  else (arg2*2^12, if 0 < disp.scanoutLength then disp.scanoutLength else defaultFrameLength)

/- lagfx_display_submit_rendered_frame as guest memory sees it. `env.frame` is
   the image read back, empty when Vulkan has none to give. -/
def submitRenderedFrame (env : Env) (s : State) (scanoutGpa scanoutLength : Nat) : State :=
  if scanoutGpa = 0 ∨ scanoutLength = 0 then s
  else if s.dev.vk = false ∨ env.frame.length = 0 ∨ scanoutLength < env.frame.length then s
  else s.writeMemory scanoutGpa env.frame

def vchanDisplaySubmit (env : Env) (s : State) (hdr : CmdHeader) : State :=
  match submitDisplay s.world hdr with
  | none => { s with world := submitWorld s.world hdr }
  | some disp =>
    let target := scanoutTarget disp (submitArgs hdr).2
    submitRenderedFrame env { s with world := submitWorld s.world hdr } target.1 target.2

/- The backing a present refers to: the entry of the current channel's number,
   else the entry of task 0. -/
def presentTarget (dev : Device) (chan : Nat) (w : World) (surfaceId : Nat) : Option Nat :=
  if surfaceId = 0 ∨ dev.vk = false then none
  else
    match w.resources.lookup surfaceId chan with
    | some i => w.resources.handle i
    | none => (w.resources.lookup surfaceId 0).bind w.resources.handle

def presentSurfaceById (dev : Device) (chan : Nat) (w : World) (surfaceId : Nat) : World :=
  match presentTarget dev chan w surfaceId with
  | none => w
  | some ios =>
    if ios ∉ w.frameBlitQueue ∧ w.frameBlitQueue.length < frameBlitMax then
      { w with frameBlitQueue := w.frameBlitQueue++[ios] }
    else w

def vchanPresent (dev : Device) (chan : Nat) (w : World) (hdr : CmdHeader) : World :=
  if hdr.payloadSize < 12 then w else presentSurfaceById dev chan w (hdr.word 4)

def vchanPresentGamma (dev : Device) (chan : Nat) (w : World) (hdr : CmdHeader) : World :=
  if hdr.payloadSize < 36 then w else presentSurfaceById dev chan w (hdr.word 8)

/- Commands that meet at the queue. `chan` is `current_chan_id` at that time. -/
inductive QueueCmd where
  | present (hdr : CmdHeader) (chan : Nat)
  | presentGamma (hdr : CmdHeader) (chan : Nat)
  | submit (hdr : CmdHeader)
  | surface (cmd : IosurfaceCmd)

def queueStep (dev : Device) (w : World) : QueueCmd → World
  | .present hdr chan => vchanPresent dev chan w hdr
  | .presentGamma hdr chan => vchanPresentGamma dev chan w hdr
  | .submit hdr => submitWorld w hdr
  | .surface cmd => iosurfaceStep dev w cmd

structure QueueSound (w : World) : Prop where
  live : ∀ k ∈ w.frameBlitQueue, w.backings k ≠ none
  distinct : w.frameBlitQueue.Nodup
  bounded : w.frameBlitQueue.length ≤ frameBlitMax

/-- The handle a surface command gives up, read off the state it starts in. -/
def IosurfaceCmd.released (dev : Device) (w : World) : IosurfaceCmd → Option Nat
  | .create hdr env =>
    if 28 ≤ hdr.payloadSize ∧ dev.vk = true ∧
        (iosurfaceCreate env w (hdr.word 4) (hdr.word 8) (hdr.word 12)).isSome then
      (w.resources.lookup (hdr.word 0) 0).bind w.resources.handle
    else none
  | .unmap hdr =>
    if 8 ≤ hdr.payloadSize ∧ dev.vk = true then
      (w.resources.lookup (hdr.word 4) (hdr.word 0)).bind w.resources.handle
    else none
  | .deleteBacking hdr =>
    if 4 ≤ hdr.payloadSize ∧ dev.vk = true then
      (w.resources.lookup (hdr.word 0)
        (if 8 ≤ hdr.payloadSize then hdr.word 4 else 0)).bind w.resources.handle
    else none
  | _ => none

/-- Queueing this surface takes a backing that is there. -/
def PresentsLive (dev : Device) (chan : Nat) (w : World) (surfaceId : Nat) : Prop :=
  ∀ k, presentTarget dev chan w surfaceId = some k → k ∉ w.frameBlitQueue →
    w.frameBlitQueue.length < frameBlitMax → w.backings k ≠ none

/- The queue takes no reference of its own: nothing may drop the last reference
   to a backing while it is queued. -/
def QueueCmd.KeepsQueued (dev : Device) (w : World) : QueueCmd → Prop
  | .present hdr chan => 12 ≤ hdr.payloadSize → PresentsLive dev chan w (hdr.word 4)
  | .presentGamma hdr chan => 36 ≤ hdr.payloadSize → PresentsLive dev chan w (hdr.word 8)
  | .submit _ => True
  | .surface cmd => ∀ k ∈ cmd.released dev w, k ∈ w.frameBlitQueue → w.refs k ≠ 1

@[simp] theorem withResources_queue (w : World) (r : Registry) :
    (w.withResources r).frameBlitQueue = w.frameBlitQueue := rfl

@[simp] theorem releaseHandle_queue (w : World) (o : Option Nat) :
    (releaseHandle w o).frameBlitQueue = w.frameBlitQueue := by
  cases o with
  | none => rfl
  | some k =>
    simp only [releaseHandle, iosurfaceRelease]
    split
    · rfl
    · split_ifs <;> rfl

@[simp] theorem retainHandle_queue (w : World) (o : Option Nat) :
    (retainHandle w o).frameBlitQueue = w.frameBlitQueue := by
  cases o with
  | none => rfl
  | some k =>
    simp only [retainHandle, iosurfaceRetain]
    split <;> rfl

theorem setBacking_backings_ne {w : World} {h k : Nat} (hk : k ≠ h) (ios : Option Iosurface) :
    (w.setBacking h ios).backings k = w.backings k := by
  simp [World.setBacking, hk]

/-- A release destroys one backing, and only on its last reference. -/
theorem releaseHandle_eq_none {w : World} {k : Nat} (hk : w.backings k ≠ none) (o : Option Nat) :
    (releaseHandle w o).backings k = none ↔ o = some k ∧ w.refs k = 1 := by
  cases o with
  | none => simp [releaseHandle, hk]
  | some h =>
    by_cases hh : h = k
    · subst hh
      cases hb : w.backings h with
      | none => exact absurd hb hk
      | some ios =>
        simp only [releaseHandle, iosurfaceRelease, hb, true_and, World.refs, Option.elim_some]
        split_ifs with h0 h1
        · simp [hb, h0]
        · simp [iosurfaceDestroy, World.setBacking]
          omega
        · simp [World.setBacking]
          omega
    · have hne : (releaseHandle w (some h)).backings k = w.backings k := by
        simp only [releaseHandle, iosurfaceRelease]
        split
        · rfl
        · split_ifs
          · rfl
          · exact setBacking_backings_ne (Ne.symm hh) none
          · exact setBacking_backings_ne (Ne.symm hh) _
      simp [hne, hk, hh]

theorem retainHandle_ne_none {w : World} {k : Nat} (hk : w.backings k ≠ none) (o : Option Nat) :
    (retainHandle w o).backings k ≠ none := by
  cases o with
  | none => exact hk
  | some h =>
    simp only [retainHandle, iosurfaceRetain]
    split
    · exact hk
    · by_cases hh : k = h
      · simp [World.setBacking, hh]
      · rw [setBacking_backings_ne hh]
        exact hk

theorem dropSurface_eq_none {dev : Device} {w : World} {k : Nat} (hk : w.backings k ≠ none)
    (surfaceId taskId : Nat) : (dropSurface dev w surfaceId taskId).backings k = none ↔
      dev.vk = true ∧ (w.resources.lookup surfaceId taskId).bind w.resources.handle = some k ∧
        w.refs k = 1 := by
  rw [dropSurface]
  cases hl : w.resources.lookup surfaceId taskId with
  | none => simp [hk]
  | some i =>
    by_cases hvk : dev.vk = true
    · simp [hvk, releaseHandle_eq_none hk]
    · simp [hvk, hk]

/-- Whether a backing can be made depends on the backings there are. -/
theorem iosurfaceCreate_isSome (env : Env) {w w' : World} (h : w'.backings = w.backings)
    {width height pixelFormat : Nat} :
    (iosurfaceCreate env w' width height pixelFormat).isSome =
      (iosurfaceCreate env w width height pixelFormat).isSome := by
  simp only [iosurfaceCreate, h]
  split_ifs
  · rfl
  · split
    · rfl
    · split_ifs <;> rfl

theorem createBacking2_eq_none {dev : Device} {env : Env} {w : World} {hdr : CmdHeader} {k : Nat}
    (hk : w.backings k ≠ none) : (createBacking2 dev env w hdr).backings k = none ↔
      IosurfaceCmd.released dev w (.create hdr env) = some k ∧ w.refs k = 1 := by
  rw [createBacking2, IosurfaceCmd.released]
  by_cases hs : hdr.payloadSize < 28
  · simp [hs, hk]
  by_cases hvk : dev.vk = true
  · simp only [hs, if_false, hvk, if_true, Nat.not_lt.mp hs, true_and]
    generalize hw1 : w.withResources (w.resources.register (hdr.word 0) .texture 0 0
      (hdr.quad 20)) = w1
    have hb1 : w1.backings = w.backings := by rw [← hw1]; rfl
    rw [← iosurfaceCreate_isSome env hb1]
    cases hc : iosurfaceCreate env w1 (hdr.word 4) (hdr.word 8) (hdr.word 12) with
    | none => simp [hb1, hk]
    | some p =>
      obtain ⟨h, w2⟩ := p
      obtain ⟨hfree, hw2⟩ := iosurfaceCreate_some hc
      have hne : k ≠ h := by
        intro he
        rw [he, ← hb1] at hk
        exact hk hfree
      have hb2 : w2.backings k = w.backings k := by
        rw [hw2, setBacking_backings_ne hne, hb1]
      have hres : w2.resources = w.resources.register (hdr.word 0) .texture 0 0 (hdr.quad 20) := by
        rw [hw2, ← hw1]
        rfl
      have hrefs : w2.refs k = w.refs k := by simp [World.refs, hb2]
      simp only [Option.isSome_some, if_true, hres]
      cases hl : (w.resources.register (hdr.word 0) .texture 0 0 (hdr.quad 20)).lookup
          (hdr.word 0) 0 with
      | some i =>
        simp only [withResources_backings, releaseHandle_eq_none (hb2.trans_ne hk),
          handle_registered hl, hrefs]
      | none =>
        simp only [iosurfaceDestroy, setBacking_backings_ne hne, hb2, hk,
          lookup_none_of_register hl, Option.bind_none, reduceCtorEq, false_and]
  · simp [hs, hvk, hk]

theorem lookupSurface_ne_none {dev : Device} {env : Env} {w : World} {hdr : CmdHeader} {k : Nat}
    (hk : w.backings k ≠ none) : (lookupSurface dev env w hdr).backings k ≠ none := by
  rw [lookupSurface]
  by_cases hs : hdr.payloadSize < 4
  · simpa [hs] using hk
  simp only [hs, if_false]
  cases w.resources.lookup (hdr.word 0) 0 with
  | some _ => exact hk
  | none =>
    by_cases hg : dev.globalSurf = true ∧ dev.vk = true
    · simp only [hg, and_self, if_true]
      split
      · exact hk
      · rename_i h w' hc
        obtain ⟨hfree, rfl⟩ := iosurfaceCreate_some hc
        have hne : k ≠ h := fun he => hk (he ▸ hfree)
        split
        · rw [withResources_backings, setBacking_backings_ne hne]
          exact hk
        · rw [iosurfaceDestroy, setBacking_backings_ne hne, setBacking_backings_ne hne]
          exact hk
    · simpa [hg] using hk

theorem importMachPort_ne_none {w : World} {hdr : CmdHeader} {k : Nat}
    (hk : w.backings k ≠ none) : (importMachPort w hdr).backings k ≠ none := by
  rw [importMachPort]
  by_cases hs : hdr.payloadSize < 16
  · simpa [hs] using hk
  simp only [hs, if_false]
  cases w.resources.lookup (hdr.word 8) (hdr.word 4) with
  | none => exact hk
  | some remote =>
    dsimp only
    split
    · exact hk
    · apply retainHandle_ne_none
      exact hk

theorem taskStep_frame (dev : Device) (w : World) (c : TaskCmd) :
    (taskStep dev w c).backings = w.backings ∧
      (taskStep dev w c).frameBlitQueue = w.frameBlitQueue := by
  cases c with
  | defineTask2 hdr env =>
    obtain ⟨tasks, created, h⟩ := defineTask2_writes dev env w hdr
    simp [taskStep, h]
  | defineHostTask hdr =>
    obtain ⟨tasks, h⟩ := defineHostTask_writes w hdr
    simp [taskStep, h]
  | deleteTask hdr =>
    obtain ⟨tasks, resources, destroyed, h⟩ := deleteTask_writes dev w hdr
    simp [taskStep, h]

/-- What a surface command does to a backing that is there. -/
theorem iosurfaceStep_eq_none {dev : Device} {w : World} {k : Nat} (hk : w.backings k ≠ none)
    (c : IosurfaceCmd) : (iosurfaceStep dev w c).backings k = none ↔
      c.released dev w = some k ∧ w.refs k = 1 := by
  cases c with
  | create hdr env => exact createBacking2_eq_none hk
  | lookup hdr env =>
    simp [iosurfaceStep, IosurfaceCmd.released, lookupSurface_ne_none hk]
  | importPort hdr =>
    simp [iosurfaceStep, IosurfaceCmd.released, importMachPort_ne_none hk]
  | unmap hdr =>
    simp only [iosurfaceStep, unmapSurface, IosurfaceCmd.released]
    by_cases hs : hdr.payloadSize < 8
    · simp [hs, hk]
    · by_cases hvk : dev.vk = true <;> simp [hs, hvk, Nat.not_lt.mp hs, dropSurface_eq_none hk]
  | deleteBacking hdr =>
    simp only [iosurfaceStep, deleteBacking2, IosurfaceCmd.released]
    by_cases hs : hdr.payloadSize < 4
    · simp [hs, hk]
    · by_cases hvk : dev.vk = true <;> simp [hs, hvk, Nat.not_lt.mp hs, dropSurface_eq_none hk]
  | task cmd => simp [iosurfaceStep, IosurfaceCmd.released, taskStep_frame, hk]

theorem dropSurface_queue (dev : Device) (w : World) (surfaceId taskId : Nat) :
    (dropSurface dev w surfaceId taskId).frameBlitQueue = w.frameBlitQueue := by
  rw [dropSurface]
  cases w.resources.lookup surfaceId taskId with
  | none => rfl
  | some i => cases dev.vk <;> simp

theorem createBacking2_queue (dev : Device) (env : Env) (w : World) (hdr : CmdHeader) :
    (createBacking2 dev env w hdr).frameBlitQueue = w.frameBlitQueue := by
  simp only [createBacking2]
  split_ifs
  · rfl
  · split
    · rfl
    · rename_i h w' hc
      obtain ⟨-, rfl⟩ := iosurfaceCreate_some hc
      split
      · rw [withResources_queue, releaseHandle_queue]
        rfl
      · rfl
  · rfl

theorem lookupSurface_queue (dev : Device) (env : Env) (w : World) (hdr : CmdHeader) :
    (lookupSurface dev env w hdr).frameBlitQueue = w.frameBlitQueue := by
  simp only [lookupSurface]
  by_cases hs : hdr.payloadSize < 4
  · simp [hs]
  simp only [hs, if_false]
  cases w.resources.lookup (hdr.word 0) 0 with
  | some _ => rfl
  | none =>
    dsimp only
    split_ifs
    · split
      · rfl
      · rename_i h w' hc
        obtain ⟨-, rfl⟩ := iosurfaceCreate_some hc
        split <;> rfl
    · rfl

theorem importMachPort_queue (w : World) (hdr : CmdHeader) :
    (importMachPort w hdr).frameBlitQueue = w.frameBlitQueue := by
  simp only [importMachPort]
  by_cases hs : hdr.payloadSize < 16
  · simp [hs]
  simp only [hs, if_false]
  cases w.resources.lookup (hdr.word 8) (hdr.word 4) with
  | none => rfl
  | some remote =>
    dsimp only
    split
    · rfl
    · rw [retainHandle_queue]
      rfl

/-- No surface command touches the queue. -/
theorem iosurfaceStep_queue (dev : Device) (w : World) (c : IosurfaceCmd) :
    (iosurfaceStep dev w c).frameBlitQueue = w.frameBlitQueue := by
  cases c with
  | create hdr env => exact createBacking2_queue dev env w hdr
  | lookup hdr env => exact lookupSurface_queue dev env w hdr
  | importPort hdr => exact importMachPort_queue w hdr
  | unmap hdr =>
    simp only [iosurfaceStep, unmapSurface]
    split_ifs
    · rfl
    · exact dropSurface_queue dev w _ _
  | deleteBacking hdr =>
    simp only [iosurfaceStep, deleteBacking2]
    by_cases hs : hdr.payloadSize < 4
    · simp [hs]
    · simpa [hs] using dropSurface_queue dev w _ _
  | task cmd => exact (taskStep_frame dev w cmd).2

theorem presentSurfaceById_sound_iff (dev : Device) (chan surfaceId : Nat) {w : World}
    (hw : QueueSound w) : QueueSound (presentSurfaceById dev chan w surfaceId) ↔
      PresentsLive dev chan w surfaceId := by
  rw [presentSurfaceById, PresentsLive]
  cases hp : presentTarget dev chan w surfaceId with
  | none => simp [hw]
  | some k =>
    by_cases hq : k ∉ w.frameBlitQueue ∧ w.frameBlitQueue.length < frameBlitMax
    · dsimp only
      rw [if_pos hq]
      constructor
      · intro h x hx _ _
        obtain rfl := Option.some.inj hx
        exact h.live k (by simp)
      · intro h
        refine ⟨?_, ?_, ?_⟩
        · intro x hx
          obtain hx | hx := List.mem_append.mp hx
          · exact hw.live x hx
          · obtain rfl : x = k := by simpa using hx
            exact h x rfl hq.1 hq.2
        · simpa [List.nodup_append] using ⟨hw.distinct, fun a ha hak => hq.1 (hak ▸ ha)⟩
        · rw [List.length_append]
          exact hq.2
    · simp only [hq, if_false, hw, true_iff]
      intro x hx hn hl
      obtain rfl := Option.some.inj hx
      exact absurd ⟨hn, hl⟩ hq

theorem submitWorld_sound (hdr : CmdHeader) {w : World} (hw : QueueSound w) :
    QueueSound (submitWorld w hdr) := by
  unfold submitWorld
  generalize hw1 : (if (submitArgs hdr).2 ≠ 0 ∧ (submitArgs hdr).1 < 8 then
    { w with submitProbeCount := u32 (w.submitProbeCount+1) } else w) = w1
  have h1 : QueueSound w1 := by
    rw [← hw1]
    split_ifs
    · exact ⟨hw.live, hw.distinct, hw.bounded⟩
    · exact hw
  dsimp only
  split
  · exact h1
  · exact ⟨by simp, by simp, by simp [frameBlitMax]⟩

/-- One command keeps the queue sound exactly when it keeps what is queued. -/
theorem queueStep_sound_iff (dev : Device) (w : World) (c : QueueCmd) (hw : QueueSound w) :
    QueueSound (queueStep dev w c) ↔ c.KeepsQueued dev w := by
  cases c with
  | present hdr chan =>
    simp only [queueStep, vchanPresent, QueueCmd.KeepsQueued]
    by_cases hs : hdr.payloadSize < 12
    · simp [hs, hw]
    · simp [hs, Nat.not_lt.mp hs, presentSurfaceById_sound_iff dev chan _ hw]
  | presentGamma hdr chan =>
    simp only [queueStep, vchanPresentGamma, QueueCmd.KeepsQueued]
    by_cases hs : hdr.payloadSize < 36
    · simp [hs, hw]
    · simp [hs, Nat.not_lt.mp hs, presentSurfaceById_sound_iff dev chan _ hw]
  | submit hdr => exact iff_of_true (submitWorld_sound hdr hw) trivial
  | surface cmd =>
    simp only [queueStep, QueueCmd.KeepsQueued]
    have hq := iosurfaceStep_queue dev w cmd
    constructor
    · intro h k hk hkq h1
      exact h.live k (hq ▸ hkq) ((iosurfaceStep_eq_none (hw.live k hkq) cmd).mpr ⟨hk, h1⟩)
    · intro h
      refine ⟨?_, hq ▸ hw.distinct, hq ▸ hw.bounded⟩
      intro k hk hnone
      rw [hq] at hk
      obtain ⟨hrel, h1⟩ := (iosurfaceStep_eq_none (hw.live k hk) cmd).mp hnone
      exact h k hrel hk h1

/-- Over any interleaving of presents, submits, surface and task commands: the
queue is sound in every state exactly when every command keeps what is queued. -/
theorem frame_blit_queue_sound_iff (dev : Device) (w : World) (hw : QueueSound w)
    (cs : List QueueCmd) :
    (∀ v ∈ visited (queueStep dev) w cs, QueueSound v) ↔
      AllSteps (queueStep dev) (fun v c => c.KeepsQueued dev v) w cs :=
  visited_inv_iff (queueStep dev) (queueStep_sound_iff dev) cs w hw

/-- Present surface 1 on display channel 5. -/
def presentSurface1 : QueueCmd :=
  .present (CmdHeader.of 0x06 2 (putLe 4 0++putLe 4 1++putLe 4 0)) 5

/-- Create, present, submit on an attached display, delete: covered. -/
theorem frame_blit_queue_sound_submitted : QueueSound { displays := fun _ => some {} } ∧
    ∀ v ∈ visited (queueStep {}) { displays := fun _ => some {} }
      [.surface createSurface1, presentSurface1, .submit (CmdHeader.of 0x02 3 []),
        .surface (.deleteBacking (CmdHeader.of 0x26 4 (putLe 4 1)))], QueueSound v := by
  have hstart : QueueSound { displays := fun _ => some {} } := ⟨by simp, by simp, by simp⟩
  refine ⟨hstart, (frame_blit_queue_sound_iff {} _ hstart _).mpr
    ⟨fun k _ hq => ?_, fun _ k hk _ _ => ?_, trivial, fun k _ hq => ?_, trivial⟩⟩
  · simp at hq
  · obtain rfl : 5 = k := Option.some.inj hk
    decide
  · exact absurd hq (List.not_mem_nil)

/-- Deleted between present and submit: the queue holds a destroyed surface. -/
theorem delete_leaves_queue_dangling :
    ¬ ∀ v ∈ visited (queueStep {}) {}
      [.surface createSurface1, presentSurface1,
        .surface (.deleteBacking (CmdHeader.of 0x26 3 (putLe 4 1)))], QueueSound v := by
  intro h
  have hl := (h (queueStep {} (queueStep {} (queueStep {} {} (.surface createSurface1))
    presentSurface1) (.surface (.deleteBacking (CmdHeader.of 0x26 3 (putLe 4 1)))))
    (by simp [visited])).live 5
  revert hl
  decide

end Lagfx
