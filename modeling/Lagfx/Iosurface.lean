import Lagfx.TaskTable

/-! IOSurface backings and the five commands that refer to them: create 0x27,
lookup 0x28, import 0x29, unmap 0x2a, delete 0x26. -/
namespace Lagfx
open ByteMemory SlotTable Runs

def World.setBacking (w : World) (h : Nat) (ios : Option Iosurface) : World :=
  { w with backings := Function.update w.backings h ios }

def World.withResources (w : World) (r : Registry) : World := { w with resources := r }

@[simp] theorem withResources_resources (w : World) (r : Registry) :
    (w.withResources r).resources = r := rfl
@[simp] theorem withResources_backings (w : World) (r : Registry) :
    (w.withResources r).backings = w.backings := rfl

/- lagfx_vk_iosurface_create. The environment proposes the address calloc hands
   out; an address still in use is never handed out. -/
def iosurfaceCreate (env : Env) (w : World) (width height pixelFormat : Nat) :
    Option (Nat × World) :=
  if width = 0 ∨ height = 0 then none
  else
    match env.iosurfaceCreate with
    | none => none
    | some h =>
      if (w.backings h).isSome then none
      else some (h, w.setBacking h (some ⟨width, height, pixelFormat, 1⟩))

def iosurfaceDestroy (w : World) (h : Nat) : World := w.setBacking h none

def iosurfaceRetain (w : World) (h : Nat) : World :=
  match w.backings h with
  | none => w
  | some ios => w.setBacking h (some { ios with refcount := u32 (ios.refcount+1) })

/- A dead pointer has no meaning here; the handlers do not pass one as long as
   the counts are right. -/
def iosurfaceRelease (w : World) (h : Nat) : World :=
  match w.backings h with
  | none => w
  | some ios =>
    if ios.refcount = 0 then w
    else if ios.refcount-1 = 0 then iosurfaceDestroy w h
    else w.setBacking h (some { ios with refcount := ios.refcount-1 })

def releaseHandle (w : World) : Option Nat → World
  | none => w
  | some h => iosurfaceRelease w h

def retainHandle (w : World) : Option Nat → World
  | none => w
  | some h => iosurfaceRetain w h

/-- The common body of delete and unmap. -/
def dropSurface (dev : Device) (w : World) (surfaceId taskId : Nat) : World :=
  match w.resources.lookup surfaceId taskId with
  | none => w
  | some i =>
    let w := if dev.vk then releaseHandle w (w.resources.handle i) else w
    w.withResources (w.resources.unregister surfaceId taskId)

def deleteBacking2 (dev : Device) (w : World) (hdr : CmdHeader) : World :=
  if hdr.payloadSize < 4 then w
  else dropSurface dev w (hdr.word 0) (if 8 ≤ hdr.payloadSize then hdr.word 4 else 0)

def unmapSurface (dev : Device) (w : World) (hdr : CmdHeader) : World :=
  if hdr.payloadSize < 8 then w
  else dropSurface dev w (hdr.word 4) (hdr.word 0)

def createBacking2 (dev : Device) (env : Env) (w : World) (hdr : CmdHeader) : World :=
  if hdr.payloadSize < 28 then w
  else
    let surfaceId := hdr.word 0
    let w := w.withResources (w.resources.register surfaceId .texture 0 0 (hdr.quad 20))
    if dev.vk then
      match iosurfaceCreate env w (hdr.word 4) (hdr.word 8) (hdr.word 12) with
      | none => w
      | some (h, w) =>
        match w.resources.lookup surfaceId 0 with
        | some i =>
          let w := releaseHandle w (w.resources.handle i)
          w.withResources (w.resources.setHandle i (some h))
        | none => iosurfaceDestroy w h
    else w

def lookupSurface (dev : Device) (env : Env) (w : World) (hdr : CmdHeader) : World :=
  if hdr.payloadSize < 4 then w
  else
    let surfaceId := hdr.word 0
    match w.resources.lookup surfaceId 0 with
    | some _ => w
    | none =>
      let w := w.withResources (w.resources.register surfaceId .texture 0 0 0)
      if dev.globalSurf ∧ dev.vk then
        match iosurfaceCreate env w 1920 1080 80 with
        | none => w
        | some (h, w) =>
          match w.resources.lookup surfaceId 0 with
          | some i => w.withResources (w.resources.setHandle i (some h))
          | none => iosurfaceDestroy w h
      else w

/- The old handle of the local entry is overwritten, not released. -/
def importMachPort (w : World) (hdr : CmdHeader) : World :=
  if hdr.payloadSize < 16 then w
  else
    let localTaskId := hdr.word 0
    let remoteTaskId := hdr.word 4
    let remoteSurfaceId := hdr.word 8
    let localSurfaceId := hdr.word 12
    match w.resources.lookup remoteSurfaceId remoteTaskId with
    | none => w
    | some remote =>
      let size := (w.resources.entries[remote]?.map ResourceEntry.size).getD 0
      let w := w.withResources
        (w.resources.register localSurfaceId .texture localTaskId 0 size)
      match w.resources.lookup localSurfaceId localTaskId with
      | none => w
      | some loc =>
        let hostHandle := w.resources.handle remote
        retainHandle (w.withResources (w.resources.setHandle loc hostHandle)) hostHandle

inductive IosurfaceCmd where
  | create (hdr : CmdHeader) (env : Env)
  | lookup (hdr : CmdHeader) (env : Env)
  | importPort (hdr : CmdHeader)
  | unmap (hdr : CmdHeader)
  | deleteBacking (hdr : CmdHeader)
  | task (cmd : TaskCmd)

def iosurfaceStep (dev : Device) (w : World) : IosurfaceCmd → World
  | .create hdr env => createBacking2 dev env w hdr
  | .lookup hdr env => lookupSurface dev env w hdr
  | .importPort hdr => importMachPort w hdr
  | .unmap hdr => unmapSurface dev w hdr
  | .deleteBacking hdr => deleteBacking2 dev w hdr
  | .task cmd => taskStep dev w cmd

/-- The count kept in a backing; 0 once it is gone. -/
def World.refs (w : World) (h : Nat) : Nat := (w.backings h).elim 0 Iosurface.refcount

/- Counts and entries agree: an entry's backing is there, and a backing that is
   there is somebody's. -/
structure RefcountsExact (w : World) : Prop where
  exact : ∀ h ios, w.backings h = some ios → ios.refcount = w.resources.handles.count h
  noDangling : ∀ h ∈ w.resources.handles, w.backings h ≠ none
  inUse : ∀ h ios, w.backings h = some ios → h ∈ w.resources.handles

theorem refcountsExact_iff {w : World} : RefcountsExact w ↔
    (∀ h, w.refs h = w.resources.handles.count h) ∧
      ∀ h ios, w.backings h = some ios → ios.refcount ≠ 0 := by
  constructor
  · intro hw
    refine ⟨fun h => ?_, fun h ios hi => ?_⟩
    · cases hb : w.backings h with
      | none =>
        have hn : h ∉ w.resources.handles := fun hm => hw.noDangling h hm hb
        simp [World.refs, hb, Multiset.count_eq_zero_of_notMem hn]
      | some ios => simpa [World.refs, hb] using hw.exact h ios hb
    · rw [hw.exact h ios hi]
      exact Multiset.count_ne_zero.mpr (hw.inUse h ios hi)
  · rintro ⟨hc, hp⟩
    refine ⟨fun h ios hi => ?_, fun h hm hb => ?_, fun h ios hi => ?_⟩
    · simpa [World.refs, hi] using hc h
    · have hz : w.resources.handles.count h = 0 := by simpa [World.refs, hb] using (hc h).symm
      exact Multiset.count_ne_zero.mpr hm hz
    · have hh : ios.refcount = w.resources.handles.count h := by simpa [World.refs, hi] using hc h
      exact Multiset.count_ne_zero.mp (hh ▸ hp h ios hi)

/- The account the proofs work with: counts on one side, handles on the other. -/
def World.Counted (w : World) : Prop := ∀ h ios, w.backings h = some ios → ios.refcount ≠ 0

theorem refs_setBacking (w : World) (k h : Nat) (ios : Option Iosurface) :
    (w.setBacking k ios).refs h = if h = k then ios.elim 0 Iosurface.refcount else w.refs h := by
  by_cases hk : h = k
  · simp [World.refs, World.setBacking, hk]
  · simp [World.refs, World.setBacking, hk]

theorem counted_setBacking {w : World} (hw : w.Counted) (k : Nat) {ios : Option Iosurface}
    (hi : ∀ x, ios = some x → x.refcount ≠ 0) : (w.setBacking k ios).Counted := by
  intro h x hx
  by_cases hk : h = k
  · exact hi x (by simpa [World.setBacking, hk] using hx)
  · exact hw h x (by simpa [World.setBacking, hk] using hx)

@[simp] theorem releaseHandle_resources (w : World) (o : Option Nat) :
    (releaseHandle w o).resources = w.resources := by
  cases o with
  | none => rfl
  | some k =>
    simp only [releaseHandle, iosurfaceRelease]
    split
    · rfl
    · split_ifs <;> rfl

theorem backing_of_refs {w : World} {h : Nat} (hr : w.refs h ≠ 0) :
    ∃ ios, w.backings h = some ios ∧ ios.refcount = w.refs h := by
  cases hb : w.backings h with
  | none => simp [World.refs, hb] at hr
  | some ios => exact ⟨ios, rfl, by simp [World.refs, hb]⟩

/-- Releasing a counted handle takes one off its count, the backing with it when
that was the last. -/
theorem refs_releaseHandle {w : World} {o : Option Nat} (ho : ∀ k ∈ o, w.refs k ≠ 0) (h : Nat) :
    (releaseHandle w o).refs h+(held o).count h = w.refs h := by
  cases o with
  | none => simp [releaseHandle]
  | some k =>
    have hk := ho k rfl
    obtain ⟨ios, hb, hc⟩ := backing_of_refs hk
    have hne : ios.refcount ≠ 0 := by omega
    simp only [releaseHandle, iosurfaceRelease, hb, hne, if_false, held_some,
      Multiset.count_singleton]
    by_cases hl : ios.refcount-1 = 0
    · simp only [hl, if_true, iosurfaceDestroy, refs_setBacking, Option.elim_none]
      by_cases hh : h = k
      · subst hh
        simp only [if_true]
        omega
      · simp [hh]
    · simp only [hl, if_false, refs_setBacking, Option.elim_some]
      by_cases hh : h = k
      · subst hh
        simp only [if_true]
        omega
      · simp [hh]

theorem counted_releaseHandle {w : World} (hw : w.Counted) (o : Option Nat) :
    (releaseHandle w o).Counted := by
  cases o with
  | none => exact hw
  | some k =>
    simp only [releaseHandle, iosurfaceRelease]
    cases hb : w.backings k with
    | none => exact hw
    | some ios =>
      dsimp only
      split_ifs with h0 h1
      · exact hw
      · exact counted_setBacking hw k (by simp)
      · exact counted_setBacking hw k (by simpa using h1)

/-- A new backing starts at one, under an address nothing refers to. -/
theorem iosurfaceCreate_some {env : Env} {w w' : World} {width height pixelFormat k : Nat}
    (h : iosurfaceCreate env w width height pixelFormat = some (k, w')) :
    w.backings k = none ∧ w' = w.setBacking k (some ⟨width, height, pixelFormat, 1⟩) := by
  rw [iosurfaceCreate] at h
  split_ifs at h
  cases he : env.iosurfaceCreate with
  | none => simp [he] at h
  | some k' =>
    simp only [he] at h
    split_ifs at h with hs
    obtain ⟨rfl, rfl⟩ := Prod.mk.inj (Option.some.inj h)
    exact ⟨by simpa using hs, rfl⟩

theorem refs_eq_zero {w : World} {k : Nat} (h : w.backings k = none) : w.refs k = 0 := by
  simp [World.refs, h]

/- The one argument all commands share: what happens to the counts has to match
   what happens to the handles. -/
theorem refcountsExact_of_account {w : World}
    (hc : ∀ h, w.refs h = w.resources.handles.count h) (hp : w.Counted) : RefcountsExact w :=
  refcountsExact_iff.mpr ⟨hc, hp⟩

theorem RefcountsExact.refs_handle {w : World} (hw : RefcountsExact w) {i k : Nat}
    (hk : k ∈ w.resources.handle i) : w.refs k ≠ 0 := by
  rw [(refcountsExact_iff.mp hw).1 k]
  exact Multiset.count_ne_zero.mpr (handle_mem_handles hk)

/-- Delete and unmap give back exactly the reference of the entry they remove. -/
theorem dropSurface_exact {dev : Device} (hvk : dev.vk = true) {w : World} (hw : RefcountsExact w)
    (surfaceId taskId : Nat) : RefcountsExact (dropSurface dev w surfaceId taskId) := by
  obtain ⟨hc, hp⟩ := refcountsExact_iff.mp hw
  rw [dropSurface]
  cases hl : w.resources.lookup surfaceId taskId with
  | none => exact hw
  | some i =>
    simp only [hvk, if_true, releaseHandle_resources]
    refine refcountsExact_of_account (fun h => ?_) (counted_releaseHandle hp _)
    have hr := refs_releaseHandle (fun k hk => hw.refs_handle hk) h (o := w.resources.handle i)
    have hu := congrArg (Multiset.count h) (handles_unregister hl)
    rw [Multiset.count_add] at hu
    have := hc h
    change (releaseHandle w (w.resources.handle i)).refs h = _
    rw [withResources_resources]
    omega

/-- Registering moves no reference. -/
theorem refcountsExact_register {w : World} (hw : RefcountsExact w) (ref : Nat)
    (type : ResourceType) (taskId gpuAddr size : Nat) :
    RefcountsExact (w.withResources (w.resources.register ref type taskId gpuAddr size)) := by
  obtain ⟨hc, hp⟩ := refcountsExact_iff.mp hw
  refine refcountsExact_of_account (fun h => ?_) hp
  rw [withResources_resources, handles_register]
  exact hc h

/-- A backing just made is one reference ahead of the registry. -/
theorem refs_created {env : Env} {w w' : World} {width height pixelFormat k : Nat}
    (hw : RefcountsExact w) (h : iosurfaceCreate env w width height pixelFormat = some (k, w')) :
    w'.resources = w.resources ∧ w'.Counted ∧
      ∀ x, w'.refs x = w.resources.handles.count x+(held (some k)).count x := by
  obtain ⟨hc, hp⟩ := refcountsExact_iff.mp hw
  obtain ⟨hnone, rfl⟩ := iosurfaceCreate_some h
  refine ⟨rfl, counted_setBacking hp k (by simp), fun x => ?_⟩
  rw [refs_setBacking, ← hc x, held_some, Multiset.count_singleton]
  by_cases hx : x = k
  · subst hx
    simp [refs_eq_zero hnone]
  · simp [hx]

/-- Giving the new backing to an entry, its old one released, settles the account. -/
theorem exact_of_adopt {w w' : World} {i k : Nat} (hr : w'.resources = w.resources)
    (hp : w'.Counted)
    (hc : ∀ x, w'.refs x = w.resources.handles.count x+(held (some k)).count x)
    (hi : i < w.resources.entries.length) :
    RefcountsExact ((releaseHandle w' (w'.resources.handle i)).withResources
      (w'.resources.setHandle i (some k))) := by
  have hpos : ∀ x ∈ w'.resources.handle i, w'.refs x ≠ 0 := by
    intro x hx
    have hm := Multiset.count_pos.mpr (handle_mem_handles hx)
    rw [hr] at hm
    rw [hc x]
    omega
  refine refcountsExact_of_account (fun x => ?_) (counted_releaseHandle hp _)
  have hrel := refs_releaseHandle hpos x
  have hs := congrArg (Multiset.count x)
    (handles_setHandle (some k) (List.getElem?_eq_getElem (hr ▸ hi)))
  rw [Multiset.count_add, Multiset.count_add] at hs
  have hcx := hc x
  rw [← hr] at hcx
  change (releaseHandle w' (w'.resources.handle i)).refs x = _
  rw [withResources_resources]
  omega

/-- No room in the registry: the new backing goes away again. -/
theorem exact_of_discard {w w' : World} {k : Nat} (hw : RefcountsExact w)
    (hr : w'.resources = w.resources) (hp : w'.Counted) (hnone : w.backings k = none)
    (hc : ∀ x, w'.refs x = w.resources.handles.count x+(held (some k)).count x) :
    RefcountsExact (iosurfaceDestroy w' k) := by
  have h0 := (refcountsExact_iff.mp hw).1
  refine refcountsExact_of_account (fun x => ?_) (counted_setBacking hp k (by simp))
  change (w'.setBacking k none).refs x = Multiset.count x w'.resources.handles
  rw [refs_setBacking, hr, ← h0 x]
  by_cases hx : x = k
  · subst hx
    simp [refs_eq_zero hnone]
  · simp [hx, hc x, h0 x]

theorem createBacking2_exact (dev : Device) (env : Env) (hdr : CmdHeader) {w : World}
    (hw : RefcountsExact w) : RefcountsExact (createBacking2 dev env w hdr) := by
  rw [createBacking2]
  by_cases hs : hdr.payloadSize < 28
  · simpa [hs] using hw
  simp only [hs, if_false]
  have hreg := refcountsExact_register hw (hdr.word 0) .texture 0 0 (hdr.quad 20)
  by_cases hvk : dev.vk = true
  · simp only [hvk, if_true]
    split
    · exact hreg
    · rename_i k w' hcr
      obtain ⟨hr, hp, hc⟩ := refs_created hreg hcr
      split
      · rename_i i hl
        simp only [releaseHandle_resources]
        exact exact_of_adopt hr hp hc (lookup_lt (hr ▸ hl))
      · exact exact_of_discard hreg hr hp (iosurfaceCreate_some hcr).1 hc
  · simpa [hvk] using hreg

theorem lookupSurface_exact (dev : Device) (env : Env) (hdr : CmdHeader) {w : World}
    (hw : RefcountsExact w) : RefcountsExact (lookupSurface dev env w hdr) := by
  rw [lookupSurface]
  by_cases hs : hdr.payloadSize < 4
  · simpa [hs] using hw
  simp only [hs, if_false]
  cases hold : w.resources.lookup (hdr.word 0) 0 with
  | some _ => exact hw
  | none =>
    have hreg := refcountsExact_register hw (hdr.word 0) .texture 0 0 0
    by_cases hg : dev.globalSurf = true ∧ dev.vk = true
    · simp only [hg, and_self, if_true]
      split
      · exact hreg
      · rename_i k w' hcr
        obtain ⟨hr, hp, hc⟩ := refs_created hreg hcr
        split
        · rename_i i hl
          -- the entry is new, so there is no old handle to release
          have hnew : w'.resources.handle i = none := by
            rw [hr] at hl ⊢
            exact (handle_registered hl).trans (by rw [hold]; rfl)
          have ha := exact_of_adopt hr hp hc (lookup_lt (hr ▸ hl))
          rw [hnew] at ha
          exact ha
        · exact exact_of_discard hreg hr hp (iosurfaceCreate_some hcr).1 hc
    · simpa [hg] using hreg

@[simp] theorem retainHandle_resources (w : World) (o : Option Nat) :
    (retainHandle w o).resources = w.resources := by
  cases o with
  | none => rfl
  | some k =>
    simp only [retainHandle, iosurfaceRetain]
    split <;> rfl

theorem refs_retainHandle {w : World} {o : Option Nat} (ho : ∀ k ∈ o, w.refs k ≠ 0)
    (hb : ∀ k, w.refs k+1 < 2^32) (h : Nat) :
    (retainHandle w o).refs h = w.refs h+(held o).count h := by
  cases o with
  | none => simp [retainHandle]
  | some k =>
    obtain ⟨ios, hi, hc⟩ := backing_of_refs (ho k rfl)
    have hu : u32 (ios.refcount+1) = w.refs k+1 := by
      rw [hc]
      exact Nat.mod_eq_of_lt (hb k)
    simp only [retainHandle, iosurfaceRetain, hi, refs_setBacking, Option.elim_some, hu, held_some,
      Multiset.count_singleton]
    by_cases hh : h = k
    · simp [hh]
    · simp [hh]

theorem counted_retainHandle {w : World} (hw : w.Counted) (hb : ∀ k, w.refs k+1 < 2^32)
    (o : Option Nat) : (retainHandle w o).Counted := by
  cases o with
  | none => exact hw
  | some k =>
    simp only [retainHandle, iosurfaceRetain]
    cases hi : w.backings k with
    | none => exact hw
    | some ios =>
      refine counted_setBacking hw k ?_
      intro x hx
      obtain rfl := Option.some.inj hx
      have hlt := hb k
      simp only [World.refs, hi, Option.elim_some] at hlt
      simp only [u32, Nat.mod_eq_of_lt hlt]
      omega

theorem RefcountsExact.refs_lt {w : World} (hw : RefcountsExact w) (k : Nat) :
    w.refs k+1 < 2^32 := by
  have hcard := (Multiset.count_le_card k w.resources.handles).trans (handles_card_le w.resources)
  rw [(refcountsExact_iff.mp hw).1 k]
  simp only [maxResources] at hcard
  omega

/- A step is exact when it leaves no reference behind. Import overwrites the
   handle of an entry that is already there, and DeleteTask clears the entries
   of its task; neither releases what these held. -/
def IosurfaceCmd.LeaksNoReference (w : World) : IosurfaceCmd → Prop
  | .importPort hdr => 16 ≤ hdr.payloadSize →
      w.resources.lookup (hdr.word 8) (hdr.word 4) ≠ none →
        (w.resources.lookup (hdr.word 12) (hdr.word 0)).bind w.resources.handle = none
  | .task (.deleteTask hdr) => 4 ≤ hdr.payloadSize → w.tasks.findTask (hdr.word 0) ≠ none →
      ∀ e ∈ w.resources.entries, e.taskId = hdr.word 0 → e.hostHandle = none
  | _ => True

theorem count_held_eq_zero {o : Option Nat} (h : ∀ x, (held o).count x = 0) : o = none := by
  cases o with
  | none => rfl
  | some k => simpa using h k

/-- Pointing entry `loc` at the backing of `remote`, with one retain, balances
exactly when `loc` held nothing before. -/
theorem exact_of_alias_iff {w : World} (hw : RefcountsExact w) {loc : Nat} (remote : Nat)
    (hloc : loc < w.resources.entries.length) :
    RefcountsExact (retainHandle
        (w.withResources (w.resources.setHandle loc (w.resources.handle remote)))
        (w.resources.handle remote)) ↔ w.resources.handle loc = none := by
  obtain ⟨hc, hp⟩ := refcountsExact_iff.mp hw
  generalize hw' : w.withResources (w.resources.setHandle loc (w.resources.handle remote)) = w'
  have hrefs : ∀ x, w'.refs x = w.resources.handles.count x := by
    intro x
    rw [← hw', ← hc x]
    rfl
  have hlt : ∀ k, w'.refs k+1 < 2^32 := by
    intro k
    rw [hrefs k, ← hc k]
    exact hw.refs_lt k
  have hpos : ∀ k ∈ w.resources.handle remote, w'.refs k ≠ 0 := by
    intro k hk
    rw [hrefs k]
    exact Multiset.count_ne_zero.mpr (handle_mem_handles hk)
  have hret := refs_retainHandle hpos hlt
  have hset := fun x => congrArg (Multiset.count x)
    (handles_setHandle (w.resources.handle remote) (List.getElem?_eq_getElem hloc))
  simp only [Multiset.count_add] at hset
  have hres : w'.resources = w.resources.setHandle loc (w.resources.handle remote) := by
    rw [← hw']
    rfl
  rw [refcountsExact_iff, retainHandle_resources, hres]
  constructor
  · intro h
    apply count_held_eq_zero
    intro x
    have h1 := h.1 x
    rw [hret x, hrefs x] at h1
    have h2 := hset x
    omega
  · intro hnone
    refine ⟨fun x => ?_, counted_retainHandle (by rw [← hw']; exact hp) hlt _⟩
    have h2 := hset x
    rw [hnone, held_none, Multiset.count_zero, add_zero] at h2
    rw [hret x, hrefs x, h2]

/-- Import adds one entry and one reference; the account balances exactly when
the local entry held nothing before. -/
theorem importMachPort_exact_iff (hdr : CmdHeader) {w : World} (hw : RefcountsExact w) :
    RefcountsExact (importMachPort w hdr) ↔
      IosurfaceCmd.LeaksNoReference w (.importPort hdr) := by
  rw [importMachPort, IosurfaceCmd.LeaksNoReference]
  by_cases hs : hdr.payloadSize < 16
  · simp [hs, hw]
  simp only [hs, if_false, Nat.not_lt.mp hs, forall_const]
  cases hrem : w.resources.lookup (hdr.word 8) (hdr.word 4) with
  | none => simp [hw]
  | some remote =>
    simp only [ne_eq, reduceCtorEq, not_false_eq_true, forall_const, withResources_resources]
    generalize (w.resources.entries[remote]?.map ResourceEntry.size).getD 0 = size
    have hreg := refcountsExact_register hw (hdr.word 12) .texture (hdr.word 0) 0 size
    cases hloc : (w.resources.register (hdr.word 12) .texture (hdr.word 0) 0 size).lookup
        (hdr.word 12) (hdr.word 0) with
    | none =>
      -- a full registry: the key was not there before either
      simp [hreg, lookup_none_of_register hloc]
    | some loc =>
      rw [← handle_registered hloc]
      exact exact_of_alias_iff hreg remote (lookup_lt hloc)

/-- DeleteTask is exact when the entries it clears refer to no backing. -/
theorem deleteTask_exact_iff (dev : Device) (hdr : CmdHeader) {w : World}
    (hw : RefcountsExact w) : RefcountsExact (deleteTask dev w hdr) ↔
      IosurfaceCmd.LeaksNoReference w (.task (.deleteTask hdr)) := by
  obtain ⟨hc, hp⟩ := refcountsExact_iff.mp hw
  rw [deleteTask, IosurfaceCmd.LeaksNoReference]
  by_cases hs : hdr.payloadSize < 4
  · simp [hs, hw]
  simp only [hs, if_false, Nat.not_lt.mp hs, forall_const]
  cases hf : w.tasks.findTask (hdr.word 0) with
  | none => simp [hw]
  | some i =>
    have hcl := handles_clearTask w.resources (hdr.word 0)
    simp only [ne_eq, reduceCtorEq, not_false_eq_true, forall_const]
    constructor
    · intro h e he ht
      have hsame : (w.resources.clearTask (hdr.word 0)).handles = w.resources.handles :=
        Multiset.ext.mpr fun x => ((refcountsExact_iff.mp h).1 x).symm.trans (hc x)
      rw [hsame] at hcl
      have hz := add_eq_left.mp hcl
      cases hh : e.hostHandle with
      | none => rfl
      | some k =>
        have hm : k ∈ tally ResourceEntry.hostHandle
            (w.resources.entries.filter fun e => e.taskId == hdr.word 0) :=
          mem_tally.mpr ⟨e, List.mem_filter.mpr ⟨he, by simpa using ht⟩, hh⟩
        simp [hz] at hm
    · intro h
      have hz : tally ResourceEntry.hostHandle
          (w.resources.entries.filter fun e => e.taskId == hdr.word 0) = 0 := by
        apply tally_eq_zero
        intro e he
        obtain ⟨he, ht⟩ := List.mem_filter.mp he
        exact h e he (by simpa using ht)
      rw [hz, add_zero] at hcl
      exact refcountsExact_of_account (fun x => (hc x).trans (by rw [hcl])) hp

/-- Defining tasks touches neither registry nor backings. -/
theorem refcountsExact_congr {w w' : World} (hr : w'.resources = w.resources)
    (hb : w'.backings = w.backings) (hw : RefcountsExact w) : RefcountsExact w' := by
  obtain ⟨hc, hp⟩ := refcountsExact_iff.mp hw
  refine refcountsExact_of_account (fun x => ?_) (by unfold World.Counted; rw [hb]; exact hp)
  rw [hr, ← hc x]
  simp [World.refs, hb]

/-- One command keeps counts and entries in step exactly when it leaks nothing. -/
theorem iosurfaceStep_exact_iff {dev : Device} (hvk : dev.vk = true) (w : World)
    (c : IosurfaceCmd) (hw : RefcountsExact w) :
    RefcountsExact (iosurfaceStep dev w c) ↔ c.LeaksNoReference w := by
  cases c with
  | create hdr env => exact iff_of_true (createBacking2_exact dev env hdr hw) trivial
  | lookup hdr env => exact iff_of_true (lookupSurface_exact dev env hdr hw) trivial
  | importPort hdr => exact importMachPort_exact_iff hdr hw
  | unmap hdr =>
    refine iff_of_true ?_ trivial
    simp only [iosurfaceStep, unmapSurface]
    split
    · exact hw
    · exact dropSurface_exact hvk hw _ _
  | deleteBacking hdr =>
    refine iff_of_true ?_ trivial
    simp only [iosurfaceStep, deleteBacking2]
    split
    · exact hw
    · exact dropSurface_exact hvk hw _ _
  | task cmd =>
    cases cmd with
    | defineTask2 hdr env =>
      obtain ⟨tasks, created, h⟩ := defineTask2_writes dev env w hdr
      refine iff_of_true ?_ trivial
      simp only [iosurfaceStep, taskStep, h]
      exact refcountsExact_congr (w := w) rfl rfl hw
    | defineHostTask hdr =>
      obtain ⟨tasks, h⟩ := defineHostTask_writes w hdr
      refine iff_of_true ?_ trivial
      simp only [iosurfaceStep, taskStep, h]
      exact refcountsExact_congr (w := w) rfl rfl hw
    | deleteTask hdr => exact deleteTask_exact_iff dev hdr hw

theorem refcountsExact_start : RefcountsExact {} :=
  refcountsExact_of_account (fun _ => rfl) (fun _ _ h => by simp at h)

/-- Over any run of surface and task commands with Vulkan up: the counts are
exact in every state exactly when no command leaks a reference. -/
theorem iosurface_refcounts_exact_iff (dev : Device) (hvk : dev.vk = true) (w : World)
    (hw : RefcountsExact w) (cs : List IosurfaceCmd) :
    (∀ v ∈ visited (iosurfaceStep dev) w cs, RefcountsExact v) ↔
      AllSteps (iosurfaceStep dev) (fun v c => c.LeaksNoReference v) w cs :=
  visited_inv_iff (iosurfaceStep dev) (iosurfaceStep_exact_iff hvk) cs w hw

/-- Create surface 1, 64 by 64, at host address 5. -/
def createSurface1 : IosurfaceCmd :=
  .create (CmdHeader.of 0x27 1
    (putLe 4 1++putLe 4 64++putLe 4 64++putLe 4 80++putLe 4 256++putLe 8 16384))
    { iosurfaceCreate := some 5 }

/-- Import surface 1 of task 0 as `surface` of `task`. -/
def importSurface1 (task surface : Nat) : IosurfaceCmd :=
  .importPort (CmdHeader.of 0x29 2 (putLe 4 task++putLe 4 0++putLe 4 1++putLe 4 surface))

/-- Importing into a fresh key is covered. -/
theorem iosurface_refcounts_exact_import : RefcountsExact {} ∧
    ∀ v ∈ visited (iosurfaceStep {}) {} [createSurface1, importSurface1 3 2], RefcountsExact v :=
  ⟨refcountsExact_start, (iosurface_refcounts_exact_iff {} rfl {} refcountsExact_start
    [createSurface1, importSurface1 3 2]).mpr ⟨trivial, fun _ _ => by decide, trivial⟩⟩

/-- A surface imported onto itself counts two references for one entry. -/
theorem self_import_overcounts :
    ¬ ∀ v ∈ visited (iosurfaceStep {}) {} [createSurface1, importSurface1 0 1],
      RefcountsExact v := by
  intro h
  have he := (h (iosurfaceStep {} (iosurfaceStep {} {} createSurface1) (importSurface1 0 1))
    (by simp [visited])).exact 5 ⟨64, 64, 80, 2⟩ (by decide)
  revert he
  decide

end Lagfx
