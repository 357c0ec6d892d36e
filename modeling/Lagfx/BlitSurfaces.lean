import Lagfx.Iosurface
import Lagfx.RegistryMap
import Lagfx.RootDrain

/-! The surfaces that a blit looks up in the resource registry: those that the guest created,
under the channel that the blit came in on. -/
namespace Lagfx
open ByteMemory SlotTable Fifo

/-- A texture ref, and the registry index that a handler finds for it. -/
structure SurfaceLookup where
  ref : Nat
  found : Option Nat
deriving DecidableEq, Repr

/- The blit handlers take the current channel for the task. -/
def blitLookup (s : State) (ref : Nat) : SurfaceLookup :=
  ⟨ref, s.world.resources.lookup ref s.currentChanId⟩

def opCopyTextureToTexture (s : State) (body : List UInt8) : List SurfaceLookup :=
  if body.length < 40 then []
  else if s.dev.vk = false then []
  else [blitLookup s (le32 body 0), blitLookup s (le32 body 4)]

def opFillTextureWithColor (s : State) (body : List UInt8) : List SurfaceLookup :=
  if body.length < 92 then []
  else if s.dev.vk = false then []
  else [blitLookup s (le32 body 0)]

/-- The lookups of `lagfx_blit_inner_dispatch`; the other handlers acknowledge only. -/
def blitLookups (s : State) (call : InnerCall) : List SurfaceLookup :=
  match call.opcode with
  | 0x12f => opCopyTextureToTexture s call.body
  | 0x141 => opFillTextureWithColor s call.body
  | _ => []

/-- The lookup finds the entry of the created surface, and so does the draw path. -/
def SurfaceFound (r : Registry) (l : SurfaceLookup) : Prop :=
  ∃ i, l.found = some i ∧ r.lookup l.ref 0 = some i ∧ r.lookupTexture l.ref = some i

/-- The command takes surface `ref` of task 0 out of the registry. -/
def IosurfaceCmd.Removes (ref : Nat) : IosurfaceCmd → Prop
  | .deleteBacking hdr =>
    4 ≤ hdr.payloadSize ∧ hdr.word 0 = ref ∧ (8 ≤ hdr.payloadSize → hdr.word 4 = 0)
  | .unmap hdr => 8 ≤ hdr.payloadSize ∧ hdr.word 4 = ref ∧ hdr.word 0 = 0
  | .task (.deleteTask hdr) => 4 ≤ hdr.payloadSize ∧ hdr.word 0 = 0
  | _ => False

/-- A command of the run created the surface with a backing, and none behind it removed it. -/
def CreatedIn (dev : Device) (w : World) (cmds : List IosurfaceCmd) (ref : Nat) : Prop :=
  ∃ pre hdr env post, cmds = pre++.create hdr env :: post ∧ 28 ≤ hdr.payloadSize ∧
    hdr.word 0 = ref ∧
    (((createBacking2 dev env (pre.foldl (iosurfaceStep dev) w) hdr).resources.lookup ref 0).bind
      (createBacking2 dev env (pre.foldl (iosurfaceStep dev) w) hdr).resources.handle).isSome ∧
    ∀ cmd ∈ post, ¬cmd.Removes ref

/-- No texture of the ref is registered before the one of task 0. -/
def FirstTexture (r : Registry) (ref : Nat) : Prop :=
  ∀ i, r.lookup ref 0 = some i → ∀ e ∈ r.entries.take i, e.isTexture ref = false

/-- The surface has its entry. -/
def HasSurface (r : Registry) (ref : Nat) : Prop :=
  ∃ e ∈ r.entries, e.key = (ref, 0) ∧ e.type = .texture

theorem hasSurface_register {r : Registry} {ref : Nat} (h : HasSurface r ref)
    (ref' taskId gpuAddr size : Nat) :
    HasSurface (r.register ref' .texture taskId gpuAddr size) ref := by
  obtain ⟨-, hsame⟩ | ⟨-, e₁, hk, hv, hmem⟩ := register_cases r ref' .texture taskId gpuAddr size
  · rw [hsame]
    exact h
  · obtain ⟨e, he, hek, het⟩ := h
    by_cases hkey : e.key = (ref', taskId)
    · exact ⟨e₁, (hmem e₁).2 (.inl rfl), hk.trans (hkey.symm.trans hek),
        congrArg ResourceValue.type hv⟩
    · exact ⟨e, (hmem e).2 (.inr ⟨he, hkey⟩), hek, het⟩

/-- A registered key is there, unless the table was full. -/
theorem hasSurface_registered {r : Registry} {ref size i : Nat}
    (h : (r.register ref .texture 0 0 size).lookup ref 0 = some i) :
    HasSurface (r.register ref .texture 0 0 size) ref := by
  obtain ⟨⟨hnone, -⟩, hsame⟩ | ⟨-, e₁, hk, hv, hmem⟩ := register_cases r ref .texture 0 0 size
  · rw [hsame, hnone] at h
    cases h
  · exact ⟨e₁, (hmem e₁).2 (.inl rfl), hk, congrArg ResourceValue.type hv⟩

theorem hasSurface_setHandle {r : Registry} {ref : Nat} (h : HasSurface r ref) (i : Nat)
    (o : Option Nat) : HasSurface (r.setHandle i o) ref := by
  obtain ⟨e, he, hek, het⟩ := h
  cases hi : r.entries[i]? with
  | none =>
    have hsame : (r.setHandle i o).entries = r.entries :=
      List.modify_eq_self (List.getElem?_eq_none_iff.1 hi)
    exact ⟨e, hsame ▸ he, hek, het⟩
  | some e₀ =>
    have hmem := mem_modify_iff (r := r) (f := fun e => { e with hostHandle := o })
      (fun _ => rfl) hi
    by_cases hkey : e.key = e₀.key
    · have hsame := eq_of_key_eq he (List.mem_of_getElem? hi) hkey
      subst hsame
      exact ⟨_, (hmem _).2 (.inl rfl), hek, het⟩
    · exact ⟨e, (hmem e).2 (.inr ⟨he, hkey⟩), hek, het⟩

theorem hasSurface_unregister {r : Registry} {ref ref' taskId : Nat} (h : HasSurface r ref)
    (hne : (ref, 0) ≠ (ref', taskId)) : HasSurface (r.unregister ref' taskId) ref := by
  obtain ⟨e, he, hek, het⟩ := h
  exact ⟨e, (mem_unregister_iff r ref' taskId e).2 ⟨he, hek ▸ hne⟩, hek, het⟩

theorem hasSurface_clearTask {r : Registry} {ref taskId : Nat} (h : HasSurface r ref)
    (hne : taskId ≠ 0) : HasSurface (r.clearTask taskId) ref := by
  obtain ⟨e, he, hek, het⟩ := h
  have htask : e.taskId = 0 := congrArg Prod.snd hek
  exact ⟨e, (mem_clearTask_iff r taskId e).2 ⟨he, htask ▸ hne.symm⟩, hek, het⟩

@[simp] theorem iosurfaceDestroy_resources (w : World) (h : Nat) :
    (iosurfaceDestroy w h).resources = w.resources := rfl

theorem iosurfaceCreate_resources {env : Env} {w w' : World} {width height pixelFormat h : Nat}
    (hc : iosurfaceCreate env w width height pixelFormat = some (h, w')) :
    w'.resources = w.resources := by
  rw [iosurfaceCreate] at hc
  split_ifs at hc
  split at hc
  · cases hc
  · split_ifs at hc
    cases hc
    rfl

/-- A create registers the surface, and may write its handle. -/
theorem createBacking2_resources (dev : Device) (env : Env) (w : World) {hdr : CmdHeader}
    (hsize : 28 ≤ hdr.payloadSize) :
    (createBacking2 dev env w hdr).resources =
        w.resources.register (hdr.word 0) .texture 0 0 (hdr.quad 20) ∨
      ∃ i o, (createBacking2 dev env w hdr).resources =
        (w.resources.register (hdr.word 0) .texture 0 0 (hdr.quad 20)).setHandle i o := by
  rw [createBacking2, if_neg (Nat.not_lt.2 hsize)]
  dsimp only
  split_ifs
  · split
    · exact .inl rfl
    · rename_i h w' hc
      have hr := iosurfaceCreate_resources hc
      split
      · rename_i i _
        refine .inr ⟨i, some h, ?_⟩
        simp [hr]
      · exact .inl hr
  · exact .inl rfl

theorem lookupSurface_resources (dev : Device) (env : Env) (w : World) (hdr : CmdHeader) :
    (lookupSurface dev env w hdr).resources = w.resources ∨
      (lookupSurface dev env w hdr).resources =
        w.resources.register (hdr.word 0) .texture 0 0 0 ∨
      ∃ i o, (lookupSurface dev env w hdr).resources =
        (w.resources.register (hdr.word 0) .texture 0 0 0).setHandle i o := by
  rw [lookupSurface]
  by_cases hsize : hdr.payloadSize < 4
  · rw [if_pos hsize]
    exact .inl rfl
  rw [if_neg hsize]
  dsimp only
  split
  · exact .inl rfl
  split_ifs
  · split
    · exact .inr (.inl rfl)
    · rename_i h w' hc
      have hr := iosurfaceCreate_resources hc
      split
      · rename_i i _
        refine .inr (.inr ⟨i, some h, ?_⟩)
        simp [hr]
      · exact .inr (.inl hr)
  · exact .inr (.inl rfl)

theorem importMachPort_resources (w : World) (hdr : CmdHeader) :
    (importMachPort w hdr).resources = w.resources ∨
      ∃ size, (importMachPort w hdr).resources =
          w.resources.register (hdr.word 12) .texture (hdr.word 0) 0 size ∨
        ∃ i o, (importMachPort w hdr).resources =
          (w.resources.register (hdr.word 12) .texture (hdr.word 0) 0 size).setHandle i o := by
  rw [importMachPort]
  split_ifs
  · exact .inl rfl
  dsimp only
  split
  · exact .inl rfl
  · rename_i remote _
    refine .inr ⟨(w.resources.entries[remote]?.map ResourceEntry.size).getD 0, ?_⟩
    split
    · exact .inl rfl
    · rename_i loc _
      exact .inr ⟨loc, _, retainHandle_resources _ _⟩

theorem dropSurface_resources (dev : Device) (w : World) (surfaceId taskId : Nat) :
    (dropSurface dev w surfaceId taskId).resources = w.resources ∨
      (dropSurface dev w surfaceId taskId).resources =
        w.resources.unregister surfaceId taskId := by
  rw [dropSurface]
  split
  · exact .inl rfl
  · dsimp only
    split_ifs
    · exact .inr (by rw [withResources_resources, releaseHandle_resources])
    · exact .inr rfl

/-- Only its own removal takes a surface out. -/
theorem iosurfaceStep_hasSurface (dev : Device) (w : World) {cmd : IosurfaceCmd} {ref : Nat}
    (h : HasSurface w.resources ref) (hcmd : ¬cmd.Removes ref) :
    HasSurface (iosurfaceStep dev w cmd).resources ref := by
  cases cmd with
  | create hdr env =>
    rw [iosurfaceStep]
    by_cases hsize : 28 ≤ hdr.payloadSize
    · obtain hr | ⟨i, o, hr⟩ := createBacking2_resources dev env w hsize
      · rw [hr]
        exact hasSurface_register h _ _ _ _
      · rw [hr]
        exact hasSurface_setHandle (hasSurface_register h _ _ _ _) i o
    · rw [createBacking2, if_pos (Nat.lt_of_not_le hsize)]
      exact h
  | lookup hdr env =>
    rw [iosurfaceStep]
    obtain hr | hr | ⟨i, o, hr⟩ := lookupSurface_resources dev env w hdr
    · rw [hr]
      exact h
    · rw [hr]
      exact hasSurface_register h _ _ _ _
    · rw [hr]
      exact hasSurface_setHandle (hasSurface_register h _ _ _ _) i o
  | importPort hdr =>
    rw [iosurfaceStep]
    obtain hr | ⟨size, hr | ⟨i, o, hr⟩⟩ := importMachPort_resources w hdr
    · rw [hr]
      exact h
    · rw [hr]
      exact hasSurface_register h _ _ _ _
    · rw [hr]
      exact hasSurface_setHandle (hasSurface_register h _ _ _ _) i o
  | unmap hdr =>
    rw [iosurfaceStep, unmapSurface]
    split_ifs with hsize
    · exact h
    · obtain hr | hr := dropSurface_resources dev w (hdr.word 4) (hdr.word 0)
      · rw [hr]
        exact h
      · rw [hr]
        apply hasSurface_unregister h
        intro hk
        obtain ⟨href, htask⟩ := Prod.mk.inj hk
        exact hcmd ⟨Nat.not_lt.1 hsize, href.symm, htask.symm⟩
  | deleteBacking hdr =>
    rw [iosurfaceStep, deleteBacking2]
    split_ifs with hsize h8
    · exact h
    · obtain hr | hr := dropSurface_resources dev w (hdr.word 0) (hdr.word 4)
      · rw [hr]
        exact h
      · rw [hr]
        apply hasSurface_unregister h
        intro hk
        obtain ⟨href, htask⟩ := Prod.mk.inj hk
        exact hcmd ⟨Nat.not_lt.1 hsize, href.symm, fun _ => htask.symm⟩
    · obtain hr | hr := dropSurface_resources dev w (hdr.word 0) 0
      · rw [hr]
        exact h
      · rw [hr]
        apply hasSurface_unregister h
        intro hk
        exact hcmd ⟨Nat.not_lt.1 hsize, (Prod.mk.inj hk).1.symm, fun h => absurd h h8⟩
  | task cmd =>
    cases cmd with
    | defineTask2 hdr env =>
      obtain ⟨tasks, created, hw⟩ := defineTask2_writes dev env w hdr
      rw [iosurfaceStep, taskStep, hw]
      exact h
    | defineHostTask hdr =>
      obtain ⟨tasks, hw⟩ := defineHostTask_writes w hdr
      rw [iosurfaceStep, taskStep, hw]
      exact h
    | deleteTask hdr =>
      rw [iosurfaceStep, taskStep, deleteTask]
      by_cases hsize : hdr.payloadSize < 4
      · rw [if_pos hsize]
        exact h
      · rw [if_neg hsize]
        dsimp only
        split
        · exact h
        · exact hasSurface_clearTask h fun ht => hcmd ⟨Nat.not_lt.1 hsize, ht⟩

theorem run_hasSurface (dev : Device) {ref : Nat} (cmds : List IosurfaceCmd) :
    ∀ w : World, HasSurface w.resources ref → (∀ cmd ∈ cmds, ¬cmd.Removes ref) →
      HasSurface (cmds.foldl (iosurfaceStep dev) w).resources ref := by
  induction cmds with
  | nil => exact fun w h _ => h
  | cons cmd cmds ih =>
    intro w h hkeep
    rw [List.forall_mem_cons] at hkeep
    exact ih _ (iosurfaceStep_hasSurface dev w h hkeep.1) hkeep.2

/-- A created surface has its entry at the end of the run. -/
theorem CreatedIn.hasSurface {dev : Device} {w : World} {cmds : List IosurfaceCmd} {ref : Nat}
    (h : CreatedIn dev w cmds ref) :
    HasSurface (cmds.foldl (iosurfaceStep dev) w).resources ref := by
  obtain ⟨pre, hdr, env, post, rfl, hsize, rfl, hbacked, hkeep⟩ := h
  rw [List.foldl_append, List.foldl_cons]
  refine run_hasSurface dev post _ ?_ hkeep
  rw [iosurfaceStep]
  obtain ⟨h, hh⟩ := Option.isSome_iff_exists.1 hbacked
  obtain ⟨i, hi, -⟩ := Option.bind_eq_some_iff.1 hh
  obtain hr | ⟨j, o, hr⟩ := createBacking2_resources dev env
    (pre.foldl (iosurfaceStep dev) w) hsize
  · rw [hr] at hi ⊢
    exact hasSurface_registered hi
  · rw [hr] at hi ⊢
    have hi' : _ = some i := (lookup_modify _ j _ _ _ _).symm.trans hi
    exact hasSurface_setHandle (hasSurface_registered hi') j o

/-- The channel's lookup is the one of task 0 for channel 0 only. -/
theorem surfaceFound_iff {r : Registry} {ref chan : Nat} (h : HasSurface r ref) :
    SurfaceFound r ⟨ref, r.lookup ref chan⟩ ↔ chan = 0 ∧ FirstTexture r ref := by
  obtain ⟨e, he, hek, het⟩ := h
  constructor
  · intro hf
    obtain ⟨i, hchan, hzero, htex⟩ := hf
    obtain ⟨e₁, hi, hk⟩ := lookup_eq_some hchan
    obtain ⟨e₂, hi', hk'⟩ := lookup_eq_some hzero
    obtain rfl : e₁ = e₂ := Option.some.inj (hi.symm.trans hi')
    refine ⟨congrArg Prod.snd (hk.symm.trans hk'), ?_⟩
    intro j hj a ha
    obtain rfl : i = j := Option.some.inj (hzero.symm.trans hj)
    obtain ⟨_, _, hbefore⟩ := List.findIdx?_eq_some_iff_getElem.1 htex
    obtain ⟨k, hlt, rfl⟩ := List.mem_take_iff_getElem.1 ha
    exact eq_false_of_ne_true (hbefore k (by omega))
  · intro hf
    obtain ⟨rfl, hfirst⟩ := hf
    cases hl : r.lookup ref 0 with
    | none => exact absurd hek (lookup_eq_none.1 hl e he)
    | some i =>
      refine ⟨i, rfl, hl, ?_⟩
      obtain ⟨e₁, hi, hk⟩ := lookup_eq_some hl
      have hsame := eq_of_key_eq he (List.mem_of_getElem? hi) (hek.trans hk.symm)
      subst hsame
      obtain ⟨hlt, hget⟩ := List.getElem?_eq_some_iff.1 hi
      refine List.findIdx?_eq_some_iff_getElem.2 ⟨hlt, ?_, ?_⟩
      · have href : e.ref = ref := congrArg Prod.fst hek
        rw [hget, het, href]
        simp
      · intro j hj
        have hno := hfirst i hl _ (List.mem_take_iff_getElem.2 ⟨j, by omega, rfl⟩)
        rw [ResourceEntry.isTexture] at hno
        rw [hno]
        decide

theorem currentChanId_of_regs {s t : State} (h : s.regs = t.regs) :
    s.currentChanId = t.currentChanId := congrArg Regs.currentChanId h

/-- A channel drain runs its commands on the channel that is current. -/
theorem channelDrain_current {kind : ChannelKind} {s : State} {chan : Nat} {env : Nat → Env}
    {e : Served} (h : e ∈ (channelDrain kind s chan env).2) :
    e.before.currentChanId = s.currentChanId ∧ e.chan = chan := by
  rw [channelDrain] at h
  cases hr : ringFifoDescriptorRead s chan with
  | none => simp [hr] at h
  | some ring =>
    rw [hr] at h
    dsimp only at h
    split_ifs at h
    · simp at h
    · have hp := drain_path (channelRound kind chan ring env) channelAfter drainMaxCmds
        (s, ring.readPtr)
      obtain ⟨-, hall⟩ := hp.inv (fun p => p.1.regs = s.regs) (fun n p e hp he => by
        obtain ⟨-, hdr, -, rfl⟩ := channelRound_some he
        exact (serve_regs kind chan (env n) p.1 p.2 hdr).trans hp) rfl
      obtain ⟨n, p, hp, he⟩ := hall e h
      obtain ⟨-, hdr, -, rfl⟩ := channelRound_some he
      exact ⟨currentChanId_of_regs hp, rfl⟩

theorem rootDrain_current {s : State} {env : Nat → Env} {e : Served}
    (h : e ∈ (rootDrain s env).2) :
    e.before.currentChanId = s.currentChanId ∧ e.chan = 0 := by
  rw [rootDrain] at h
  split_ifs at h
  · simp at h
  · have hround : ∀ {n : Nat} {t : State} {e : Served},
        rootRound s.rootRing env n t = some e → ∃ hdr,
          e = serve 0 rootDispatch (env n) t (t.readPtr%s.rootRing.size) hdr := by
      intro n t e he
      rw [rootRound] at he
      split_ifs at he
      obtain ⟨hdr, -, rfl⟩ := Option.map_eq_some_iff.1 he
      exact ⟨hdr, rfl⟩
    have hp := drain_path (rootRound s.rootRing env) (rootAfter s.rootRing) drainMaxCmds s
    obtain ⟨-, hall⟩ := hp.inv (fun t => t.currentChanId = s.currentChanId)
      (fun n t e ht he => by
        obtain ⟨hdr, rfl⟩ := hround he
        have hregs := (completeStampSlot_regs (rootDispatch (env n) t hdr) 0 hdr.stamp).trans
          (rootDispatch_regs (env n) t hdr)
        exact (currentChanId_of_regs hregs).trans ht) rfl
    obtain ⟨n, t, ht, he⟩ := hall e h
    obtain ⟨hdr, rfl⟩ := hround he
    exact ⟨ht, rfl⟩

/-- Whatever door was rung, a command is served on the channel that is current. -/
theorem served_current {s : State} {offset value : Nat} {env : Nat → Env} {e : Served}
    (h : e ∈ (doorbellHandleWrite s offset value env).2) :
    e.before.currentChanId = e.chan := by
  unfold doorbellHandleWrite at h
  split at h
  case h_3 =>
    obtain ⟨hcur, hchan⟩ := rootDrain_current h
    exact hcur.trans hchan.symm
  case h_6 =>
    rw [channelDoor] at h
    dsimp only at h
    split_ifs at h with hmax hzero hfive
    · simp at h
    · obtain ⟨hcur, hchan⟩ := rootDrain_current h
      exact (hcur.trans hzero).trans hchan.symm
    · obtain ⟨hcur, hchan⟩ := channelDrain_current h
      exact hcur.trans hchan.symm
    · obtain ⟨hcur, hchan⟩ := channelDrain_current h
      exact hcur.trans hchan.symm
  all_goals simp at h

theorem blitLookups_found {s : State} {call : InnerCall} {l : SurfaceLookup}
    (h : l ∈ blitLookups s call) : l = blitLookup s l.ref := by
  rw [blitLookups] at h
  split at h
  · rw [opCopyTextureToTexture] at h
    split_ifs at h
    · simp at h
    · simp at h
    · simp only [List.mem_cons, List.not_mem_nil, or_false] at h
      obtain rfl | rfl := h
      · rfl
      · rfl
  · rw [opFillTextureWithColor] at h
    split_ifs at h
    · simp at h
    · simp at h
    · rw [List.mem_singleton.1 h]
      rfl
  · simp at h

/-- A blit of a served command, with the registry as a run of IOSurface commands left it that
created the surfaces of the blit: the lookups find their entries, and the draw path the same,
exactly on the root channel and where the entry of task 0 is the first texture of its ref. -/
theorem blit_surfaces_found_iff (s₀ : State) (offset value : Nat) (env : Nat → Env) (e : Served)
    (he : e ∈ (doorbellHandleWrite s₀ offset value env).2) (s : State)
    (hs : s.regs = e.before.regs) (w : World) (cmds : List IosurfaceCmd)
    (hw : s.world.resources = (cmds.foldl (iosurfaceStep s.dev) w).resources) (call : InnerCall)
    (hcreated : ∀ l ∈ blitLookups s call, CreatedIn s.dev w cmds l.ref) :
    (∀ l ∈ blitLookups s call, SurfaceFound s.world.resources l) ↔
      ∀ l ∈ blitLookups s call, e.chan = 0 ∧ FirstTexture s.world.resources l.ref := by
  have hchan : s.currentChanId = e.chan := (currentChanId_of_regs hs).trans (served_current he)
  apply forall₂_congr
  intro l hl
  have hsurface : HasSurface s.world.resources l.ref := hw ▸ (hcreated l hl).hasSurface
  rw [blitLookups_found hl, ← hchan]
  exact surfaceFound_iff hsurface

/- CmdExecIndirect2 rung for on channel 1, with surface 1 created. -/
def execBytes : List UInt8 := putLe 4 0x37++putLe 4 24++putLe 4 1++List.replicate 12 0

def blitState : State :=
  { ringSharedPagePfn := 1
    world := iosurfaceStep {} {} createSurface1
    mem := write (write (write (fun _ => 0) 0x1400
      (putLe 4 24++putLe 4 0++putLe 4 0++putLe 4 1++putLe 4 2)) 0x2000 (putLe 4 3))
      0x3000 execBytes }

def fillSurface1 : InnerCall := ⟨.blit, 4, 0x141, 8, putLe 4 1++List.replicate 88 0⟩

theorem surface1_created : CreatedIn {} {} [createSurface1] 1 :=
  ⟨[], _, _, [], rfl, by decide, by decide, by decide, by simp⟩

/-- What the drain of channel 1 serves: one command, in the state as it stands. -/
theorem blitState_served : (doorbellHandleWrite blitState 0x1020 1 fun _ => {}).2.map (fun e =>
    (e.chan, e.before.dev, e.before.world.resources.entries,
      e.before.world.resources.lookup 1 e.before.currentChanId)) =
    [(1, {}, blitState.world.resources.entries, none)] := by
  decide

theorem blitState_served_mem : ∃ e ∈ (doorbellHandleWrite blitState 0x1020 1 fun _ => {}).2,
    e.chan = 1 ∧ e.before.dev = {} ∧
      e.before.world.resources = blitState.world.resources ∧
      e.before.world.resources.lookup 1 e.before.currentChanId = none := by
  have hmem : (1, ({} : Device), blitState.world.resources.entries, (none : Option Nat)) ∈
      (doorbellHandleWrite blitState 0x1020 1 fun _ => {}).2.map fun e =>
        (e.chan, e.before.dev, e.before.world.resources.entries,
          e.before.world.resources.lookup 1 e.before.currentChanId) := by
    rw [blitState_served]
    exact List.mem_singleton_self _
  obtain ⟨e, he, hfields⟩ := List.mem_map.1 hmem
  simp only [Prod.mk.injEq] at hfields
  obtain ⟨hchan, hdev, hentries, hlookup⟩ := hfields
  exact ⟨e, he, hchan, hdev, registry_ext hentries, hlookup⟩

theorem blitLookups_fill {s : State} {l : SurfaceLookup} (h : l ∈ blitLookups s fillSurface1) :
    l.ref = 1 := by
  change l ∈ opFillTextureWithColor s fillSurface1.body at h
  rw [opFillTextureWithColor] at h
  split_ifs at h
  · simp at h
  · simp at h
  · rw [List.mem_singleton.1 h]
    change le32 fillSurface1.body 0 = 1
    decide

/- Surface 1 imported as 2 of task 3, then surface 2 created. -/
def importThenCreate : List IosurfaceCmd :=
  [createSurface1, importSurface1 3 2, .create (CmdHeader.of 0x27 1
    (putLe 4 2++putLe 4 64++putLe 4 64++putLe 4 80++putLe 4 256++putLe 8 16384))
    { iosurfaceCreate := some 6 }]

def importedRegistry : Registry := (importThenCreate.foldl (iosurfaceStep {}) {}).resources

/-- On channel 1 the created surface is not found; on the root channel it is, but where another
task imported a texture under its id before, the draw path finds that one. -/
theorem blit_misses_surface :
    (∃ e ∈ (doorbellHandleWrite blitState 0x1020 1 fun _ => {}).2,
      e.before.world.resources = ([createSurface1].foldl (iosurfaceStep {}) {}).resources ∧
        CreatedIn {} {} [createSurface1] 1 ∧
        blitLookup e.before 1 ∈ blitLookups e.before fillSurface1 ∧
        ¬SurfaceFound e.before.world.resources (blitLookup e.before 1)) ∧
    CreatedIn {} {} importThenCreate 2 ∧
      ¬SurfaceFound importedRegistry ⟨2, importedRegistry.lookup 2 0⟩ := by
  refine ⟨?_, ⟨[createSurface1, importSurface1 3 2], _, _, [], rfl, by decide, by decide,
    by decide, by simp⟩, ?_⟩
  · obtain ⟨e, he, -, hdev, hres, hlookup⟩ := blitState_served_mem
    refine ⟨e, he, hres, surface1_created, ?_, ?_⟩
    · change _ ∈ opFillTextureWithColor e.before fillSurface1.body
      rw [opFillTextureWithColor, if_neg (by decide), if_neg (by rw [hdev]; decide)]
      exact List.mem_singleton_self _
    · intro h
      obtain ⟨i, hi, -⟩ := h
      rw [blitLookup, hlookup] at hi
      cases hi
  · intro h
    obtain ⟨i, -, hzero, htex⟩ := h
    have hzero' : importedRegistry.lookup 2 0 = some 2 := by decide
    have htex' : importedRegistry.lookupTexture 2 = some 1 := by decide
    have hsame : (some 2 : Option Nat) = some 1 :=
      (hzero'.symm.trans hzero).trans (htex.symm.trans htex')
    cases hsame

theorem blit_on_channel1 : ∃ e ∈ (doorbellHandleWrite blitState 0x1020 1 fun _ => {}).2,
    (∀ l ∈ blitLookups e.before fillSurface1, SurfaceFound e.before.world.resources l) ↔
      ∀ l ∈ blitLookups e.before fillSurface1,
        e.chan = 0 ∧ FirstTexture e.before.world.resources l.ref := by
  obtain ⟨e, he, -, hdev, hres, -⟩ := blitState_served_mem
  refine ⟨e, he, blit_surfaces_found_iff blitState 0x1020 1 (fun _ => {}) e he e.before rfl {}
    [createSurface1] ?_ fillSurface1 ?_⟩
  · rw [hdev, hres]
    rfl
  · intro l hl
    rw [hdev, blitLookups_fill hl]
    exact surface1_created

end Lagfx
