import Lagfx.Lib.Runs
import Lagfx.ResourceRegistry

/-! Task commands: CmdDefineTask2, CmdDefineHostTask and CmdDeleteTask on the
task table, with the shell's account of the handles it gave out. -/
namespace Lagfx
open ByteMemory SlotTable Runs

def TaskTable.findTask (t : TaskTable) (taskId : Nat) : Option Nat :=
  t.entries.findIdx? fun e => e.live && e.id == taskId

/-- The first free slot, zeroed by the caller's write. -/
def TaskTable.allocTaskSlot (t : TaskTable) : Option Nat :=
  t.entries.findIdx? fun e => !e.live

/- A live id reuses its entry, a new one starts from a zeroed slot. -/
def TaskTable.findOrAlloc (t : TaskTable) (taskId : Nat) : Option (Nat × TaskEntry) :=
  match t.findTask taskId with
  | some i => some (i, t.get i)
  | none => t.allocTaskSlot.map fun i => (i, {})

def defineTask2 (dev : Device) (env : Env) (w : World) (hdr : CmdHeader) : World :=
  if hdr.payloadSize < 24 then w
  else
    let taskId := hdr.word 0
    let rootVa := hdr.quad 4
    let length := hdr.quad 12
    match w.tasks.findOrAlloc taskId with
    | none => w
    | some (i, entry) =>
      let made := if 0 < length ∧ dev.createTask = true then env.createTask else (none, 0)
      { w with
        createdTasks := w.createdTasks++made.1.toList
        tasks := w.tasks.set i { entry with
          id := taskId
          shellTask := made.1
          baseVa := if rootVa ≠ 0 then rootVa else made.2
          length := u32 length
          live := true } }

def defineHostTask (w : World) (hdr : CmdHeader) : World :=
  if hdr.payloadSize < 16 then w
  else
    let taskId := hdr.word 0 >>> 1
    match w.tasks.findOrAlloc taskId with
    | none => w
    | some (i, entry) =>
      { w with tasks := w.tasks.set i { entry with
          id := taskId
          live := true
          rootPagePfn := hdr.word 12 } }

def deleteTask (dev : Device) (w : World) (hdr : CmdHeader) : World :=
  if hdr.payloadSize < 4 then w
  else
    let taskId := hdr.word 0
    match w.tasks.findTask taskId with
    | none => w
    | some i =>
      { w with
        destroyedTasks :=
          if dev.destroyTask then w.destroyedTasks++(w.tasks.get i).shellTask.toList
          else w.destroyedTasks
        resources := w.resources.clearTask taskId
        tasks := w.tasks.set i {} }

/-- A definition writes the task table and the shell's log, nothing else. -/
theorem defineTask2_writes (dev : Device) (env : Env) (w : World) (hdr : CmdHeader) :
    ∃ tasks created,
      defineTask2 dev env w hdr = { w with tasks := tasks, createdTasks := created } := by
  rw [defineTask2]
  by_cases hs : hdr.payloadSize < 24
  · exact ⟨w.tasks, w.createdTasks, by simp [hs]⟩
  simp only [hs, if_false]
  cases w.tasks.findOrAlloc (hdr.word 0) with
  | none => exact ⟨w.tasks, w.createdTasks, rfl⟩
  | some p => exact ⟨_, _, rfl⟩

theorem defineHostTask_writes (w : World) (hdr : CmdHeader) :
    ∃ tasks, defineHostTask w hdr = { w with tasks := tasks } := by
  rw [defineHostTask]
  by_cases hs : hdr.payloadSize < 16
  · exact ⟨w.tasks, by simp [hs]⟩
  simp only [hs, if_false]
  cases w.tasks.findOrAlloc (hdr.word 0 >>> 1) with
  | none => exact ⟨w.tasks, rfl⟩
  | some p => exact ⟨_, rfl⟩

/-- Deleting a task also sweeps its resources out of the registry. -/
theorem deleteTask_writes (dev : Device) (w : World) (hdr : CmdHeader) :
    ∃ tasks resources destroyed, deleteTask dev w hdr =
      { w with tasks := tasks, resources := resources, destroyedTasks := destroyed } := by
  rw [deleteTask]
  by_cases hs : hdr.payloadSize < 4
  · exact ⟨w.tasks, w.resources, w.destroyedTasks, by simp [hs]⟩
  simp only [hs, if_false]
  cases w.tasks.findTask (hdr.word 0) with
  | none => exact ⟨w.tasks, w.resources, w.destroyedTasks, rfl⟩
  | some i => exact ⟨_, _, _, rfl⟩

def TaskEntry.liveHandle (e : TaskEntry) : Option Nat := if e.live then e.shellTask else none
def TaskEntry.liveId (e : TaskEntry) : Option Nat := if e.live then some e.id else none

/-- The non-NULL `shell_task` fields of the live entries. -/
def TaskTable.liveHandles (t : TaskTable) : Multiset Nat := tally TaskEntry.liveHandle t.entries

/-- The ids of the live entries. -/
def TaskTable.liveIds (t : TaskTable) : Multiset Nat := tally TaskEntry.liveId t.entries

theorem mem_liveIds {t : TaskTable} {id : Nat} :
    id ∈ t.liveIds ↔ ∃ e ∈ t.entries, e.live = true ∧ e.id = id := by
  simp [TaskTable.liveIds, mem_tally, TaskEntry.liveId]

theorem findTask_eq_none {t : TaskTable} {id : Nat} : t.findTask id = none ↔ id ∉ t.liveIds := by
  simp [TaskTable.findTask, List.findIdx?_eq_none_iff, mem_liveIds]

theorem findTask_eq_some {t : TaskTable} {id i : Nat} (h : t.findTask id = some i) :
    t.entries[i]? = some (t.get i) ∧ (t.get i).live = true ∧ (t.get i).id = id := by
  obtain ⟨hi, hp, _⟩ := List.findIdx?_eq_some_iff_getElem.mp h
  have hg : t.get i = t.entries[i] := by simp [TaskTable.get, List.getD_eq_getElem?_getD, hi]
  rw [hg]
  exact ⟨List.getElem?_eq_getElem hi, by simpa using hp⟩

/-- What a definition may write to: its own live entry, or a free slot. -/
theorem findOrAlloc_cases {t : TaskTable} {id i : Nat} {e : TaskEntry}
    (h : t.findOrAlloc id = some (i, e)) :
    (t.findTask id = some i ∧ e = t.get i) ∨
    (t.findTask id = none ∧ e = {} ∧ ∃ old, t.entries[i]? = some old ∧ old.live = false) := by
  rw [TaskTable.findOrAlloc] at h
  cases hf : t.findTask id with
  | some j =>
    rw [hf] at h
    obtain ⟨rfl, rfl⟩ : j = i ∧ t.get j = e := by simpa using h
    exact Or.inl ⟨rfl, rfl⟩
  | none =>
    rw [hf] at h
    obtain ⟨j, hj, hje⟩ := Option.map_eq_some_iff.mp h
    obtain ⟨rfl, rfl⟩ := Prod.mk.inj hje
    obtain ⟨hi, hp, _⟩ := List.findIdx?_eq_some_iff_getElem.mp hj
    exact Or.inr ⟨rfl, rfl, _, List.getElem?_eq_getElem hi, by simpa using hp⟩

/-- The slot a definition overwrites and the handle lost with it. -/
theorem findOrAlloc_slot {t : TaskTable} {id i : Nat} {e : TaskEntry}
    (h : t.findOrAlloc id = some (i, e)) :
    ∃ old, t.entries[i]? = some old ∧ old.liveHandle = e.shellTask ∧
      (old.liveId = some id ∨ (old.liveId = none ∧ id ∉ t.liveIds)) := by
  obtain ⟨hf, rfl⟩ | ⟨hf, rfl, old, ho, hl⟩ := findOrAlloc_cases h
  · obtain ⟨hg, hl, hid⟩ := findTask_eq_some hf
    exact ⟨t.get i, hg, by simp [TaskEntry.liveHandle, hl],
      Or.inl (by simp [TaskEntry.liveId, hl, hid])⟩
  · exact ⟨old, ho, by simp [TaskEntry.liveHandle, hl],
      Or.inr ⟨by simp [TaskEntry.liveId, hl], findTask_eq_none.mp hf⟩⟩

theorem liveHandles_set {t : TaskTable} {i : Nat} {old : TaskEntry} (e : TaskEntry)
    (h : t.entries[i]? = some old) :
    (t.set i e).liveHandles+held old.liveHandle = t.liveHandles+held e.liveHandle :=
  tally_set TaskEntry.liveHandle e h

theorem liveIds_set {t : TaskTable} {i : Nat} {old : TaskEntry} (e : TaskEntry)
    (h : t.entries[i]? = some old) :
    (t.set i e).liveIds+held old.liveId = t.liveIds+held e.liveId :=
  tally_set TaskEntry.liveId e h

/-- Defining a task leaves at most one live entry under its id. -/
theorem liveIds_define {t : TaskTable} {id i : Nat} {e new : TaskEntry}
    (h : t.findOrAlloc id = some (i, e)) (hn : new.liveId = some id) (hu : t.liveIds.Nodup) :
    (t.set i new).liveIds.Nodup := by
  obtain ⟨old, ho, -, hid⟩ := findOrAlloc_slot h
  have hs := liveIds_set new ho
  rw [hn] at hs
  obtain hid | ⟨hid, hfresh⟩ := hid
  · rw [hid] at hs
    rw [add_right_cancel hs]
    exact hu
  · rw [hid] at hs
    simp only [held_none, add_zero, held_some] at hs
    rw [hs, add_comm, Multiset.singleton_add, Multiset.nodup_cons]
    exact ⟨hfresh, hu⟩

inductive TaskCmd where
  | defineTask2 (hdr : CmdHeader) (env : Env)
  | defineHostTask (hdr : CmdHeader)
  | deleteTask (hdr : CmdHeader)

def taskStep (dev : Device) (w : World) : TaskCmd → World
  | .defineTask2 hdr env => defineTask2 dev env w hdr
  | .defineHostTask hdr => defineHostTask w hdr
  | .deleteTask hdr => deleteTask dev w hdr

/- The shell's view: what it gave out and has not got back is exactly what the
   live entries still refer to. -/
structure HandlesConserved (w : World) : Prop where
  balance : (w.createdTasks : Multiset Nat)-w.destroyedTasks = w.tasks.liveHandles
  destroyed : (w.destroyedTasks : Multiset Nat) ≤ w.createdTasks
  oneLivePerId : w.tasks.liveIds.Nodup

/- The handle an entry holds is dropped on the floor when a definition reuses
   the entry, and when there is no destroy_task to hand it to. -/
def TaskCmd.LosesNoHandle (dev : Device) (w : World) : TaskCmd → Prop
  | .defineTask2 hdr _ => 24 ≤ hdr.payloadSize →
      ∀ i, w.tasks.findTask (hdr.word 0) = some i → (w.tasks.get i).shellTask = none
  | .defineHostTask _ => True
  | .deleteTask hdr => 4 ≤ hdr.payloadSize → dev.destroyTask = false →
      ∀ i, w.tasks.findTask (hdr.word 0) = some i → (w.tasks.get i).shellTask = none

theorem handlesConserved_iff {w : World} : HandlesConserved w ↔
    (w.createdTasks : Multiset Nat) = w.destroyedTasks+w.tasks.liveHandles ∧
      w.tasks.liveIds.Nodup := by
  constructor
  · intro h
    refine ⟨?_, h.oneLivePerId⟩
    rw [← h.balance, add_tsub_cancel_of_le h.destroyed]
  · rintro ⟨h, hu⟩
    refine ⟨?_, ?_, hu⟩
    · rw [h, add_tsub_cancel_left]
    · rw [h]
      exact Multiset.le_add_right _ _

theorem held_eq_zero {o : Option Nat} : held o = 0 ↔ o = none := by
  cases o <;> simp [held]

theorem coe_append_toList (l : List Nat) (o : Option Nat) :
    ((l++o.toList : List Nat) : Multiset Nat) = (l : Multiset Nat)+held o := by
  rw [← Multiset.coe_add]
  cases o <;> rfl

/-- A redefinition conserves the handles exactly when the entry it reuses holds
none, whatever create_task returns. -/
theorem defineTask2_conserved_iff (dev : Device) (env : Env) (hdr : CmdHeader) {w : World}
    (hw : HandlesConserved w) : HandlesConserved (defineTask2 dev env w hdr) ↔
      TaskCmd.LosesNoHandle dev w (.defineTask2 hdr env) := by
  obtain ⟨hb, hu⟩ := handlesConserved_iff.mp hw
  rw [defineTask2, TaskCmd.LosesNoHandle]
  by_cases hp : hdr.payloadSize < 24
  · simp [hp, hw]
  simp only [hp, if_false, Nat.not_lt.mp hp, forall_const]
  cases hf : w.tasks.findOrAlloc (hdr.word 0) with
  | none =>
    have hnone : w.tasks.findTask (hdr.word 0) = none := by
      cases h : w.tasks.findTask (hdr.word 0) <;> simp [TaskTable.findOrAlloc, h] at hf ⊢
    simp [hw, hnone]
  | some p =>
    obtain ⟨i, e⟩ := p
    obtain ⟨old, ho, hoh, -⟩ := findOrAlloc_slot hf
    generalize hm : (if 0 < hdr.quad 12 ∧ dev.createTask = true then env.createTask
      else (none, 0)) = made
    simp only [handlesConserved_iff, coe_append_toList, hb]
    have hs := liveHandles_set { e with
      id := hdr.word 0
      shellTask := made.1
      baseVa := if hdr.quad 4 ≠ 0 then hdr.quad 4 else made.2
      length := u32 (hdr.quad 12)
      live := true } ho
    rw [hoh] at hs
    -- the balance tips by exactly the handle the entry held before
    constructor
    · rintro ⟨hbal, -⟩ j hj
      obtain ⟨hf', rfl⟩ | ⟨hf', -⟩ := findOrAlloc_cases hf
      · obtain rfl : i = j := by simpa [hf'] using hj
        rw [add_assoc] at hbal
        have hbal' := add_left_cancel hbal
        rw [← hbal'] at hs
        simpa [TaskEntry.liveHandle, held_eq_zero] using hs
      · simp [hf'] at hj
    · intro hnone
      have he : e.shellTask = none := by
        obtain ⟨hf', rfl⟩ | ⟨hf', rfl, -⟩ := findOrAlloc_cases hf
        · exact hnone i hf'
        · rfl
      rw [he, held_none, add_zero] at hs
      refine ⟨?_, liveIds_define hf (by simp [TaskEntry.liveId]) hu⟩
      rw [hs, add_assoc]
      simp [TaskEntry.liveHandle]

theorem defineHostTask_conserved (hdr : CmdHeader) {w : World} (hw : HandlesConserved w) :
    HandlesConserved (defineHostTask w hdr) := by
  obtain ⟨hb, hu⟩ := handlesConserved_iff.mp hw
  rw [defineHostTask]
  by_cases hp : hdr.payloadSize < 16
  · simpa [hp] using hw
  simp only [hp, if_false]
  cases hf : w.tasks.findOrAlloc (hdr.word 0 >>> 1) with
  | none => exact hw
  | some p =>
    obtain ⟨i, e⟩ := p
    obtain ⟨old, ho, hoh, -⟩ := findOrAlloc_slot hf
    have hs := liveHandles_set { e with
      id := hdr.word 0 >>> 1
      live := true
      rootPagePfn := hdr.word 12 } ho
    rw [hoh] at hs
    refine handlesConserved_iff.mpr ⟨?_, liveIds_define hf (by simp [TaskEntry.liveId]) hu⟩
    rw [hb]
    exact congrArg _ (add_right_cancel hs).symm

theorem deleteTask_conserved_iff (dev : Device) (hdr : CmdHeader) {w : World}
    (hw : HandlesConserved w) : HandlesConserved (deleteTask dev w hdr) ↔
      TaskCmd.LosesNoHandle dev w (.deleteTask hdr) := by
  obtain ⟨hb, hu⟩ := handlesConserved_iff.mp hw
  rw [deleteTask, TaskCmd.LosesNoHandle]
  by_cases hp : hdr.payloadSize < 4
  · simp [hp, hw]
  simp only [hp, if_false, Nat.not_lt.mp hp, forall_const]
  cases hf : w.tasks.findTask (hdr.word 0) with
  | none => simp [hw]
  | some i =>
    obtain ⟨hg, hl, -⟩ := findTask_eq_some hf
    have hs := liveHandles_set {} hg
    have hi := liveIds_set {} hg
    simp only [TaskEntry.liveHandle, TaskEntry.liveId, hl, if_true, Bool.false_eq_true, if_false,
      held_none, add_zero] at hs hi
    have hu' : (w.tasks.set i {}).liveIds.Nodup :=
      Multiset.nodup_of_le (by rw [← hi]; exact Multiset.le_add_right _ _) hu
    simp only [handlesConserved_iff, hb, hu', and_true, ← hs]
    cases dev.destroyTask with
    | true => simp [coe_append_toList, add_assoc, add_comm]
    | false => simp [held_eq_zero]

/-- One task command keeps the account balanced exactly when it loses no handle. -/
theorem taskStep_conserved_iff (dev : Device) (w : World) (c : TaskCmd)
    (hw : HandlesConserved w) : HandlesConserved (taskStep dev w c) ↔ c.LosesNoHandle dev w := by
  cases c with
  | defineTask2 hdr env => exact defineTask2_conserved_iff dev env hdr hw
  | defineHostTask hdr => exact iff_of_true (defineHostTask_conserved hdr hw) trivial
  | deleteTask hdr => exact deleteTask_conserved_iff dev hdr hw

theorem handlesConserved_start : HandlesConserved {} :=
  handlesConserved_iff.mpr ⟨rfl, by decide⟩

/-- From device creation on, over any task commands: the handles balance in
every state exactly when no command drops one. -/
theorem task_handles_conserved_iff (dev : Device) (cs : List TaskCmd) :
    (∀ w ∈ visited (taskStep dev) {} cs, HandlesConserved w) ↔
      AllSteps (taskStep dev) (fun w c => c.LosesNoHandle dev w) {} cs :=
  visited_inv_iff (taskStep dev) (taskStep_conserved_iff dev) cs {} handlesConserved_start

/-- A CmdDefineTask2 of task 7, 4096 bytes, answered with `handle`. -/
def defineTask7 (handle : Nat) : TaskCmd :=
  .defineTask2 (CmdHeader.of 0x00 1 (putLe 4 7++putLe 8 0x10000++putLe 8 4096++putLe 4 0))
    { createTask := (some handle, 0) }

/-- Task 7 is defined twice: the first handle, 1, is never given back. -/
theorem redefinition_drops_handle :
    ¬ ∀ w ∈ visited (taskStep {}) {} [defineTask7 1, defineTask7 2], HandlesConserved w := by
  intro h
  have hb := (h (taskStep {} (taskStep {} {} (defineTask7 1)) (defineTask7 2))
    (by simp [visited])).balance
  revert hb
  decide

end Lagfx
