import Lagfx.InnerOps

/-! The binding tables of a task under the commands that write them: what each slot holds
after a run, in terms of the entries the commands carry, and which slots a command leaves. -/
namespace Lagfx
open Runs ByteMemory

inductive BindTable where
  | fragmentBuffers | fragmentTextures | vertexBuffers
deriving DecidableEq, Repr

def DrawState.slots (d : DrawState) : BindTable → List BindingSlot
  | .fragmentBuffers => d.fragmentBuffers
  | .fragmentTextures => d.fragmentTextures
  | .vertexBuffers => d.vertexBuffers

inductive BindOp where
  | setFragmentBuffers | setFragmentBufferOffset | setFragmentTextures
  | setVertexBuffers | setVertexBufferOffset
deriving DecidableEq, Repr

def BindOp.desc : BindOp → ComputeInnerOp
  | .setFragmentBuffers => opSetFragmentBuffers
  | .setFragmentBufferOffset => opSetFragmentBufferOffset
  | .setFragmentTextures => opSetFragmentTextures
  | .setVertexBuffers => opSetVertexBuffers
  | .setVertexBufferOffset => opSetVertexBufferOffset

def BindOp.table : BindOp → BindTable
  | .setFragmentBuffers | .setFragmentBufferOffset => .fragmentBuffers
  | .setFragmentTextures => .fragmentTextures
  | .setVertexBuffers | .setVertexBufferOffset => .vertexBuffers

/-- A command with entries; the others carry one offset. -/
def BindOp.entryBytes : BindOp → Option Nat
  | .setFragmentBuffers | .setVertexBuffers => some 12
  | .setFragmentTextures => some 4
  | .setFragmentBufferOffset | .setVertexBufferOffset => none

structure BindCmd where
  op : BindOp
  body : List UInt8

/-- The command on a task, as the compute dispatcher serves it. -/
def bindStep (taskId : Nat) (w : InnerWorld) (e : InnerEnv × BindCmd) : InnerWorld :=
  computeInnerDispatch e.1 w taskId e.2.op.desc.opcode e.2.body

/- What the commands say: slots are unbounded integers here. -/

/-- An entry names the ref of a slot and its offset, an offset command the offset alone. -/
structure SlotWrite where
  table : BindTable
  slot : Nat
  ref : Option Nat
  offset : Nat
deriving DecidableEq, Repr

def BindCmd.first (c : BindCmd) : Nat := le32 c.body 0

def BindCmd.count (c : BindCmd) : Nat :=
  match c.op.entryBytes with
  | some _ => le32 c.body 4
  | none => 1

/-- Entry `i`. Textures have no offset. -/
def BindCmd.entry (c : BindCmd) (i : Nat) : SlotWrite :=
  match c.op.entryBytes with
  | some n => ⟨c.op.table, c.first+i, some (le32 c.body (8+i*n)),
      if n = 12 then le64 c.body (8+i*n+4) else 0⟩
  | none => ⟨c.op.table, c.first+i, none, le64 c.body 4⟩

def BindCmd.needed (c : BindCmd) : Nat :=
  match c.op.entryBytes with
  | some n => 8+c.count*n
  | none => 12

/-- The body is long enough for its count. -/
def BindCmd.Accepted (c : BindCmd) : Prop := c.needed ≤ c.body.length

instance (c : BindCmd) : Decidable c.Accepted := inferInstanceAs (Decidable (_ ≤ _))

def BindCmd.writes (c : BindCmd) : List SlotWrite :=
  if c.Accepted then (List.range c.count).map c.entry else []

/-- A slot after some writes to it: the ref of the last entry, and the offset of the last
entry or offset command. -/
def BindingSlot.after (s : BindingSlot) (ws : List SlotWrite) : BindingSlot where
  ref := (ws.filterMap SlotWrite.ref).getLast?.getD s.ref
  offset := (ws.map SlotWrite.offset).getLast?.getD s.offset
  valid := ((ws.filterMap SlotWrite.ref).getLast?.map fun r => decide (r ≠ 0)).getD s.valid

def writesTo (t : BindTable) (s : Nat) (ws : List SlotWrite) : List SlotWrite :=
  ws.filter fun x => x.table = t ∧ x.slot = s

theorem writesTo_append (t : BindTable) (s : Nat) (us vs : List SlotWrite) :
    writesTo t s (us++vs) = writesTo t s us++writesTo t s vs :=
  List.filter_append us vs

/-- The tables of `d'` are those of `d` under the writes. -/
def HoldsLast (d d' : DrawState) (ws : List SlotWrite) : Prop :=
  ∀ t s, s < maxBindingSlots →
    (d'.slots t)[s]? = (d.slots t)[s]?.map fun x => x.after (writesTo t s ws)

/-- A rejected command changes nothing, and an accepted one no slot but those it names. -/
structure ChangesOwnSlots (taskId : Nat) (w : InnerWorld) (e : InnerEnv × BindCmd) : Prop where
  rejected : ¬e.2.Accepted → bindStep taskId w e = w
  others : ∀ i, i ≠ taskId → (bindStep taskId w e).draws.get i = w.draws.get i
  outside : ∀ t s, s < maxBindingSlots →
    ¬(t = e.2.op.table ∧ e.2.first ≤ s ∧ s < e.2.first+e.2.count) →
      (((bindStep taskId w e).draws.get taskId).slots t)[s]? = ((w.draws.get taskId).slots t)[s]?

/-- The last entry lies below `2^32`. -/
def BindCmd.Unwrapped (c : BindCmd) : Prop := c.Accepted → c.first+c.count ≤ 2^32

instance (c : BindCmd) : Decidable c.Unwrapped := inferInstanceAs (Decidable (_ → _))

/-- After the commands the tables hold the last entries, and each of them changed no slot
but its own. -/
def BindingsFollow (taskId : Nat) (w : InnerWorld) (es : List (InnerEnv × BindCmd)) : Prop :=
  AllSteps (bindStep taskId) (ChangesOwnSlots taskId) w es ∧
    HoldsLast (w.draws.get taskId) ((es.foldl (bindStep taskId) w).draws.get taskId)
      (es.flatMap fun e => e.2.writes)

/- Slots and writes. -/

theorem after_append (s : BindingSlot) (us vs : List SlotWrite) :
    s.after (us++vs) = (s.after us).after vs := by
  simp only [BindingSlot.after, List.filterMap_append, List.map_append, List.getLast?_append,
    BindingSlot.mk.injEq]
  refine ⟨?_, ?_, ?_⟩
  · cases (vs.filterMap SlotWrite.ref).getLast? <;> rfl
  · cases (vs.map SlotWrite.offset).getLast? <;> rfl
  · cases (vs.filterMap SlotWrite.ref).getLast? <;> rfl

theorem map_after_nil (o : Option BindingSlot) : (o.map fun x => x.after []) = o := by
  cases o <;> rfl

theorem map_after_append (o : Option BindingSlot) (us vs : List SlotWrite) :
    (o.map fun x => x.after (us++vs)) = (o.map fun x => x.after us).map fun x => x.after vs := by
  cases o with
  | none => rfl
  | some x => rw [Option.map_some, Option.map_some, Option.map_some, after_append]

theorem HoldsLast.refl (d : DrawState) : HoldsLast d d [] :=
  fun _ _ _ => (map_after_nil _).symm

theorem HoldsLast.trans {d d' d'' : DrawState} {us vs : List SlotWrite} (h : HoldsLast d d' us)
    (h' : HoldsLast d' d'' vs) : HoldsLast d d'' (us++vs) := by
  intro t s hs
  rw [h' t s hs, h t s hs, ← map_after_append, writesTo_append]

/- One command. -/

/-- What the command does to its table. -/
def BindCmd.apply (c : BindCmd) (slots : List BindingSlot) : List BindingSlot :=
  match c.op.entryBytes with
  | some n => bindSlots n (fun e => if n = 12 then le64 c.body (e+4) else 0) c.body slots
  | none => bindOffset c.body slots

theorem desc_slots (c : BindCmd) (env : InnerEnv) (task : TaskEntry) (d : DrawState)
    (t : BindTable) : (c.op.desc.effect env c.body task d).slots t =
      if t = c.op.table then c.apply (d.slots t) else d.slots t := by
  obtain ⟨op, body⟩ := c
  cases op <;> cases t <;> rfl

theorem desc_accepts (c : BindCmd) : c.op.desc.accepts c.body = decide c.Accepted := by
  obtain ⟨op, body⟩ := c
  cases op with
  | setFragmentBufferOffset => rfl
  | setVertexBufferOffset => rfl
  | _ => exact decide_eq_decide.2 (and_iff_right_of_imp fun h => le_trans (Nat.le_add_right _ _) h)

/-- The writes that land in slot `s`, their slots taken as 32-bit words. -/
def landing (t : BindTable) (s : Nat) (ws : List SlotWrite) : List SlotWrite :=
  ws.filter fun x => x.table = t ∧ u32 x.slot = s

theorem landing_append (t : BindTable) (s : Nat) (us vs : List SlotWrite) :
    landing t s (us++vs) = landing t s us++landing t s vs :=
  List.filter_append us vs

/-- One slot under one entry. -/
theorem bindEntry_slot {c : BindCmd} {n : Nat} (hn : c.op.entryBytes = some n) {s : Nat}
    (hs : s < maxBindingSlots) (slots : List BindingSlot) (i : Nat) :
    (if maxBindingSlots ≤ u32 (c.first+i) then slots
      else slots.set (u32 (c.first+i)) ⟨le32 c.body (8+i*n),
        if n = 12 then le64 c.body (8+i*n+4) else 0, decide (le32 c.body (8+i*n) ≠ 0)⟩)[s]? =
      slots[s]?.map fun x => x.after (landing c.op.table s [c.entry i]) := by
  have hentry : c.entry i = ⟨c.op.table, c.first+i, some (le32 c.body (8+i*n)),
      if n = 12 then le64 c.body (8+i*n+4) else 0⟩ := by rw [BindCmd.entry, hn]
  by_cases hslot : u32 (c.first+i) = s
  · have hland : landing c.op.table s [c.entry i] = [c.entry i] := by simp [landing, hentry, hslot]
    rw [hland, hentry, if_neg (by omega), hslot, List.getElem?_set_self']
    rfl
  · have hland : landing c.op.table s [c.entry i] = [] := by simp [landing, hentry, hslot]
    rw [hland, map_after_nil]
    by_cases hpast : maxBindingSlots ≤ u32 (c.first+i)
    · rw [if_pos hpast]
    · rw [if_neg hpast, List.getElem?_set_ne hslot]

/-- One slot under the entries of a command. -/
theorem bindSlots_slot {c : BindCmd} {n : Nat} (hn : c.op.entryBytes = some n) {s : Nat}
    (hs : s < maxBindingSlots) (slots : List BindingSlot) :
    (bindSlots n (fun e => if n = 12 then le64 c.body (e+4) else 0) c.body slots)[s]? =
      slots[s]?.map fun x =>
        x.after (landing c.op.table s ((List.range (le32 c.body 4)).map c.entry)) := by
  rw [bindSlots]
  generalize le32 c.body 4 = m
  induction m with
  | zero => exact (map_after_nil _).symm
  | succ m ih =>
    rw [List.range_succ, List.foldl_append, List.map_append, landing_append, map_after_append, ← ih]
    exact bindEntry_slot hn hs _ m

/-- One slot under an offset command. -/
theorem bindOffset_slot {c : BindCmd} (hn : c.op.entryBytes = none) {s : Nat}
    (hs : s < maxBindingSlots) (slots : List BindingSlot) :
    (bindOffset c.body slots)[s]? =
      slots[s]?.map fun x => x.after (writesTo c.op.table s [c.entry 0]) := by
  have hentry : c.entry 0 = ⟨c.op.table, c.first, none, le64 c.body 4⟩ := by
    rw [BindCmd.entry, hn, Nat.add_zero]
  rw [bindOffset]
  by_cases hslot : c.first = s
  · have hone : writesTo c.op.table s [c.entry 0] = [c.entry 0] := by simp [writesTo, hentry, hslot]
    have hlt : le32 c.body 0 < maxBindingSlots := lt_of_eq_of_lt hslot hs
    rw [hone, hentry, if_neg (Nat.not_le.2 hlt), List.getElem?_modify]
    exact congrArg (fun f => Option.map f slots[s]?) (funext fun x => if_pos hslot)
  · have hno : writesTo c.op.table s [c.entry 0] = [] := by simp [writesTo, hentry, hslot]
    rw [hno, map_after_nil]
    by_cases hpast : maxBindingSlots ≤ le32 c.body 0
    · rw [if_pos hpast]
    · rw [if_neg hpast, List.getElem?_modify]
      exact (congrArg (fun f => Option.map f slots[s]?) (funext fun x => if_neg hslot)).trans
        Option.map_id'

theorem entry_table (c : BindCmd) (i : Nat) : (c.entry i).table = c.op.table := by
  rw [BindCmd.entry]
  cases c.op.entryBytes with
  | some n => rfl
  | none => rfl

theorem entry_slot (c : BindCmd) (i : Nat) : (c.entry i).slot = c.first+i := by
  rw [BindCmd.entry]
  cases c.op.entryBytes with
  | some n => rfl
  | none => rfl

/-- Entries below `2^32` land where they say. -/
theorem landing_eq {c : BindCmd} {m : Nat} (h : c.first+m ≤ 2^32) (t : BindTable) (s : Nat) :
    landing t s ((List.range m).map c.entry) = writesTo t s ((List.range m).map c.entry) := by
  refine List.filter_congr fun x hx => ?_
  obtain ⟨i, hi, rfl⟩ := List.mem_map.1 hx
  have hlt := List.mem_range.1 hi
  rw [entry_slot, u32, Nat.mod_eq_of_lt (by omega)]

/-- No entry of a command is for a slot it does not name. -/
theorem writesTo_outside {c : BindCmd} {t : BindTable} {s : Nat}
    (h : ¬(t = c.op.table ∧ c.first ≤ s ∧ s < c.first+c.count)) : writesTo t s c.writes = [] := by
  rw [writesTo, List.filter_eq_nil_iff]
  intro x hx
  rw [BindCmd.writes] at hx
  split_ifs at hx
  · obtain ⟨i, hi, rfl⟩ := List.mem_map.1 hx
    have hlt := List.mem_range.1 hi
    rw [decide_eq_true_eq, entry_table, entry_slot]
    exact fun hand => h ⟨hand.1.symm, by omega, by omega⟩
  · exact absurd hx List.not_mem_nil

theorem apply_slot {c : BindCmd} (hc : c.Accepted) (hu : c.Unwrapped) {s : Nat}
    (hs : s < maxBindingSlots) (slots : List BindingSlot) :
    (c.apply slots)[s]? = slots[s]?.map fun x => x.after (writesTo c.op.table s c.writes) := by
  have hle := hu hc
  rw [BindCmd.writes, if_pos hc, ← landing_eq hle]
  cases hn : c.op.entryBytes with
  | some n =>
    rw [BindCmd.apply, BindCmd.count, hn]
    exact bindSlots_slot hn hs slots
  | none =>
    have hcount : c.count = 1 := by rw [BindCmd.count, hn]
    rw [landing_eq hle, BindCmd.apply, hn, hcount]
    exact bindOffset_slot hn hs slots

/-- An accepted command whose entries do not wrap leaves the tables it describes. -/
theorem desc_holds {c : BindCmd} (hc : c.Accepted) (hu : c.Unwrapped) (env : InnerEnv)
    (task : TaskEntry) (d : DrawState) :
    HoldsLast d (c.op.desc.effect env c.body task d) c.writes := by
  intro t s hs
  rw [desc_slots]
  by_cases ht : t = c.op.table
  · rw [if_pos ht, ht]
    exact apply_slot hc hu hs _
  · rw [if_neg ht, writesTo_outside (fun hand => ht hand.1), map_after_nil]

/- Runs. -/

theorem bindStep_eq {taskId : Nat} {w : InnerWorld} (hlt : taskId < maxTasks)
    (hlive : (w.world.tasks.get taskId).live = true) (e : InnerEnv × BindCmd) :
    bindStep taskId w e =
      if e.2.Accepted then w.updateSlot taskId (e.2.op.desc.effect e.1 e.2.body) else w := by
  have hfind : findComputeInnerOpDesc e.2.op.desc.opcode = some e.2.op.desc := by
    cases e.2.op <;> rfl
  rw [bindStep, computeInnerDispatch, hfind]
  simp only [desc_accepts, decide_eq_true_eq, InnerWorld.onSlot, Nat.not_le.2 hlt, hlive,
    Bool.true_eq_false, if_false]

theorem bindStep_world {taskId : Nat} {w : InnerWorld} (hlt : taskId < maxTasks)
    (hlive : (w.world.tasks.get taskId).live = true) (e : InnerEnv × BindCmd) :
    (bindStep taskId w e).world = w.world := by
  rw [bindStep_eq hlt hlive]
  split_ifs <;> rfl

theorem bindStep_holds {taskId : Nat} {w : InnerWorld} (hlt : taskId < maxTasks)
    (hlive : (w.world.tasks.get taskId).live = true) {e : InnerEnv × BindCmd}
    (hu : e.2.Unwrapped) :
    HoldsLast (w.draws.get taskId) ((bindStep taskId w e).draws.get taskId) e.2.writes := by
  rw [bindStep_eq hlt hlive]
  by_cases hc : e.2.Accepted
  · rw [if_pos hc, InnerWorld.updateSlot, DrawTable.get_set hlt, if_pos rfl]
    exact desc_holds hc hu e.1 _ _
  · rw [if_neg hc, BindCmd.writes, if_neg hc]
    exact HoldsLast.refl _

theorem bindStep_own {taskId : Nat} {w : InnerWorld} (hlt : taskId < maxTasks)
    (hlive : (w.world.tasks.get taskId).live = true) {e : InnerEnv × BindCmd}
    (hu : e.2.Unwrapped) : ChangesOwnSlots taskId w e where
  rejected hc := by rw [bindStep_eq hlt hlive, if_neg hc]
  others i hi := by
    rw [bindStep_eq hlt hlive]
    split_ifs
    · rw [InnerWorld.updateSlot, DrawTable.get_set hlt, if_neg (Ne.symm hi)]
    · rfl
  outside t s hs hout := by
    rw [bindStep_holds hlt hlive hu t s hs, writesTo_outside hout, map_after_nil]

/-- Over every run of binding commands on a live task: where no accepted command names a
slot from `2^32` on, each slot holds the last entry for it with the last offset since, and
no command changes a slot it does not name. -/
theorem bindings_follow {taskId : Nat} (hlt : taskId < maxTasks) (es : List (InnerEnv × BindCmd)) :
    ∀ w : InnerWorld, (w.world.tasks.get taskId).live = true → (∀ e ∈ es, e.2.Unwrapped) →
      BindingsFollow taskId w es := by
  induction es with
  | nil => exact fun w _ _ => ⟨trivial, HoldsLast.refl _⟩
  | cons e es ih =>
    intro w hlive hu
    obtain ⟨hue, hues⟩ := List.forall_mem_cons.1 hu
    have hlive' : ((bindStep taskId w e).world.tasks.get taskId).live = true := by
      rw [bindStep_world hlt hlive]
      exact hlive
    obtain ⟨hsteps, hholds⟩ := ih _ hlive' hues
    exact ⟨⟨bindStep_own hlt hlive hue, hsteps⟩, (bindStep_holds hlt hlive hue).trans hholds⟩

/-- A world in which the task is live and has this slot in each table. -/
def boundWorld (taskId : Nat) (x : BindingSlot) : InnerWorld where
  world := { tasks := TaskTable.empty.set taskId { live := true } }
  draws := DrawTable.empty.set taskId
    { vertexBuffers := List.replicate maxBindingSlots x
      fragmentBuffers := List.replicate maxBindingSlots x
      fragmentTextures := List.replicate maxBindingSlots x }

theorem boundWorld_live {taskId : Nat} (hlt : taskId < maxTasks) (x : BindingSlot) :
    ((boundWorld taskId x).world.tasks.get taskId).live = true := by
  rw [boundWorld, TaskTable.get, TaskTable.set, List.getD_eq_getElem?_getD,
    List.getElem?_set_self (by rw [TaskTable.size]; exact hlt)]
  rfl

theorem boundWorld_slot {taskId : Nat} (hlt : taskId < maxTasks) (x : BindingSlot)
    (t : BindTable) : (((boundWorld taskId x).draws.get taskId).slots t)[0]? = some x := by
  rw [boundWorld, DrawTable.get_set hlt, if_pos rfl]
  cases t <;> rfl

theorem first_lt (c : BindCmd) : c.first < 2^32 := le32_lt c.body 0

/-- Among entries that reach `2^32` one lands in slot 0. -/
theorem wrapped_ref {c : BindCmd} {n : Nat} (hn : c.op.entryBytes = some n)
    (h : 2^32 < c.first+c.count) :
    ∃ r, ((landing c.op.table 0 ((List.range c.count).map c.entry)).filterMap
      SlotWrite.ref).getLast? = some r := by
  have hfirst := first_lt c
  have hentry : c.entry (2^32-c.first) ∈
      landing c.op.table 0 ((List.range c.count).map c.entry) := by
    rw [landing, List.mem_filter, decide_eq_true_eq, entry_table, entry_slot,
      Nat.add_sub_cancel' hfirst.le]
    refine ⟨List.mem_map_of_mem (List.mem_range.2 (by omega)), rfl, ?_⟩
    rw [u32, Nat.mod_self]
  have hmem := List.mem_filterMap.2 ⟨c.entry (2^32-c.first), hentry,
    show (c.entry (2^32-c.first)).ref = some (le32 c.body (8+(2^32-c.first)*n)) by
      rw [BindCmd.entry, hn]⟩
  exact Option.isSome_iff_exists.1 (List.getLast?_isSome.2 (List.ne_nil_of_mem hmem))

/-- A command keeps to its own slots, whatever they hold before, exactly when none of its
entries is for a slot from `2^32` on. -/
theorem ownSlots_iff {taskId : Nat} (hlt : taskId < maxTasks) (e : InnerEnv × BindCmd) :
    (∀ w : InnerWorld, (w.world.tasks.get taskId).live = true → ChangesOwnSlots taskId w e) ↔
      e.2.Unwrapped := by
  refine ⟨fun hall hc => ?_, fun hu w hlive => bindStep_own hlt hlive hu⟩
  by_contra hwrap
  have hfirst := first_lt e.2
  cases hn : e.2.op.entryBytes with
  | none =>
    have hone : e.2.count = 1 := by rw [BindCmd.count, hn]
    omega
  | some n =>
    obtain ⟨r, hr⟩ := wrapped_ref hn (Nat.not_le.1 hwrap)
    -- a slot with another ref than the one that lands there
    obtain ⟨x, hx⟩ : ∃ x : BindingSlot, x.ref ≠ r := ⟨⟨r+1, 0, false⟩, by simp⟩
    have hlive := boundWorld_live hlt x
    have hcount : e.2.count = le32 e.2.body 4 := by rw [BindCmd.count, hn]
    have hword := le32_lt e.2.body 4
    have hkept := (hall _ hlive).outside e.2.op.table 0 (by decide)
      (fun hand => by have hzero := hand.2.1; omega)
    rw [boundWorld_slot hlt, bindStep_eq hlt hlive, if_pos hc, InnerWorld.updateSlot,
      DrawTable.get_set hlt, if_pos rfl, desc_slots, if_pos rfl, BindCmd.apply, hn] at hkept
    have hslot := bindSlots_slot hn (show 0 < maxBindingSlots by decide)
      (((boundWorld taskId x).draws.get taskId).slots e.2.op.table)
    rw [boundWorld_slot hlt, Option.map_some, ← hcount] at hslot
    have hafter := Option.some.inj (hslot.symm.trans hkept)
    rw [BindingSlot.after, hr] at hafter
    exact hx (congrArg BindingSlot.ref hafter).symm

/-- A command with two entries, and with them the ref 9 at offset 64. -/
def twoEntries (op : BindOp) (first : Nat) : InnerEnv × BindCmd :=
  ({}, ⟨op, putLe 4 first++putLe 4 2++putLe 4 7++putLe 8 0++putLe 4 9++putLe 8 64⟩)

theorem bindings_follow_vertex : BindingsFollow 0 (boundWorld 0 {})
    [twoEntries .setVertexBuffers 1, ({}, ⟨.setVertexBufferOffset, putLe 4 2++putLe 8 16⟩)] :=
  bindings_follow (by decide) _ _ (boundWorld_live (by decide) _) (by decide)

/-- The second entry, for slot `2^32`, rebinds slot 0. -/
theorem wrapped_entry_rebinds :
    ¬BindingsFollow 0 (boundWorld 0 {}) [twoEntries .setFragmentBuffers (2^32-1)] ∧
      (((bindStep 0 (boundWorld 0 {}) (twoEntries .setFragmentBuffers (2^32-1))).draws.get
        0).fragmentBuffers)[0]? = some ⟨9, 64, true⟩ := by
  have hslot : (((bindStep 0 (boundWorld 0 {}) (twoEntries .setFragmentBuffers (2^32-1))).draws.get
      0).fragmentBuffers)[0]? = some ⟨9, 64, true⟩ := by decide
  refine ⟨fun h => ?_, hslot⟩
  have hkept := h.1.1.outside .fragmentBuffers 0 (by decide) (by decide)
  rw [DrawState.slots, hslot, boundWorld_slot (by decide)] at hkept
  exact absurd hkept (by decide)

end Lagfx
