import Lagfx.DrawDescriptors
import Lagfx.PendingPipeline

/-! The objects one descriptor-set build creates: a descriptor set, and a transient buffer
with its memory for each storage binding, stored in arrays the draw site owns. -/
namespace Lagfx
open SlotTable

/-- VkBuffer tbuf[16] and VkDeviceMemory tmem[16] of the draw site. -/
def transientSlots : Nat := 16

/-- Where making a padded storage buffer stops. -/
inductive BufferMade where
  | notCreated
  | noMemoryType
  | noMemory
  | notBound
  | made
deriving DecidableEq, Repr

/- Answers of one build: the pool and the layout, the set allocation, and for the entry at
   each place of the list its texture view or its buffer. -/
structure BuildOutcome where
  poolReady : Bool := true
  layout : Bool := true
  allocatesSet : Bool := true
  view : Nat → Bool := fun _ => true
  defaultSampler : Bool := true
  buffer : Nat → BufferMade := fun _ => .made

/-- lagfx_vk_make_host_storage_buffer_padded: what it created in vain it destroys itself. -/
def makeHostStorageBufferPadded (h : Handles) : BufferMade → Handles × Option (Nat × Nat)
  | .notCreated => (h, none)
  | .noMemoryType | .noMemory => (h.create.destroy (some h.next), none)
  | .notBound => ((h.create.create.destroy (some (h.next+1))).destroy (some h.next), none)
  | .made => (h.create.create, some (h.next, h.next+1))

/- `stored` are the indices written in the two arrays, in order; a store past the end is
   only recorded. -/
structure BuildState where
  handles : Handles
  outBufs : List (Option Nat) := List.replicate transientSlots none
  outMems : List (Option Nat) := List.replicate transientSlots none
  outN : Nat := 0
  stored : List Nat := []
  nw : Nat := 0

/-- out_bufs[*out_n] = vb; out_mems[*out_n] = vm; (*out_n)++. -/
def BuildState.append (st : BuildState) (b : Nat × Nat) : BuildState :=
  { st with
    outBufs := st.outBufs.set st.outN (some b.1)
    outMems := st.outMems.set st.outN (some b.2)
    stored := st.stored++[st.outN]
    outN := st.outN+1 }

def BuildState.write (st : BuildState) : BuildState := { st with nw := st.nw+1 }

/-- Destroys the first out_n buffers with their memories, then frees the set. -/
def BuildState.release (st : BuildState) (set : Nat) : Handles :=
  ((List.range st.outN).foldl (fun h k =>
    (h.destroy (st.outBufs.getD k none)).destroy (st.outMems.getD k none)) st.handles).destroy
      (some set)

/-- The clean-up before each return of VK_NULL_HANDLE. -/
def BuildState.cleanUp (st : BuildState) (set : Nat) : BuildState :=
  { st with handles := st.release set, outN := 0 }

/-- One entry of the list; `none` beside the state means its set has failed. -/
def bindEntry (o : BuildOutcome) (i : Nat) (b : BoundBinding) (st : BuildState) :
    BuildState × Option Unit :=
  match b.kind with
  | .sampledImage => if o.view i then (st.write, some ()) else (st, none)
  | .sampler => if o.defaultSampler then (st.write, some ()) else (st, none)
  | .storageBuffer =>
    let r := makeHostStorageBufferPadded st.handles (o.buffer i)
    match r.2 with
    | some vb => (({ st with handles := r.1 }.append vb).write, some ())
    | none => ({ st with handles := r.1 }, none)
  | .unknown => (st, some ())

/-- The loop from entry `i` on, and what stands behind it. -/
def bindEntries (o : BuildOutcome) (set : Nat) :
    List BoundBinding → Nat → BuildState → BuildState × Option Nat
  | [], _, st => if st.nw = 0 then (st.cleanUp set, none) else (st, some set)
  | b :: bs, i, st =>
    let r := bindEntry o i b st
    match r.2 with
    | some () => bindEntries o set bs (i+1) r.1
    | none => (r.1.cleanUp set, none)

/-- lagfx_build_draw_descriptor_set with the arrays of its caller. -/
def buildDescriptorSet (h : Handles) (o : BuildOutcome) (bindings : List BoundBinding) :
    BuildState × Option Nat :=
  if o.poolReady = false ∨ o.layout = false ∨ bindings = [] ∨ o.allocatesSet = false then
    (⟨h, List.replicate transientSlots none, List.replicate transientSlots none, 0, [], 0⟩, none)
  else bindEntries o h.next (bindings.take 32) 0 { handles := h.create }

/-- The buffers and memories of a list of pairs. -/
def ownedPairs (out : List (Nat × Nat)) : Multiset Nat :=
  (out.map fun b => {b.1}+{b.2}).sum

/-- The first out_n entries of the arrays are these pairs. -/
structure BuildState.Holds (st : BuildState) (out : List (Nat × Nat)) : Prop where
  outN : st.outN = out.length
  bufs : ∀ k : Nat, k < out.length → st.outBufs[k]? = some (out[k]?.map Prod.fst)
  mems : ∀ k : Nat, k < out.length → st.outMems[k]? = some (out[k]?.map Prod.snd)

/- What a caller may rely on: no store past the arrays; with a set, out_n counts the live
   buffers and the arrays hold them; without one, everything created is destroyed again. -/
def BuildRight (live : Multiset Nat) (r : BuildState × Option Nat) : Prop :=
  (∀ k ∈ r.1.stored, k < transientSlots) ∧
    match r.2 with
    | some set => ∃ out, r.1.Holds out ∧ r.1.handles.Account (live+{set}+ownedPairs out)
    | none => r.1.outN = 0 ∧ r.1.handles.Account live

/-- The entry does not fail the set. -/
def BuildOutcome.answers (o : BuildOutcome) (i : Nat) (b : BoundBinding) : Bool :=
  match b.kind with
  | .sampledImage => o.view i
  | .sampler => o.defaultSampler
  | .storageBuffer => o.buffer i = .made
  | .unknown => true

/-- Storage bindings ahead of the first entry that fails. -/
def transients (o : BuildOutcome) (bs : List BoundBinding) (i : Nat) : Nat :=
  ((bs.zipIdx i).takeWhile fun p => o.answers p.2 p.1).countP fun p => p.1.kind = .storageBuffer

/-- The set is allocated and the loop runs. -/
def BuildOutcome.starts (o : BuildOutcome) (bs : List BoundBinding) : Prop :=
  o.poolReady = true ∧ o.layout = true ∧ bs ≠ [] ∧ o.allocatesSet = true

variable {o : BuildOutcome}

theorem transients_cons (b : BoundBinding) (bs : List BoundBinding) (i : Nat) :
    transients o (b :: bs) i = if o.answers i b = true then
      transients o bs (i+1)+(if b.kind = .storageBuffer then 1 else 0) else 0 := by
  rw [transients, List.zipIdx_cons, List.takeWhile_cons]
  by_cases hb : o.answers i b = true
  · rw [if_pos hb, if_pos hb, List.countP_cons, transients]
    simp
  · rw [if_neg hb, if_neg hb]
    rfl

/- What one entry does: it fails and has kept the account, is passed over or written, or
   appends a new pair. -/
inductive EntryStep (o : BuildOutcome) (i : Nat) (b : BoundBinding) (st : BuildState) :
    BuildState × Option Unit → Prop where
  | failed (h : Handles) (hb : o.answers i b = false)
      (ha : ∀ live, st.handles.Account live → h.Account live) :
      EntryStep o i b st ({ st with handles := h }, none)
  | passed (nw : Nat) (hb : o.answers i b = true) (hk : b.kind ≠ .storageBuffer)
      (hnw : st.nw ≤ nw) : EntryStep o i b st ({ st with nw := nw }, some ())
  | appended (vb : Nat × Nat) (h : Handles) (hb : o.answers i b = true)
      (hk : b.kind = .storageBuffer)
      (ha : ∀ live, st.handles.Account live → h.Account (live+({vb.1}+{vb.2}))) :
      EntryStep o i b st (({ st with handles := h }.append vb).write, some ())

theorem Handles.Account.recreate {h : Handles} {live : Multiset Nat} (ha : h.Account live) :
    (h.create.destroy (some h.next)).Account live := ha.create.destroy

theorem makeHostStorageBufferPadded_fails {h : Handles} {m : BufferMade} (hm : m ≠ .made) :
    (makeHostStorageBufferPadded h m).2 = none ∧
      ∀ live, h.Account live → (makeHostStorageBufferPadded h m).1.Account live := by
  cases m with
  | notCreated => exact ⟨rfl, fun _ ha => ha⟩
  | noMemoryType => exact ⟨rfl, fun _ ha => ha.recreate⟩
  | noMemory => exact ⟨rfl, fun _ ha => ha.recreate⟩
  | notBound =>
    refine ⟨rfl, ?_⟩
    intro live ha
    have hboth := ha.create.create
    exact hboth.destroy.destroy
  | made => exact absurd rfl hm

theorem bindEntry_step (i : Nat) (b : BoundBinding) (st : BuildState) :
    EntryStep o i b st (bindEntry o i b st) := by
  rw [bindEntry]
  have hans : o.answers i b = match b.kind with
    | .sampledImage => o.view i
    | .sampler => o.defaultSampler
    | .storageBuffer => o.buffer i = .made
    | .unknown => true := rfl
  cases hk : b.kind with
  | sampledImage =>
    rw [hk] at hans
    cases hv : o.view i with
    | true => exact .passed _ (hans.trans hv) (by simp [hk]) (Nat.le_succ _)
    | false => exact .failed _ (hans.trans hv) fun _ ha => ha
  | sampler =>
    rw [hk] at hans
    cases hv : o.defaultSampler with
    | true => exact .passed _ (hans.trans hv) (by simp [hk]) (Nat.le_succ _)
    | false => exact .failed _ (hans.trans hv) fun _ ha => ha
  | storageBuffer =>
    rw [hk] at hans
    by_cases hm : o.buffer i = .made
    · simp only [hm]
      refine .appended _ _ (by simpa [hm] using hans) hk ?_
      intro live ha
      rw [← add_assoc]
      exact ha.create.create
    · obtain ⟨hnone, hacc⟩ := makeHostStorageBufferPadded_fails (h := st.handles) hm
      simp only [hnone]
      exact .failed _ (by simpa [hm] using hans) hacc
  | unknown =>
    rw [hk] at hans
    exact .passed st.nw hans (by simp [hk]) le_rfl

/- The arrays hold what is live, and every store is in order. -/
structure BuildState.Live (st : BuildState) (live : Multiset Nat) (out : List (Nat × Nat)) :
    Prop where
  holds : st.Holds out
  bufs : st.outBufs.length = transientSlots
  mems : st.outMems.length = transientSlots
  written : out.length ≤ st.nw
  account : st.handles.Account (live+ownedPairs out)

theorem ownedPairs_append (out : List (Nat × Nat)) (vb : Nat × Nat) :
    ownedPairs (out++[vb]) = ownedPairs out+({vb.1}+{vb.2}) := by
  simp [ownedPairs]

theorem BuildState.Holds.append {st : BuildState} {out : List (Nat × Nat)} (hst : st.Holds out)
    (hb : out.length < st.outBufs.length) (hm : out.length < st.outMems.length)
    (vb : Nat × Nat) : (st.append vb).Holds (out++[vb]) := by
  have hplace : ∀ {l : List (Option Nat)} (f : Nat × Nat → Nat), out.length < l.length →
      (∀ k : Nat, k < out.length → l[k]? = some (out[k]?.map f)) →
      ∀ k : Nat, k < (out++[vb]).length →
        (l.set st.outN (some (f vb)))[k]? = some ((out++[vb])[k]?.map f) := by
    intro l f hl hold k hk
    rw [List.length_append, List.length_singleton] at hk
    rw [hst.outN]
    by_cases hlast : k = out.length
    · subst hlast
      rw [List.getElem?_set_self hl]
      simp
    · have hlt : k < out.length := by omega
      rw [List.getElem?_set_ne (Ne.symm hlast), hold k hlt, List.getElem?_append_left hlt]
  refine ⟨?_, hplace Prod.fst hb hst.bufs, hplace Prod.snd hm hst.mems⟩
  simp [BuildState.append, hst.outN]

/-- Destroying the entries up to out_n destroys the pairs they hold, once each. -/
theorem BuildState.Holds.release {st : BuildState} {out : List (Nat × Nat)} (hst : st.Holds out)
    {live : Multiset Nat} (set : Nat)
    (ha : st.handles.Account (live+{set}+ownedPairs out)) : (st.release set).Account live := by
  have hloop : ∀ n ≤ out.length,
      ((List.range n).foldl (fun h k =>
        (h.destroy (st.outBufs.getD k none)).destroy (st.outMems.getD k none))
        st.handles).Account (live+{set}+ownedPairs (out.drop n)) := by
    intro n hn
    induction n with
    | zero => exact ha
    | succ n ih =>
      have hlt : n < out.length := hn
      have hb : st.outBufs.getD n none = some out[n].1 := by
        rw [List.getD_eq_getElem?_getD, hst.bufs n hlt, List.getElem?_eq_getElem hlt]
        rfl
      have hm : st.outMems.getD n none = some out[n].2 := by
        rw [List.getD_eq_getElem?_getD, hst.mems n hlt, List.getElem?_eq_getElem hlt]
        rfl
      have hprev := ih (Nat.le_of_succ_le hn)
      rw [List.drop_eq_getElem_cons hlt] at hprev
      rw [List.range_succ, List.foldl_append, List.foldl_cons, List.foldl_nil, hb, hm]
      apply Handles.Account.destroy
      apply Handles.Account.destroy
      rw [held_some, held_some]
      convert hprev using 1
      simp only [ownedPairs, List.map_cons, List.sum_cons]
      abel
  have hall := hloop out.length le_rfl
  rw [List.drop_length] at hall
  rw [BuildState.release, hst.outN]
  apply Handles.Account.destroy
  simpa [ownedPairs] using hall

/-- A loop that appends no more than fits leaves what its caller may rely on. -/
theorem bindEntries_right {live : Multiset Nat} {set : Nat} (bs : List BoundBinding) :
    ∀ (i : Nat) (st : BuildState) (out : List (Nat × Nat)), st.Live (live+{set}) out →
      st.stored = List.range out.length → out.length+transients o bs i ≤ transientSlots →
      BuildRight live (bindEntries o set bs i st) := by
  have hstores : ∀ {st : BuildState} {out : List (Nat × Nat)},
      st.stored = List.range out.length → out.length ≤ transientSlots →
      ∀ k ∈ st.stored, k < transientSlots := by
    intro st out hs hfit k hk
    rw [hs] at hk
    have := List.mem_range.mp hk
    omega
  induction bs with
  | nil =>
    intro i st out hst hs hfit
    rw [bindEntries]
    by_cases hnw : st.nw = 0
    · rw [if_pos hnw]
      exact ⟨hstores hs hfit, rfl, hst.holds.release set hst.account⟩
    · rw [if_neg hnw]
      exact ⟨hstores hs hfit, out, hst.holds, hst.account⟩
  | cons b bs ih =>
    intro i st out hst hs hfit
    rw [bindEntries]
    rw [transients_cons] at hfit
    have hstep := bindEntry_step (o := o) i b st
    generalize bindEntry o i b st = r at hstep ⊢
    obtain ⟨h, hb, ha⟩ | ⟨nw, hb, hk, hnw⟩ | ⟨vb, h, hb, hk, ha⟩ := hstep
    · have hold : ({ st with handles := h } : BuildState).Holds out :=
        ⟨hst.holds.outN, hst.holds.bufs, hst.holds.mems⟩
      exact ⟨hstores hs (by omega), rfl, hold.release set (ha _ hst.account)⟩
    · rw [if_pos hb, if_neg hk] at hfit
      exact ih (i+1) _ out ⟨⟨hst.holds.outN, hst.holds.bufs, hst.holds.mems⟩, hst.bufs, hst.mems,
        hst.written.trans hnw, hst.account⟩ hs hfit
    · rw [if_pos hb, if_pos hk] at hfit
      have hbufs : out.length < st.outBufs.length := by rw [hst.bufs]; omega
      have hmems : out.length < st.outMems.length := by rw [hst.mems]; omega
      have hold : ({ st with handles := h } : BuildState).Holds out :=
        ⟨hst.holds.outN, hst.holds.bufs, hst.holds.mems⟩
      have hnext := hold.append hbufs hmems vb
      refine ih (i+1) _ (out++[vb])
        ⟨⟨hnext.outN, hnext.bufs, hnext.mems⟩, ?_, ?_, ?_, ?_⟩ ?_ ?_
      · simp [BuildState.append, BuildState.write, hst.bufs]
      · simp [BuildState.append, BuildState.write, hst.mems]
      · simpa [BuildState.append, BuildState.write] using hst.written
      · rw [ownedPairs_append, ← add_assoc]
        exact ha _ hst.account
      · rw [List.length_append, List.length_singleton, List.range_succ, ← hs, ← hst.holds.outN]
        rfl
      · rw [List.length_append, List.length_singleton]
        omega

/-- Every transient buffer made is stored, at the index counted so far. -/
theorem bindEntries_stored (set : Nat) (bs : List BoundBinding) :
    ∀ (i : Nat) (st : BuildState), st.stored = List.range st.outN →
      (bindEntries o set bs i st).1.stored = List.range (st.outN+transients o bs i) := by
  induction bs with
  | nil =>
    intro i st hs
    rw [bindEntries]
    by_cases hnw : st.nw = 0
    · rw [if_pos hnw]
      exact hs
    · rw [if_neg hnw]
      exact hs
  | cons b bs ih =>
    intro i st hs
    rw [bindEntries, transients_cons]
    have hstep := bindEntry_step (o := o) i b st
    generalize bindEntry o i b st = r at hstep ⊢
    obtain ⟨h, hb, -⟩ | ⟨nw, hb, hk, -⟩ | ⟨vb, h, hb, hk, -⟩ := hstep
    · rw [if_neg (by simp [hb])]
      exact hs
    · rw [if_pos hb, if_neg hk]
      exact ih (i+1) { st with nw := nw } hs
    · rw [if_pos hb, if_pos hk]
      have hs' : st.stored++[st.outN] = List.range (st.outN+1) := by rw [List.range_succ, hs]
      have hrest := ih (i+1) ({ st with handles := h }.append vb).write hs'
      refine hrest.trans (congrArg List.range ?_)
      simp only [BuildState.append, BuildState.write]
      omega

theorem not_starts {bs : List BoundBinding} (h : ¬ o.starts bs) :
    o.poolReady = false ∨ o.layout = false ∨ bs = [] ∨ o.allocatesSet = false := by
  rw [BuildOutcome.starts] at h
  cases hp : o.poolReady with
  | false => exact .inl rfl
  | true =>
    cases hl : o.layout with
    | false => exact .inr (.inl rfl)
    | true =>
      cases ha : o.allocatesSet with
      | false => exact .inr (.inr (.inr rfl))
      | true =>
        refine .inr (.inr (.inl ?_))
        by_contra hne
        exact h ⟨hp, hl, hne, ha⟩

theorem buildDescriptorSet_starts (h : Handles) {bs : List BoundBinding} (hs : o.starts bs) :
    buildDescriptorSet h o bs =
      bindEntries o h.next (bs.take 32) 0 { handles := h.create } := by
  rw [buildDescriptorSet, if_neg]
  obtain ⟨hp, hl, hne, ha⟩ := hs
  simp [hp, hl, hne, ha]

theorem buildDescriptorSet_refused (h : Handles) {bs : List BoundBinding} (hs : ¬ o.starts bs) :
    buildDescriptorSet h o bs = ({ handles := h }, none) := if_pos (not_starts hs)

/-- The build respects the arrays and cleans up exactly when no more than sixteen storage
bindings come before the end of the list or the first failure. -/
theorem build_right_iff (h : Handles) (live : Multiset Nat) (o : BuildOutcome)
    (bs : List BoundBinding) (ha : h.Account live) :
    BuildRight live (buildDescriptorSet h o bs) ↔
      (o.starts bs → transients o (bs.take 32) 0 ≤ transientSlots) := by
  by_cases hs : o.starts bs
  · rw [buildDescriptorSet_starts h hs, imp_iff_right hs]
    have hstored := bindEntries_stored (o := o) h.next (bs.take 32) 0 { handles := h.create } rfl
    constructor
    · intro hright
      by_contra hmany
      refine absurd (hright.1 transientSlots ?_) (lt_irrefl _)
      rw [hstored, List.mem_range]
      omega
    · intro hfew
      refine bindEntries_right (bs.take 32) 0 _ [] ⟨⟨rfl, ?_, ?_⟩, rfl, rfl, le_rfl, ?_⟩ rfl ?_
      · intro k hk
        exact absurd hk (Nat.not_lt_zero k)
      · intro k hk
        exact absurd hk (Nat.not_lt_zero k)
      · simpa [ownedPairs] using ha.create
      · simpa using hfew
  · rw [buildDescriptorSet_refused h hs]
    refine iff_of_true ⟨?_, rfl, ha⟩ fun hs' => absurd hs' hs
    intro k hk
    exact absurd hk List.not_mem_nil

def storageBindings (n : Nat) : List BoundBinding :=
  (List.range n).map fun i => ⟨i, .storageBuffer, -1⟩

theorem build_right_two :
    BuildRight 0 (buildDescriptorSet ⟨0, 0⟩ {} (storageBindings 2)) :=
  (build_right_iff ⟨0, 0⟩ 0 {} (storageBindings 2) rfl).2 fun _ => by decide

/-- Seventeen storage bindings, every one of which is made. -/
theorem seventeenth_buffer_past_arrays :
    ¬ BuildRight 0 (buildDescriptorSet ⟨0, 0⟩ {} (storageBindings 17)) := by
  intro h
  have hlast : 16 ∈ (buildDescriptorSet ⟨0, 0⟩ {} (storageBindings 17)).1.stored := by decide
  exact absurd (h.1 16 hlast) (lt_irrefl 16)

/-- After its draw, the draw site destroys the buffers and frees the set. -/
theorem BuildRight.release {live : Multiset Nat} {st : BuildState} {set : Nat}
    (h : BuildRight live (st, some set)) : (st.release set).Account live := by
  obtain ⟨-, out, hold, ha⟩ := h
  exact hold.release set ha

section writes
variable {pol : DescriptorPolicy} {env : DescriptorEnv} {d : DrawState}

/-- The outcome is what the guest's objects give, from this place and texture ordinal on. -/
def BuildOutcome.Agrees (o : BuildOutcome) (pol : DescriptorPolicy) (env : DescriptorEnv)
    (d : DrawState) (bs : List BoundBinding) (i texOrd : Nat) : Prop :=
  ∀ (j : Nat) (b : BoundBinding), bs[j]? = some b → b.kind ≠ .unknown → ∀ fbufOrd,
    o.answers (i+j) b =
      (bindOne pol env d b (texOrd+(bs.take j).countP (·.kind = .sampledImage)) fbufOrd).isSome

theorem BuildOutcome.Agrees.tail {b : BoundBinding} {bs : List BoundBinding} {i texOrd : Nat}
    (h : o.Agrees pol env d (b :: bs) i texOrd) :
    o.Agrees pol env d bs (i+1) (if b.kind = .sampledImage then texOrd+1 else texOrd) := by
  intro j c hc hk fbufOrd
  have hnext := h (j+1) c (by simpa using hc) hk fbufOrd
  rw [List.take_succ_cons, List.countP_cons] at hnext
  rw [show i+1+j = i+(j+1) by omega, hnext]
  by_cases hb : b.kind = .sampledImage
  · simp only [hb, decide_true, if_true]
    rw [show texOrd+1+(bs.take j).countP (·.kind = .sampledImage) =
      texOrd+((bs.take j).countP (·.kind = .sampledImage)+1) by omega]
  · simp [hb]

theorem bindEntry_nw {i : Nat} {b : BoundBinding} (st : BuildState)
    (hb : o.answers i b = true) : ∃ st', bindEntry o i b st = (st', some ()) ∧
      st'.nw = if b.kind = .unknown then st.nw else st.nw+1 := by
  rw [BuildOutcome.answers] at hb
  cases hk : b.kind with
  | unknown => exact ⟨st, by simp [bindEntry, hk], rfl⟩
  | sampledImage =>
    rw [hk] at hb
    exact ⟨st.write, by simpa [bindEntry, hk] using hb, rfl⟩
  | sampler =>
    rw [hk] at hb
    exact ⟨st.write, by simpa [bindEntry, hk] using hb, rfl⟩
  | storageBuffer =>
    rw [hk] at hb
    have hmade : o.buffer i = .made := by simpa using hb
    refine ⟨({ st with handles := st.handles.create.create }.append
      (st.handles.next, st.handles.next+1)).write, ?_, rfl⟩
    simp only [bindEntry, hk, hmade, makeHostStorageBufferPadded]

/-- The loop returns its set exactly when the bindings give writes, and counts those. -/
theorem bindEntries_writes (set : Nat) (bs : List BoundBinding) :
    ∀ (i texOrd fbufOrd : Nat) (st : BuildState), o.Agrees pol env d bs i texOrd →
      match bindAll pol env d bs texOrd fbufOrd with
      | none => (bindEntries o set bs i st).2 = none
      | some writes => (bindEntries o set bs i st).1.nw = st.nw+writes.length ∧
        (bindEntries o set bs i st).2 = if st.nw+writes.length = 0 then none else some set := by
  induction bs with
  | nil =>
    intro i texOrd fbufOrd st _
    simp only [bindAll, bindEntries, List.length_nil, add_zero]
    by_cases hnw : st.nw = 0
    · simp only [if_pos hnw]
      exact ⟨rfl, trivial⟩
    · simp only [if_neg hnw]
      exact ⟨trivial, trivial⟩
  | cons b bs ih =>
    intro i texOrd fbufOrd st hag
    rw [bindAll, bindEntries]
    by_cases hk : b.kind = .unknown
    · obtain ⟨st', hentry, hnw⟩ := bindEntry_nw (o := o) (i := i) st
        (by rw [BuildOutcome.answers, hk])
      rw [if_pos hk] at hnw ⊢
      rw [hentry, ← hnw]
      have htail := hag.tail
      rw [if_neg (by simp [hk])] at htail
      exact ih _ _ _ _ htail
    · have hhead := hag 0 b rfl hk fbufOrd
      simp only [List.take_zero, List.countP_nil, add_zero] at hhead
      rw [if_neg hk]
      cases hone : bindOne pol env d b texOrd fbufOrd with
      | none =>
        rw [hone] at hhead
        have hstep := bindEntry_step (o := o) i b st
        generalize bindEntry o i b st = r at hstep ⊢
        obtain ⟨h, -, -⟩ | ⟨nw, hb, -, -⟩ | ⟨vb, h, hb, -, -⟩ := hstep
        · rfl
        · exact absurd (hb.symm.trans hhead) (by decide)
        · exact absurd (hb.symm.trans hhead) (by decide)
      | some source =>
        rw [hone] at hhead
        obtain ⟨st', hentry, hnw⟩ := bindEntry_nw st hhead
        rw [if_neg hk] at hnw
        rw [hentry, Option.bind_some]
        have hrest := ih (i+1) _
          (if b.kind = .storageBuffer then (bufferSlot pol env d b fbufOrd).2 else fbufOrd) st'
          hag.tail
        cases hall : bindAll pol env d bs (if b.kind = .sampledImage then texOrd+1 else texOrd)
            (if b.kind = .storageBuffer then (bufferSlot pol env d b fbufOrd).2 else fbufOrd) with
        | none =>
          rw [hall] at hrest
          exact hrest
        | some writes =>
          rw [hall] at hrest
          obtain ⟨hcount, hset⟩ := hrest
          have hlen : st'.nw+writes.length =
              st.nw+((⟨b.no, source⟩ : DescriptorWrite) :: writes).length := by
            rw [hnw, List.length_cons]
            omega
          rw [hlen] at hcount hset
          exact ⟨hcount, hset⟩

/-- A set is returned exactly when the bindings have sources. -/
theorem buildDescriptorSet_isSome (h : Handles) {bs : List BoundBinding}
    (halloc : o.starts bs ↔ env.allocates = true ∧ bs ≠ [])
    (hag : o.Agrees pol env d (bs.take 32) 0 0) :
    (buildDescriptorSet h o bs).2.isSome = (buildDrawDescriptorSet pol env d bs).isSome := by
  by_cases hs : o.starts bs
  · obtain ⟨ha, hne⟩ := halloc.1 hs
    rw [buildDescriptorSet_starts h hs, buildDrawDescriptorSet, if_neg (by simp [ha, hne])]
    have hrun := bindEntries_writes h.next (bs.take 32) 0 0 0 { handles := h.create } hag
    cases hall : bindAll pol env d (bs.take 32) 0 0 with
    | none =>
      rw [hall] at hrun
      rw [hrun]
      rfl
    | some writes =>
      rw [hall] at hrun
      rw [hrun.2]
      cases writes with
      | nil => rfl
      | cons w ws => simp [Option.filter]
  · rw [buildDescriptorSet_refused h hs, buildDrawDescriptorSet, if_pos]
    · rfl
    · by_contra hno
      rw [not_or, Bool.not_eq_false] at hno
      exact hs (halloc.2 hno)

end writes

end Lagfx
