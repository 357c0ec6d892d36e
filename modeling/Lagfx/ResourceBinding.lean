import Mathlib.Data.Finset.Card
import Mathlib.Data.List.Sort
import Lagfx.DrawDescriptors

/-! Resource arguments of a shader pair, from the binding numbers the translator gives
them to the guest slots their descriptors are written from. -/
namespace Lagfx

inductive ResourceKind where
  | buffer
  | texture
  | sampler
deriving DecidableEq, Repr

/- A resource argument with its air.location_index. The translator skips those whose type
   it cannot model. -/
structure ResourceArg where
  kind : ResourceKind
  location : Nat
  skipped : Bool := false
deriving DecidableEq, Repr

inductive ShaderArg where
  | stageIn
  | resource (r : ResourceArg)
deriving DecidableEq, Repr

def ShaderArg.resource? : ShaderArg → Option ResourceArg
  | .stageIn => none
  | .resource r => some r

def maxVertexArgs : Nat := 32
def maxBytebufViews : Nat := 12
def maxArgBindings : Nat := 16

/- An entry point: its arguments in order, the bindings that byte-buffer views alias, and
   whether the body samples with a constexpr sampler. -/
structure EntryPoint where
  args : List ShaderArg
  views : List Nat := []
  constexprSampler : Bool := false
  views_le : views.length ≤ maxBytebufViews := by simp [maxBytebufViews]

def EntryPoint.resources (e : EntryPoint) : List ResourceArg := e.args.filterMap ShaderArg.resource?

/-- The arguments that get a variable, in the order of their binding numbers. -/
def EntryPoint.bound (e : EntryPoint) : List ResourceArg :=
  ((e.args.take maxVertexArgs).filterMap ShaderArg.resource?).filter fun r => !r.skipped

def EntryPoint.boundViews (e : EntryPoint) : List Nat :=
  e.views.filter fun k => (e.bound[k]?).any fun r => r.kind = .buffer

/-- Textures bring a module-scope sampler with them, in the fragment stage. -/
def needsDefaultSampler (st : DrawStage) (e : EntryPoint) : Bool :=
  decide (st = .fragment) && e.bound.any fun r => r.kind = .texture

def ResourceKind.spv : ResourceKind → SpvBindingKind
  | .buffer => .storageBuffer
  | .texture => .sampledImage
  | .sampler => .sampler

/-- The decorated variables in the order of their ids: views, arguments, sampler. -/
def declaredBindings (st : DrawStage) (e : EntryPoint) : List SpvBinding :=
  e.boundViews.map (fun k => ⟨0, st.base+k, .storageBuffer⟩)++
    e.bound.mapIdx (fun k r => ⟨0, st.base+k, r.kind.spv⟩)++
    if needsDefaultSampler st e then [⟨0, st.base+e.bound.length, .sampler⟩] else []

/-- The first 32 of them, sorted by binding. -/
def reflectBindings (st : DrawStage) (e : EntryPoint) : List SpvBinding :=
  ((declaredBindings st e).take maxDescBindings).insertionSort fun a b => a.binding ≤ b.binding

/-- The location index of each resource argument, skipped ones too, for the first 16. -/
def airArgBindings (e : EntryPoint) : List Int :=
  (e.resources.take maxArgBindings).map fun r =>
    if r.location < 0x7fff then (r.location : Int) else -1

/-- The stage as the binding map reads it. -/
def stageSpv (st : DrawStage) (e : EntryPoint) : Spv where
  bindings := reflectBindings st e
  hasImageSample := false
  vertexInputs := []
  argBindings := airArgBindings e
  psoStride := 0
  psoAttrs := []

def pairLayout (v f : EntryPoint) : List SpvBinding :=
  layoutBindings (stageSpv .vertex v) (stageSpv .fragment f)

def pairBindings (v f : EntryPoint) : List BoundBinding :=
  boundBindings true (stageSpv .vertex v) (stageSpv .fragment f)

/-- The guest slot an argument names. -/
def ResourceArg.named (st : DrawStage) (r : ResourceArg) : DescriptorSource :=
  match r.kind with
  | .buffer => .buffer st r.location
  | .texture => .texture r.location
  | .sampler => .sampler

/-- The bindings a stage uses, each with what it is to be given. -/
def EntryPoint.uses (st : DrawStage) (e : EntryPoint) : List DescriptorWrite :=
  e.bound.mapIdx (fun k r => ⟨st.base+k, r.named st⟩)++
    if needsDefaultSampler st e && e.constexprSampler then [⟨st.base+e.bound.length, .sampler⟩]
    else []

/-- The entry point of a stage. -/
def side (v f : EntryPoint) : DrawStage → EntryPoint
  | .vertex => v
  | .fragment => f

/-- The slot of the argument is bound to something that resolves. -/
def SlotReady (env : DescriptorEnv) (d : DrawState) (st : DrawStage) (r : ResourceArg) : Prop :=
  match r.kind with
  | .buffer => (slotAt (d.buffers st) r.location).valid = true ∧
      (slotAt (d.buffers st) r.location).ref ≠ 0 ∧
      env.bufferData (slotAt (d.buffers st) r.location) = true
  | .texture => (slotAt d.fragmentTextures r.location).valid = true ∧
      env.view (slotAt d.fragmentTextures r.location).ref = true
  | .sampler => True

/-- Every named slot is valid and resolvable, and Vulkan makes what it is asked for. -/
structure TablesReady (env : DescriptorEnv) (d : DrawState) (v f : EntryPoint) : Prop where
  slots : ∀ st, ∀ r ∈ (side v f st).resources, SlotReady env d st r
  sampler : env.defaultSampler = true
  allocates : env.allocates = true
  buffers : ∀ no, env.makesBuffer no = true

/-- At most 32 resource arguments in all, with location indexes the tables have. -/
structure PairBounds (v f : EntryPoint) : Prop where
  count : v.resources.length+f.resources.length ≤ maxDescBindings
  locations : ∀ st, ∀ r ∈ (side v f st).resources, r.location < maxBindingSlots

/-- Each argument of the pair is bound to the guest slot it names, whatever the tables. -/
structure BindsNamedSlots (v f : EntryPoint) : Prop where
  disjoint : ∀ a ∈ declaredBindings .vertex v, ∀ b ∈ declaredBindings .fragment f,
    a.binding ≠ b.binding
  layout : ∀ st, ∀ u ∈ (side v f st).uses st, ∃ t ∈ pairLayout v f, t.binding = u.binding
  writes : ∀ env d, TablesReady env d v f → ∀ st, ∀ u ∈ (side v f st).uses st,
    ∃ ws, buildDrawDescriptorSet {} env d (pairBindings v f) = some ws ∧
      ws.filter (fun w => w.binding = u.binding) = [u]

/-- The location index that stands at a binding's place in the argument metadata. -/
def locationAt (v f : EntryPoint) (no : Nat) : Option Nat :=
  if no < fragBindingBase then (v.resources.take maxArgBindings)[no]?.map ResourceArg.location
  else (f.resources.take maxArgBindings)[no-fragBindingBase]?.map ResourceArg.location

/-- A buffer or texture finds its own index there, and a vertex buffer is below the base. -/
def FindsOwn (v f : EntryPoint) (st : DrawStage) (k : Nat) (r : ResourceArg) : Prop :=
  r.kind ≠ .sampler → locationAt v f (st.base+k) = some r.location ∧
    (r.kind = .buffer → st = .vertex → k < fragBindingBase)

/-- All of a stage's bindings come through the reflection. -/
def Reflects (e : EntryPoint) : Prop :=
  ∀ k < e.bound.length, k ∈ e.boundViews ∨ e.boundViews.length+k < maxDescBindings

instance (v f : EntryPoint) (st : DrawStage) (k : Nat) (r : ResourceArg) :
    Decidable (FindsOwn v f st k r) :=
  inferInstanceAs (Decidable (_ → _ ∧ (_ → _ → _)))

instance (e : EntryPoint) : Decidable (Reflects e) :=
  inferInstanceAs (Decidable (∀ k < _, _ ∨ _))

structure BindingCond (v f : EntryPoint) : Prop where
  separate : v.bound.length ≤ fragBindingBase ∨ f.bound = []
  reflects : ∀ st, Reflects (side v f st)
  defaultSampler : needsDefaultSampler .fragment f = true → f.constexprSampler = true →
    f.boundViews.length+f.bound.length < maxDescBindings ∧
      v.bound.length+f.bound.length < maxDescBindings
  own : ∀ st k r, (side v f st).bound[k]? = some r → FindsOwn v f st k r

/-- An entry of the reflection: an argument at its place, or the default sampler. -/
def EntryOf (st : DrawStage) (e : EntryPoint) (t : SpvBinding) : Prop :=
  (∃ k r, e.bound[k]? = some r ∧ t = ⟨0, st.base+k, r.kind.spv⟩) ∨
    needsDefaultSampler st e = true ∧ t = ⟨0, st.base+e.bound.length, .sampler⟩

theorem mem_boundViews {e : EntryPoint} {k : Nat} :
    k ∈ e.boundViews ↔ k ∈ e.views ∧ ∃ r, e.bound[k]? = some r ∧ r.kind = .buffer := by
  simp [EntryPoint.boundViews, List.mem_filter, Option.any_eq_true]

theorem entryOf_of_mem {st : DrawStage} {e : EntryPoint} {t : SpvBinding}
    (h : t ∈ declaredBindings st e) : EntryOf st e t := by
  rw [declaredBindings, List.mem_append, List.mem_append] at h
  rcases h with (h | h) | h
  · obtain ⟨k, hk, rfl⟩ := List.mem_map.mp h
    obtain ⟨_, r, hr, hbuf⟩ := mem_boundViews.mp hk
    exact Or.inl ⟨k, r, hr, by rw [hbuf, ResourceKind.spv]⟩
  · obtain ⟨k, hk, rfl⟩ := List.mem_mapIdx.mp h
    exact Or.inl ⟨k, _, List.getElem?_eq_getElem hk, rfl⟩
  · split_ifs at h with hd
    · exact Or.inr ⟨hd, List.mem_singleton.mp h⟩
    · simp at h

theorem mem_reflectBindings {st : DrawStage} {e : EntryPoint} {t : SpvBinding} :
    t ∈ reflectBindings st e ↔ t ∈ (declaredBindings st e).take maxDescBindings :=
  List.mem_insertionSort _

theorem entryOf_of_reflected {st : DrawStage} {e : EntryPoint} {t : SpvBinding}
    (h : t ∈ reflectBindings st e) : EntryOf st e t :=
  entryOf_of_mem (List.mem_of_mem_take (mem_reflectBindings.mp h))

theorem EntryOf.set_eq {st : DrawStage} {e : EntryPoint} {t : SpvBinding} (h : EntryOf st e t) :
    t.set = 0 := by
  rcases h with ⟨k, r, _, rfl⟩ | ⟨_, rfl⟩ <;> rfl

theorem EntryOf.kind_ne {st : DrawStage} {e : EntryPoint} {t : SpvBinding} (h : EntryOf st e t) :
    t.kind ≠ .unknown := by
  rcases h with ⟨k, r, _, rfl⟩ | ⟨_, rfl⟩
  · cases hk : r.kind <;> simp [ResourceKind.spv, hk]
  · simp

theorem bound_length_le (e : EntryPoint) : e.bound.length ≤ maxVertexArgs :=
  calc e.bound.length ≤ ((e.args.take maxVertexArgs).filterMap ShaderArg.resource?).length :=
        List.length_filter_le _ _
    _ ≤ (e.args.take maxVertexArgs).length := List.length_filterMap_le _ _
    _ ≤ maxVertexArgs := List.length_take_le _ _

theorem bound_sublist_resources (e : EntryPoint) : e.bound.Sublist e.resources :=
  List.filter_sublist.trans ((List.take_sublist _ _).filterMap _)

theorem boundViews_length_le (e : EntryPoint) : e.boundViews.length ≤ maxBytebufViews :=
  (List.length_filter_le _ _).trans e.views_le

/-- The merged list: the first of each binding, never more than 32. -/
def mergeInto (rb : List SpvBinding) (t : SpvBinding) : List SpvBinding :=
  if t.set ≠ 0 ∨ rb.any (·.binding = t.binding) ∨ maxDescBindings ≤ rb.length then rb else rb++[t]

theorem mergeBindings_eq (l : List SpvBinding) : mergeBindings l = l.foldl mergeInto [] := rfl

theorem mem_mergeInto {rb : List SpvBinding} {t u : SpvBinding} (h : u ∈ mergeInto rb t) :
    u ∈ rb ∨ u = t := by
  rw [mergeInto] at h
  split_ifs at h
  · exact Or.inl h
  · simpa using h

theorem mem_mergeInto_of_mem {rb : List SpvBinding} {t u : SpvBinding} (h : u ∈ rb) :
    u ∈ mergeInto rb t := by
  rw [mergeInto]
  split_ifs
  · exact h
  · exact List.mem_append_left _ h

theorem nodup_mergeInto {rb : List SpvBinding} {t : SpvBinding}
    (h : (rb.map SpvBinding.binding).Nodup) :
    ((mergeInto rb t).map SpvBinding.binding).Nodup := by
  rw [mergeInto]
  split_ifs with hc
  · exact h
  · have hnew : t.binding ∉ rb.map SpvBinding.binding := by
      simp only [not_or, List.any_eq_true, decide_eq_true_eq] at hc
      intro hm
      obtain ⟨u, hu, he⟩ := List.mem_map.mp hm
      exact hc.2.1 ⟨u, hu, he⟩
    rw [List.map_append, List.map_singleton, List.nodup_append]
    refine ⟨h, List.nodup_singleton _, fun a ha b hb he => ?_⟩
    obtain rfl := List.mem_singleton.mp hb
    exact hnew (he ▸ ha)

theorem length_mergeInto {rb : List SpvBinding} {t : SpvBinding} (h : rb.length ≤ maxDescBindings) :
    (mergeInto rb t).length ≤ maxDescBindings := by
  rw [mergeInto]
  split_ifs with hc
  · exact h
  · simp only [not_or, not_le] at hc
    rw [List.length_append, List.length_singleton]
    exact hc.2.2

theorem mem_merge_of_acc {u : SpvBinding} (l : List SpvBinding) :
    ∀ rb, u ∈ rb → u ∈ l.foldl mergeInto rb := by
  induction l with
  | nil => exact fun _ h => h
  | cons t l ih => exact fun rb h => ih _ (mem_mergeInto_of_mem h)

theorem mem_of_mem_merge {u : SpvBinding} (l : List SpvBinding) :
    ∀ rb, u ∈ l.foldl mergeInto rb → u ∈ rb ∨ u ∈ l := by
  induction l with
  | nil => exact fun _ h => Or.inl h
  | cons t l ih =>
    intro rb h
    rcases ih _ h with h | h
    · rcases mem_mergeInto h with h | rfl
      · exact Or.inl h
      · exact Or.inr List.mem_cons_self
    · exact Or.inr (List.mem_cons_of_mem t h)

theorem nodup_merge (l : List SpvBinding) : ∀ rb : List SpvBinding,
    (rb.map SpvBinding.binding).Nodup → ((l.foldl mergeInto rb).map SpvBinding.binding).Nodup := by
  induction l with
  | nil => exact fun _ h => h
  | cons t l ih => exact fun rb h => ih _ (nodup_mergeInto h)

theorem length_merge (l : List SpvBinding) : ∀ rb : List SpvBinding,
    rb.length ≤ maxDescBindings → (l.foldl mergeInto rb).length ≤ maxDescBindings := by
  induction l with
  | nil => exact fun _ h => h
  | cons t l ih => exact fun rb h => ih _ (length_mergeInto h)

/-- Nothing is dropped while at most 32 numbers occur. -/
theorem merge_complete {S : Finset Nat} (hS : S.card ≤ maxDescBindings) (l : List SpvBinding) :
    ∀ rb : List SpvBinding, (rb.map SpvBinding.binding).Nodup → (∀ u ∈ rb, u.binding ∈ S) →
      (∀ u ∈ l, u.set = 0 ∧ u.binding ∈ S) →
      ∀ t ∈ l, ∃ u ∈ l.foldl mergeInto rb, u.binding = t.binding := by
  induction l with
  | nil => intro _ _ _ _ t ht; simp at ht
  | cons x l ih =>
    intro rb hnd hrb hl t ht
    have hx := hl x List.mem_cons_self
    rcases List.mem_cons.mp ht with rfl | ht
    · by_cases hin : rb.any (·.binding = t.binding) = true
      · obtain ⟨u, hu, he⟩ := List.any_eq_true.mp hin
        exact ⟨u, mem_merge_of_acc l _ (mem_mergeInto_of_mem hu), by simpa using he⟩
      · -- the numbers so far and this one are distinct members of `S`
        have hlt : rb.length < maxDescBindings := by
          have hsub : (rb.map SpvBinding.binding).toFinset ⊆ S.erase t.binding := by
            intro b hb
            obtain ⟨u, hu, rfl⟩ := List.mem_map.mp (List.mem_toFinset.mp hb)
            refine Finset.mem_erase.mpr ⟨fun he => hin ?_, hrb u hu⟩
            exact List.any_eq_true.mpr ⟨u, hu, by simpa using he⟩
          have hcard := Finset.card_le_card hsub
          rw [List.toFinset_card_of_nodup hnd, List.length_map, Finset.card_erase_of_mem hx.2] at hcard
          have hpos := Finset.card_pos.mpr ⟨_, hx.2⟩
          omega
        have happ : mergeInto rb t = rb++[t] := by
          rw [mergeInto, if_neg]
          simp only [not_or, not_le]
          exact ⟨by simpa using hx.1, hin, hlt⟩
        refine ⟨t, mem_merge_of_acc l _ ?_, rfl⟩
        simp [happ]
    · refine ih _ (nodup_mergeInto hnd) (fun u hu => ?_)
        (fun u hu => hl u (List.mem_cons_of_mem x hu)) t ht
      rcases mem_mergeInto hu with h | rfl
      · exact hrb u h
      · exact hx.2

/-- What survives the cut at 32: every view, and what comes early enough behind them. -/
theorem mem_reflected_iff {st : DrawStage} {e : EntryPoint} {t : SpvBinding} :
    t ∈ reflectBindings st e ↔
      (∃ k ∈ e.boundViews, t = ⟨0, st.base+k, .storageBuffer⟩) ∨
      (∃ k r, e.bound[k]? = some r ∧ e.boundViews.length+k < maxDescBindings ∧
        t = ⟨0, st.base+k, r.kind.spv⟩) ∨
      needsDefaultSampler st e = true ∧ e.boundViews.length+e.bound.length < maxDescBindings ∧
        t = ⟨0, st.base+e.bound.length, .sampler⟩ := by
  have hviews : e.boundViews.length ≤ maxDescBindings :=
    (boundViews_length_le e).trans (by decide)
  rw [mem_reflectBindings, declaredBindings, List.append_assoc, List.take_append, List.take_append,
    List.take_of_length_le (by simpa using hviews), List.mem_append, List.mem_append]
  refine or_congr ?_ (or_congr ?_ ?_)
  · simp [eq_comm]
  · rw [List.mem_take_iff_getElem]
    simp only [List.length_map, List.length_mapIdx, List.getElem_mapIdx]
    constructor
    · rintro ⟨k, hk, rfl⟩
      exact ⟨k, _, List.getElem?_eq_getElem (by omega), by omega, rfl⟩
    · rintro ⟨k, r, hr, hk, rfl⟩
      obtain ⟨hlt, rfl⟩ := List.getElem?_eq_some_iff.mp hr
      exact ⟨k, by omega, rfl⟩
  · cases hn : needsDefaultSampler st e with
    | false => simp
    | true =>
      rw [if_pos rfl, List.mem_take_iff_getElem]
      simp only [List.length_map, List.length_mapIdx, List.length_singleton, true_and]
      constructor
      · rintro ⟨j, hj, rfl⟩
        obtain rfl : j = 0 := by omega
        exact ⟨by omega, rfl⟩
      · rintro ⟨hlt, rfl⟩
        exact ⟨0, by omega, rfl⟩

def merged (v f : EntryPoint) : List SpvBinding :=
  mergeBindings (reflectBindings .vertex v++reflectBindings .fragment f)

theorem reflected_eq (v f : EntryPoint) :
    reflected (stageSpv .vertex v) (stageSpv .fragment f) =
      reflectBindings .vertex v++reflectBindings .fragment f := by
  have hlen : ∀ st e, (reflectBindings st e).length ≤ maxDescBindings := by
    intro st e
    rw [reflectBindings, List.length_insertionSort]
    exact List.length_take_le _ _
  rw [reflected, stageSpv, stageSpv, List.take_of_length_le (hlen _ _),
    List.take_of_length_le (hlen _ _)]

theorem entry_of_reflected {v f : EntryPoint} {t : SpvBinding}
    (h : t ∈ reflectBindings .vertex v++reflectBindings .fragment f) :
    EntryOf .vertex v t ∨ EntryOf .fragment f t :=
  (List.mem_append.mp h).imp entryOf_of_reflected entryOf_of_reflected

theorem pairLayout_eq (v f : EntryPoint) : pairLayout v f = merged v f := by
  rw [pairLayout, layoutBindings, reflected_eq, merged, List.filter_eq_self.mpr]
  intro t ht
  rcases entry_of_reflected ht with h | h
  · simpa using h.kind_ne
  · simpa using h.kind_ne

theorem pairBindings_eq (v f : EntryPoint) : pairBindings v f =
    (merged v f).map fun t => ⟨t.binding%256, t.kind,
      metalIndex true (stageSpv .vertex v) (stageSpv .fragment f) t.binding⟩ := by
  rw [pairBindings, boundBindings, reflected_eq]
  rfl

theorem entry_of_merged {v f : EntryPoint} {t : SpvBinding} (h : t ∈ merged v f) :
    EntryOf .vertex v t ∨ EntryOf .fragment f t := by
  rcases mem_of_mem_merge _ _ h with h | h
  · simp at h
  · exact entry_of_reflected h

theorem merged_nodup (v f : EntryPoint) : ((merged v f).map SpvBinding.binding).Nodup :=
  nodup_merge _ [] List.nodup_nil

theorem merged_length_le (v f : EntryPoint) : (merged v f).length ≤ maxDescBindings :=
  length_merge _ [] (Nat.zero_le _)

theorem EntryOf.binding_lt {st : DrawStage} {e : EntryPoint} {t : SpvBinding}
    (h : EntryOf st e t) : t.binding < 256 := by
  have hb : st.base ≤ 16 := by cases st <;> decide
  have hlen := bound_length_le e
  rw [maxVertexArgs] at hlen
  rcases h with ⟨k, r, hr, rfl⟩ | ⟨_, rfl⟩
  · obtain ⟨hk, _⟩ := List.getElem?_eq_some_iff.mp hr
    show st.base+k < 256
    omega
  · show st.base+e.bound.length < 256
    omega

theorem not_needs_vertex (e : EntryPoint) : needsDefaultSampler .vertex e = false := rfl

theorem bound_ne_nil_of_needs {st : DrawStage} {e : EntryPoint}
    (h : needsDefaultSampler st e = true) : e.bound ≠ [] := by
  intro hnil
  simp [needsDefaultSampler, hnil] at h

section
variable {v f : EntryPoint} {env : DescriptorEnv} {d : DrawState}

theorem metalIndex_eq (hp : PairBounds v f) (no : Nat) :
    metalIndex true (stageSpv .vertex v) (stageSpv .fragment f) no =
      ((locationAt v f no).map fun n => (n : Int)).getD (-1) := by
  have harg : ∀ st i, (airArgBindings (side v f st)).getD i (-1) =
      ((((side v f st).resources.take maxArgBindings)[i]?.map ResourceArg.location).map
        fun n => (n : Int)).getD (-1) := by
    intro st i
    rw [airArgBindings, List.getD_eq_getElem?_getD, List.getElem?_map]
    cases hr : ((side v f st).resources.take maxArgBindings)[i]? with
    | none => rfl
    | some r =>
      have hmem := List.mem_of_mem_take (List.mem_of_getElem? hr)
      have hloc := hp.locations st r hmem
      rw [maxBindingSlots] at hloc
      simp [show r.location < 0x7fff by omega]
  rw [metalIndex, locationAt]
  by_cases hno : no < fragBindingBase
  · rw [if_neg (by omega), if_pos hno]
    exact harg .vertex no
  · rw [if_pos ⟨rfl, by omega⟩, if_neg hno]
    exact harg .fragment (no-fragBindingBase)

theorem locationAt_lt {no n : Nat} (h : locationAt v f no = some n) : no < maxBindingSlots := by
  rw [locationAt] at h
  split_ifs at h with hno
  · rw [fragBindingBase] at hno
    rw [maxBindingSlots]
    omega
  · obtain ⟨r, hr, _⟩ := Option.map_eq_some_iff.mp h
    obtain ⟨hlt, _⟩ := List.getElem?_eq_some_iff.mp hr
    have hlen := List.length_take_le maxArgBindings f.resources
    rw [maxArgBindings] at hlen hlt
    rw [fragBindingBase] at hlt
    rw [maxBindingSlots]
    omega

/-- With the stages apart, a binding number belongs to one argument. -/
theorem entry_at (hs : v.bound.length ≤ fragBindingBase ∨ f.bound = []) {st st' : DrawStage}
    {k : Nat} {r : ResourceArg} {t : SpvBinding} (hk : (side v f st).bound[k]? = some r)
    (ht : EntryOf st' (side v f st') t) (hb : t.binding = st.base+k) :
    t = ⟨0, st.base+k, r.kind.spv⟩ := by
  obtain ⟨hlt, _⟩ := List.getElem?_eq_some_iff.mp hk
  cases st with
  | vertex =>
    cases st' with
    | vertex =>
      rcases ht with ⟨k', r', hr', rfl⟩ | ⟨hn, _⟩
      · obtain rfl : k' = k := Nat.add_left_cancel hb
        rw [hk] at hr'
        obtain rfl := Option.some.inj hr'
        rfl
      · simp [not_needs_vertex] at hn
    | fragment =>
      exfalso
      have hge : fragBindingBase ≤ k := by
        rcases ht with ⟨k', r', _, rfl⟩ | ⟨_, rfl⟩ <;>
          simp only [DrawStage.base, Nat.zero_add] at hb <;> omega
      have hnil : f.bound = [] := hs.resolve_left (by simp only [side] at hlt; omega)
      rcases ht with ⟨k', r', hr', _⟩ | ⟨hn, _⟩
      · simp [side, hnil] at hr'
      · exact bound_ne_nil_of_needs hn hnil
  | fragment =>
    cases st' with
    | vertex =>
      exfalso
      have hnil : f.bound ≠ [] := by
        intro h
        simp [side, h] at hk
      rcases ht with ⟨k', r', hr', rfl⟩ | ⟨hn, _⟩
      · obtain ⟨hlt', _⟩ := List.getElem?_eq_some_iff.mp hr'
        have hle := hs.resolve_right hnil
        simp only [DrawStage.base, side] at hb hlt'
        omega
      · simp [not_needs_vertex] at hn
    | fragment =>
      rcases ht with ⟨k', r', hr', rfl⟩ | ⟨_, rfl⟩
      · obtain rfl : k' = k := Nat.add_left_cancel hb
        rw [hk] at hr'
        obtain rfl := Option.some.inj hr'
        rfl
      · have : (side v f .fragment).bound.length = k := Nat.add_left_cancel hb
        omega

/-- And the number after the last fragment argument to the default sampler alone. -/
theorem default_at (hs : v.bound.length ≤ fragBindingBase ∨ f.bound = []) {st : DrawStage}
    {t : SpvBinding} (hn : needsDefaultSampler .fragment f = true)
    (ht : EntryOf st (side v f st) t) (hb : t.binding = DrawStage.fragment.base+f.bound.length) :
    t = ⟨0, DrawStage.fragment.base+f.bound.length, .sampler⟩ := by
  have hle := hs.resolve_right (bound_ne_nil_of_needs hn)
  cases st with
  | vertex =>
    exfalso
    rcases ht with ⟨k, r, hr, rfl⟩ | ⟨hn, _⟩
    · obtain ⟨hlt, _⟩ := List.getElem?_eq_some_iff.mp hr
      simp only [DrawStage.base, side] at hb hlt
      omega
    · simp [not_needs_vertex] at hn
  | fragment =>
    rcases ht with ⟨k, r, hr, rfl⟩ | ⟨_, rfl⟩
    · obtain ⟨hlt, _⟩ := List.getElem?_eq_some_iff.mp hr
      have : k = f.bound.length := Nat.add_left_cancel hb
      simp only [side] at hlt
      omega
    · rfl

theorem mem_uses {st : DrawStage} {e : EntryPoint} {u : DescriptorWrite} :
    u ∈ e.uses st ↔ (∃ k r, e.bound[k]? = some r ∧ u = ⟨st.base+k, r.named st⟩) ∨
      needsDefaultSampler st e = true ∧ e.constexprSampler = true ∧
        u = ⟨st.base+e.bound.length, .sampler⟩ := by
  rw [EntryPoint.uses, List.mem_append]
  refine or_congr ?_ ?_
  · rw [List.mem_mapIdx]
    constructor
    · rintro ⟨k, hk, rfl⟩
      exact ⟨k, _, List.getElem?_eq_getElem hk, rfl⟩
    · rintro ⟨k, r, hr, rfl⟩
      obtain ⟨hk, rfl⟩ := List.getElem?_eq_some_iff.mp hr
      exact ⟨k, hk, rfl⟩
  · split_ifs with h
    · rw [Bool.and_eq_true] at h
      simp [h.1, h.2]
    · simp only [Bool.and_eq_true, not_and] at h
      simp only [List.not_mem_nil, false_iff]
      exact fun hu => h hu.1 hu.2.1

/-- An argument's binding is reflected exactly when it comes early enough. -/
theorem reflected_arg_iff {st : DrawStage} {e : EntryPoint} {k : Nat} (hk : k < e.bound.length) :
    (∃ t ∈ reflectBindings st e, t.binding = st.base+k) ↔
      k ∈ e.boundViews ∨ e.boundViews.length+k < maxDescBindings := by
  constructor
  · rintro ⟨t, ht, hb⟩
    rcases mem_reflected_iff.mp ht with ⟨j, hj, rfl⟩ | ⟨j, r, _, hj, rfl⟩ | ⟨_, _, rfl⟩
    · exact Or.inl (Nat.add_left_cancel hb ▸ hj)
    · exact Or.inr (Nat.add_left_cancel hb ▸ hj)
    · have : e.bound.length = k := Nat.add_left_cancel hb
      omega
  · rintro (h | h)
    · exact ⟨_, mem_reflected_iff.mpr (Or.inl ⟨k, h, rfl⟩), rfl⟩
    · exact ⟨_, mem_reflected_iff.mpr (Or.inr (Or.inl ⟨k, _, List.getElem?_eq_getElem hk, h, rfl⟩)),
        rfl⟩

/-- The numbers the two stages hand out, with `extra` for the default sampler. -/
def bindingNumbers (v f : EntryPoint) (extra : Nat) : Finset Nat :=
  Finset.range v.bound.length ∪
    (Finset.range (f.bound.length+extra)).image (fragBindingBase+·)

theorem card_bindingNumbers (v f : EntryPoint) (extra : Nat) :
    (bindingNumbers v f extra).card ≤ v.bound.length+(f.bound.length+extra) := by
  refine (Finset.card_union_le _ _).trans (Nat.add_le_add ?_ ?_)
  · simp
  · exact Finset.card_image_le.trans (by simp)

theorem vertex_number {t : SpvBinding} (h : t ∈ reflectBindings .vertex v) (extra : Nat) :
    t.set = 0 ∧ t.binding ∈ bindingNumbers v f extra := by
  have he := entryOf_of_reflected h
  refine ⟨he.set_eq, ?_⟩
  rcases he with ⟨k, r, hr, rfl⟩ | ⟨hn, _⟩
  · obtain ⟨hk, _⟩ := List.getElem?_eq_some_iff.mp hr
    refine Finset.mem_union_left _ (Finset.mem_range.mpr ?_)
    simpa [DrawStage.base] using hk
  · simp [not_needs_vertex] at hn

theorem fragment_number {t : SpvBinding} (h : t ∈ reflectBindings .fragment f) {extra : Nat}
    (hb : t.binding < fragBindingBase+(f.bound.length+extra)) :
    t.set = 0 ∧ t.binding ∈ bindingNumbers v f extra := by
  have he := entryOf_of_reflected h
  refine ⟨he.set_eq, Finset.mem_union_right _ (Finset.mem_image.mpr ?_)⟩
  have hge : fragBindingBase ≤ t.binding := by
    rcases he with ⟨k, r, _, rfl⟩ | ⟨_, rfl⟩ <;> simp [DrawStage.base]
  exact ⟨t.binding-fragBindingBase, Finset.mem_range.mpr (by omega), by omega⟩

/-- A sorted list is its part below a number followed by the rest. -/
theorem sorted_split (m : Nat) (l : List SpvBinding) :
    l.Pairwise (fun a b => a.binding ≤ b.binding) →
      l.filter (·.binding < m)++l.filter (fun t => !decide (t.binding < m)) = l := by
  induction l with
  | nil => intro _; rfl
  | cons t l ih =>
    intro h
    obtain ⟨hle, hl⟩ := List.pairwise_cons.mp h
    by_cases ht : t.binding < m
    · simp [ht, ih hl]
    · have hnone : l.filter (·.binding < m) = [] := by
        refine List.filter_eq_nil_iff.mpr fun u hu => ?_
        have := hle u hu
        simp only [decide_eq_true_eq]
        omega
      have hall : l.filter (fun t => !decide (t.binding < m)) = l := by
        refine List.filter_eq_self.mpr fun u hu => ?_
        have := hle u hu
        simp only [Bool.not_eq_true', decide_eq_false_iff_not]
        omega
      simp [ht, hnone, hall]

theorem reflectBindings_sorted (st : DrawStage) (e : EntryPoint) :
    (reflectBindings st e).Pairwise fun a b => a.binding ≤ b.binding := by
  have : Std.Total fun a b : SpvBinding => a.binding ≤ b.binding :=
    ⟨fun a b => Nat.le_total a.binding b.binding⟩
  have : IsTrans SpvBinding fun a b => a.binding ≤ b.binding :=
    ⟨fun a b c hab hbc => Nat.le_trans hab hbc⟩
  exact List.pairwise_insertionSort _ _

theorem bound_count (hp : PairBounds v f) : v.bound.length+f.bound.length ≤ maxDescBindings :=
  (Nat.add_le_add (bound_sublist_resources v).length_le
    (bound_sublist_resources f).length_le).trans hp.count

/-- The merge keeps the binding of every argument that is reflected: the sorted default
sampler is the one that can fall off the end. -/
theorem merged_arg (hp : PairBounds v f) {st : DrawStage} {t : SpvBinding}
    (ht : t ∈ reflectBindings st (side v f st))
    (hb : t.binding < st.base+(side v f st).bound.length) :
    ∃ u ∈ merged v f, u.binding = t.binding := by
  have hcard : (bindingNumbers v f 0).card ≤ maxDescBindings :=
    (card_bindingNumbers v f 0).trans (bound_count hp)
  cases st with
  | vertex =>
    obtain ⟨u, hu, he⟩ := merge_complete hcard (reflectBindings .vertex v) [] List.nodup_nil
      (by simp) (fun t ht => vertex_number ht 0) t ht
    refine ⟨u, ?_, he⟩
    rw [merged, mergeBindings_eq, List.foldl_append]
    exact mem_merge_of_acc _ _ hu
  | fragment =>
    let m := fragBindingBase+f.bound.length
    let low := (reflectBindings .fragment f).filter (·.binding < m)
    have hlow : ∀ u ∈ reflectBindings .vertex v++low,
        u.set = 0 ∧ u.binding ∈ bindingNumbers v f 0 := by
      intro u hu
      rcases List.mem_append.mp hu with hu | hu
      · exact vertex_number hu 0
      · obtain ⟨hu, hlt⟩ := List.mem_filter.mp hu
        exact fragment_number hu (by simpa using hlt)
    obtain ⟨u, hu, he⟩ := merge_complete hcard (reflectBindings .vertex v++low) []
      List.nodup_nil (by simp) hlow t
      (List.mem_append_right _ (List.mem_filter.mpr ⟨ht, by simpa [m, DrawStage.base, side] using hb⟩))
    refine ⟨u, ?_, he⟩
    rw [merged, mergeBindings_eq, ← sorted_split m _ (reflectBindings_sorted .fragment f),
      ← List.append_assoc, List.foldl_append]
    exact mem_merge_of_acc _ _ hu

/-- With room for one more number the default sampler stays too. -/
theorem merged_default (hroom : v.bound.length+f.bound.length < maxDescBindings)
    {t : SpvBinding} (ht : t ∈ reflectBindings .fragment f) :
    ∃ u ∈ merged v f, u.binding = t.binding := by
  have hcard : (bindingNumbers v f 1).card ≤ maxDescBindings :=
    (card_bindingNumbers v f 1).trans (by omega)
  have hall : ∀ u ∈ reflectBindings .vertex v++reflectBindings .fragment f,
      u.set = 0 ∧ u.binding ∈ bindingNumbers v f 1 := by
    intro u hu
    rcases List.mem_append.mp hu with hu | hu
    · exact vertex_number hu 1
    · refine fragment_number hu ?_
      rcases entryOf_of_reflected hu with ⟨k, r, hr, rfl⟩ | ⟨_, rfl⟩
      · obtain ⟨hk, _⟩ := List.getElem?_eq_some_iff.mp hr
        simp only [DrawStage.base]
        omega
      · simp only [DrawStage.base]
        omega
  obtain ⟨u, hu, he⟩ := merge_complete hcard _ [] List.nodup_nil (by simp) hall t
    (List.mem_append_right _ ht)
  exact ⟨u, hu, he⟩

def boundOf (v f : EntryPoint) (t : SpvBinding) : BoundBinding :=
  ⟨t.binding%256, t.kind, metalIndex true (stageSpv .vertex v) (stageSpv .fragment f) t.binding⟩

theorem side_entry_of_merged {t : SpvBinding} (h : t ∈ merged v f) :
    ∃ st, EntryOf st (side v f st) t := by
  rcases entry_of_merged h with h | h
  · exact ⟨.vertex, h⟩
  · exact ⟨.fragment, h⟩

theorem boundOf_no {st : DrawStage} {t : SpvBinding} (h : EntryOf st (side v f st) t) :
    (boundOf v f t).no = t.binding := Nat.mod_eq_of_lt h.binding_lt

theorem bindingStage_base {st : DrawStage} {k : Nat} (h : st = .vertex → k < fragBindingBase) :
    bindingStage {} (st.base+k) = st := by
  cases st with
  | vertex =>
    have := h rfl
    simp only [bindingStage, DrawStage.base]
    rw [if_neg (by omega)]
  | fragment => simp [bindingStage, DrawStage.base]

/-- An argument that finds its own index in the metadata gets the slot it names. -/
theorem resolves_arg (hp : PairBounds v f) (hr : TablesReady env d v f) {st : DrawStage} {k : Nat}
    {r : ResourceArg} (hk : (side v f st).bound[k]? = some r) (ho : FindsOwn v f st k r) :
    Resolves {} env d (boundOf v f ⟨0, st.base+k, r.kind.spv⟩) (r.named st) := by
  have hno : (boundOf v f ⟨0, st.base+k, r.kind.spv⟩).no = st.base+k :=
    boundOf_no (Or.inl ⟨k, r, hk, rfl⟩)
  have hmem : r ∈ (side v f st).resources :=
    (bound_sublist_resources _).subset (List.mem_of_getElem? hk)
  have hloc := hp.locations st r hmem
  have hready := hr.slots st r hmem
  cases hkind : r.kind with
  | sampler =>
    rw [ResourceArg.named, hkind]
    exact resolves_sampler rfl hr.sampler
  | texture =>
    obtain ⟨hat, _⟩ := ho (by simp [hkind])
    rw [SlotReady, hkind] at hready
    rw [ResourceArg.named, hkind]
    refine resolves_texture rfl ?_ hloc hready.1 hready.2
    simp [boundOf, metalIndex_eq hp, hat]
  | buffer =>
    obtain ⟨hat, hlow⟩ := ho (by simp [hkind])
    have hstage : bindingStage {} (boundOf v f ⟨0, st.base+k, r.kind.spv⟩).no = st := by
      rw [hno]
      exact bindingStage_base (hlow hkind)
    rw [SlotReady, hkind] at hready
    rw [hkind] at hno hstage
    rw [ResourceArg.named, hkind]
    have hlt : (boundOf v f ⟨0, st.base+k, ResourceKind.buffer.spv⟩).no < maxBindingSlots := by
      rw [hno]
      exact locationAt_lt hat
    have hmetal : (boundOf v f ⟨0, st.base+k, ResourceKind.buffer.spv⟩).metal = r.location := by
      simp [boundOf, metalIndex_eq hp, hat]
    have hbuf := @resolves_buffer {} env d _ _ rfl hlt hmetal hloc
    rw [hstage] at hbuf
    exact hbuf hready.1 hready.2.1 hready.2.2 (hr.buffers _)

theorem filter_unique {l : List DescriptorWrite} {u : DescriptorWrite}
    (hn : (l.map DescriptorWrite.binding).Nodup) (hu : u ∈ l) :
    l.filter (fun w => w.binding = u.binding) = [u] := by
  induction l with
  | nil => simp at hu
  | cons w l ih =>
    rw [List.map_cons, List.nodup_cons] at hn
    rcases List.mem_cons.mp hu with rfl | hu
    · have hnone : l.filter (fun w => w.binding = u.binding) = [] := by
        refine List.filter_eq_nil_iff.mpr fun w hw => ?_
        simp only [decide_eq_true_eq]
        exact fun he => hn.1 (he ▸ List.mem_map_of_mem hw)
      simp [hnone]
    · have hne : w.binding ≠ u.binding := fun he => hn.1 (he ▸ List.mem_map_of_mem hu)
      simp [hne, ih hn.2 hu]

/-- The entry that stands at a used binding, and that it gets what it is to be given. -/
theorem use_resolves (hp : PairBounds v f) (hc : BindingCond v f) (hr : TablesReady env d v f)
    {st : DrawStage} {u : DescriptorWrite} (hu : u ∈ (side v f st).uses st) {t : SpvBinding}
    (ht : t ∈ merged v f) (hb : t.binding = u.binding) :
    Resolves {} env d (boundOf v f t) u.source := by
  obtain ⟨st', he⟩ := side_entry_of_merged ht
  rcases mem_uses.mp hu with ⟨k, r, hk, rfl⟩ | ⟨hn, _, rfl⟩
  · rw [entry_at hc.separate hk he hb]
    exact resolves_arg hp hr hk (hc.own st k r hk)
  · cases st with
    | vertex => simp [not_needs_vertex] at hn
    | fragment =>
      rw [default_at hc.separate hn he hb]
      exact resolves_sampler rfl hr.sampler

theorem entry_resolves (hp : PairBounds v f) (hc : BindingCond v f) (hr : TablesReady env d v f)
    {t : SpvBinding} (ht : t ∈ merged v f) : ∃ s, Resolves {} env d (boundOf v f t) s := by
  obtain ⟨st, ⟨k, r, hk, rfl⟩ | ⟨_, rfl⟩⟩ := side_entry_of_merged ht
  · exact ⟨_, resolves_arg hp hr hk (hc.own st k r hk)⟩
  · exact ⟨_, resolves_sampler rfl hr.sampler⟩

theorem Resolves.unique {pol : DescriptorPolicy} {b : BoundBinding} {s s' : DescriptorSource}
    (h : Resolves pol env d b s) (h' : Resolves pol env d b s') : s = s' :=
  Option.some.inj ((h.bound 0 0).symm.trans (h'.bound 0 0))

/-- Under the condition the layout holds every used binding. -/
theorem layout_of_cond (hp : PairBounds v f) (hc : BindingCond v f) {st : DrawStage}
    {u : DescriptorWrite} (hu : u ∈ (side v f st).uses st) :
    ∃ t ∈ merged v f, t.binding = u.binding := by
  rcases mem_uses.mp hu with ⟨k, r, hk, rfl⟩ | ⟨hn, hs, rfl⟩
  · obtain ⟨hlt, _⟩ := List.getElem?_eq_some_iff.mp hk
    obtain ⟨t, ht, hb⟩ := (reflected_arg_iff hlt).mpr (hc.reflects st k hlt)
    obtain ⟨w, hw, he⟩ := merged_arg hp ht (by omega)
    exact ⟨w, hw, he.trans hb⟩
  · cases st with
    | vertex => simp [not_needs_vertex] at hn
    | fragment =>
      obtain ⟨hfit, hroom⟩ := hc.defaultSampler hn hs
      have ht : (⟨0, DrawStage.fragment.base+f.bound.length, .sampler⟩ : SpvBinding) ∈
          reflectBindings .fragment f :=
        mem_reflected_iff.mpr (Or.inr (Or.inr ⟨hn, hfit, rfl⟩))
      exact merged_default hroom ht

/-- And each of them gets one descriptor, from the slot its argument names. -/
theorem writes_of_cond (hp : PairBounds v f) (hc : BindingCond v f) (hr : TablesReady env d v f)
    {st : DrawStage} {u : DescriptorWrite} (hu : u ∈ (side v f st).uses st) :
    ∃ ws, buildDrawDescriptorSet {} env d (pairBindings v f) = some ws ∧
      ws.filter (fun w => w.binding = u.binding) = [u] := by
  obtain ⟨t, ht, hb⟩ := layout_of_cond hp hc hu
  have hpair : pairBindings v f = (merged v f).map (boundOf v f) := pairBindings_eq v f
  have hall : ∀ b ∈ pairBindings v f, ∃ s, Resolves {} env d b s := by
    intro b hb
    rw [hpair] at hb
    obtain ⟨t, ht, rfl⟩ := List.mem_map.mp hb
    exact entry_resolves hp hc hr ht
  choose! source hsource using hall
  refine ⟨_, build_resolves hr.allocates ?_ ?_ hsource, filter_unique ?_ ?_⟩
  · rw [hpair, List.length_map]
    exact merged_length_le v f
  · rw [hpair]
    exact fun h => List.ne_nil_of_mem ht (List.map_eq_nil_iff.mp h)
  · have hnos : (pairBindings v f).map BoundBinding.no =
        (merged v f).map SpvBinding.binding := by
      rw [hpair, List.map_map]
      refine List.map_congr_left fun t ht => ?_
      obtain ⟨st, he⟩ := side_entry_of_merged ht
      exact boundOf_no he
    rw [List.map_map]
    exact hnos ▸ merged_nodup v f
  · have hmem : boundOf v f t ∈ pairBindings v f := hpair ▸ List.mem_map_of_mem ht
    obtain ⟨st', he⟩ := side_entry_of_merged ht
    have hs := (hsource _ hmem).unique (use_resolves hp hc hr hu ht hb)
    refine List.mem_map.mpr ⟨_, hmem, ?_⟩
    rw [hs, boundOf_no he, hb]

theorem disjoint_of_separate (hs : v.bound.length ≤ fragBindingBase ∨ f.bound = []) :
    ∀ a ∈ declaredBindings .vertex v, ∀ b ∈ declaredBindings .fragment f,
      a.binding ≠ b.binding := by
  intro a ha b hb he
  rcases entryOf_of_mem ha with ⟨k, r, hk, rfl⟩ | ⟨hn, _⟩
  · have hat := @entry_at v f hs .vertex .fragment k r b hk (entryOf_of_mem hb) he.symm
    obtain ⟨hlt, _⟩ := List.getElem?_eq_some_iff.mp hk
    have hge : fragBindingBase ≤ b.binding := by
      rcases entryOf_of_mem hb with ⟨j, r', _, rfl⟩ | ⟨_, rfl⟩ <;> simp [DrawStage.base]
    have hbk : b.binding = k := by simp [hat, DrawStage.base]
    have hnil : f.bound = [] := hs.resolve_left (by omega)
    rcases entryOf_of_mem hb with ⟨j, r', hr', _⟩ | ⟨hn, _⟩
    · simp [hnil] at hr'
    · exact bound_ne_nil_of_needs hn hnil
  · simp [not_needs_vertex] at hn

theorem arg_declared {st : DrawStage} {e : EntryPoint} {k : Nat} {r : ResourceArg}
    (hk : e.bound[k]? = some r) : ⟨0, st.base+k, r.kind.spv⟩ ∈ declaredBindings st e := by
  obtain ⟨hlt, rfl⟩ := List.getElem?_eq_some_iff.mp hk
  refine List.mem_append_left _ (List.mem_append_right _ (List.mem_mapIdx.mpr ?_))
  exact ⟨k, hlt, rfl⟩

/-- Seventeen vertex bindings reach into the fragment range. -/
theorem separate_of_disjoint (h : BindsNamedSlots v f) :
    v.bound.length ≤ fragBindingBase ∨ f.bound = [] := by
  by_contra hcon
  obtain ⟨hlen, hne⟩ := not_or.mp hcon
  obtain ⟨hv, hf⟩ : fragBindingBase < v.bound.length ∧ 0 < f.bound.length :=
    ⟨by omega, List.length_pos_iff.mpr hne⟩
  have ha := @arg_declared .vertex v fragBindingBase _ (List.getElem?_eq_getElem hv)
  have hb := @arg_declared .fragment f 0 _ (List.getElem?_eq_getElem hf)
  exact h.disjoint _ ha _ hb rfl

/-- What stands in the layout at an own binding was reflected from the own stage. -/
theorem reflected_own (h : BindsNamedSlots v f) {st : DrawStage} {a t : SpvBinding}
    (ha : a ∈ declaredBindings st (side v f st)) (ht : t ∈ merged v f)
    (hb : t.binding = a.binding) : t ∈ reflectBindings st (side v f st) := by
  rcases mem_of_mem_merge _ _ ht with ht | ht
  · simp at ht
  · have hdecl : ∀ {st' e}, t ∈ reflectBindings st' e → t ∈ declaredBindings st' e :=
      fun h => List.mem_of_mem_take (mem_reflectBindings.mp h)
    rcases List.mem_append.mp ht with ht | ht
    · cases st with
      | vertex => exact ht
      | fragment => exact absurd hb (h.disjoint _ (hdecl ht) _ ha)
    · cases st with
      | vertex => exact absurd hb.symm (h.disjoint _ ha _ (hdecl ht))
      | fragment => exact ht

theorem reflects_of_layout (h : BindsNamedSlots v f) (st : DrawStage) :
    Reflects (side v f st) := by
  intro k hk
  have hr := List.getElem?_eq_getElem hk
  obtain ⟨t, ht, hb⟩ := h.layout st _ (mem_uses.mpr (Or.inl ⟨k, _, hr, rfl⟩))
  rw [pairLayout_eq] at ht
  exact (reflected_arg_iff hk).mp ⟨t, reflected_own h (arg_declared hr) ht hb, hb⟩

theorem default_declared {e : EntryPoint} (hn : needsDefaultSampler .fragment e = true) :
    ⟨0, DrawStage.fragment.base+e.bound.length, .sampler⟩ ∈ declaredBindings .fragment e := by
  refine List.mem_append_right _ ?_
  simp [hn]

/-- A used default sampler needs a place before the cut and one number to spare. -/
theorem default_of_layout (h : BindsNamedSlots v f) (hn : needsDefaultSampler .fragment f = true)
    (hs : f.constexprSampler = true) :
    f.boundViews.length+f.bound.length < maxDescBindings ∧
      v.bound.length+f.bound.length < maxDescBindings := by
  have huse : (⟨DrawStage.fragment.base+f.bound.length, .sampler⟩ : DescriptorWrite) ∈
      (side v f .fragment).uses .fragment := mem_uses.mpr (Or.inr ⟨hn, hs, rfl⟩)
  obtain ⟨t, ht, hb⟩ := h.layout .fragment _ huse
  rw [pairLayout_eq] at ht
  constructor
  · have hmem := @reflected_own v f h .fragment _ t (default_declared hn) ht hb
    rcases mem_reflected_iff.mp hmem with ⟨k, hk, rfl⟩ | ⟨k, r, hr, _, rfl⟩ | ⟨_, hfit, _⟩
    · obtain ⟨_, r, hr, _⟩ := mem_boundViews.mp hk
      obtain ⟨hlt, _⟩ := List.getElem?_eq_some_iff.mp hr
      have : k = f.bound.length := Nat.add_left_cancel hb
      simp only [side] at hlt
      omega
    · obtain ⟨hlt, _⟩ := List.getElem?_eq_some_iff.mp hr
      have : k = f.bound.length := Nat.add_left_cancel hb
      simp only [side] at hlt
      omega
    · exact hfit
  · -- the layout holds distinct numbers, among them one for each argument and this one
    have hle := (separate_of_disjoint h).resolve_right (bound_ne_nil_of_needs hn)
    have harg : ∀ st k, k < (side v f st).bound.length →
        st.base+k ∈ ((merged v f).map SpvBinding.binding).toFinset := by
      intro st k hk
      obtain ⟨t, ht, hb⟩ := h.layout st _
        (mem_uses.mpr (Or.inl ⟨k, _, List.getElem?_eq_getElem hk, rfl⟩))
      rw [pairLayout_eq] at ht
      exact List.mem_toFinset.mpr (List.mem_map.mpr ⟨t, ht, hb⟩)
    have hsub : bindingNumbers v f 1 ⊆ ((merged v f).map SpvBinding.binding).toFinset := by
      intro b hmem
      rcases Finset.mem_union.mp hmem with hmem | hmem
      · simpa [DrawStage.base] using harg .vertex b (Finset.mem_range.mp hmem)
      · obtain ⟨j, hj, rfl⟩ := Finset.mem_image.mp hmem
        rcases Nat.lt_succ_iff_lt_or_eq.mp (Finset.mem_range.mp hj) with hj | rfl
        · exact harg .fragment j hj
        · exact List.mem_toFinset.mpr (List.mem_map.mpr ⟨t, ht, hb⟩)
    have hcard : (bindingNumbers v f 1).card = v.bound.length+(f.bound.length+1) := by
      rw [bindingNumbers, Finset.card_union_of_disjoint, Finset.card_range,
        Finset.card_image_of_injective _ (fun a b hab => Nat.add_left_cancel hab),
        Finset.card_range]
      refine Finset.disjoint_left.mpr fun b hb hb' => ?_
      obtain ⟨j, _, rfl⟩ := Finset.mem_image.mp hb'
      have := Finset.mem_range.mp hb
      omega
    have hbound := Finset.card_le_card hsub
    rw [hcard, List.toFinset_card_of_nodup (merged_nodup v f), List.length_map] at hbound
    have := merged_length_le v f
    omega

/-- Every slot of every table bound, each to a reference of its own. -/
def fullSlots : List BindingSlot := (List.range maxBindingSlots).map fun s => ⟨s+1, 0, true⟩

def fullTables : DrawState where
  vertexBuffers := fullSlots
  fragmentBuffers := fullSlots
  fragmentTextures := fullSlots

theorem slotAt_full {s : Nat} (h : s < maxBindingSlots) : slotAt fullSlots s = ⟨s+1, 0, true⟩ := by
  simp [slotAt, fullSlots, h]

theorem buffers_full (st : DrawStage) : fullTables.buffers st = fullSlots := by cases st <;> rfl

theorem tablesReady_full (hp : PairBounds v f) (small : Nat → Bool) :
    TablesReady { smallTexture := small } fullTables v f := by
  refine ⟨fun st r hr => ?_, rfl, rfl, fun _ => rfl⟩
  have hloc := hp.locations st r hr
  rw [SlotReady]
  cases r.kind with
  | buffer => simp [buffers_full, slotAt_full hloc]
  | texture => simp [fullTables, slotAt_full hloc]
  | sampler => trivial

/-- Wherever a buffer's slot comes from, it is in the table its number stands for. -/
theorem bufferSlot_stage {b : BoundBinding} {u : Nat} {slot : DrawStage × Nat}
    (h : (bufferSlot {} env d b u).1 = some slot) :
    b.no < maxBindingSlots ∧ bindingStage {} b.no = slot.1 := by
  rw [bufferSlot] at h
  by_cases hno : maxBindingSlots ≤ b.no
  · simp [hno] at h
  refine ⟨by omega, ?_⟩
  rw [if_neg hno] at h
  cases ha : authoritativeSlot {} d b with
  | some auth =>
    obtain rfl : auth = slot := by simpa [ha] using h
    simp only [authoritativeSlot] at ha
    split_ifs at ha
    exact congrArg Prod.fst (Option.some.inj ha)
  | none =>
    by_cases hf : fragBindingBase ≤ b.no
    · simp only [ha, if_true, if_pos hf] at h
      split_ifs at h
      obtain rfl := Option.some.inj h
      simp [bindingStage, hf]
    · simp only [ha, if_true, if_neg hf] at h
      obtain ⟨_, _, rfl⟩ := Option.map_eq_some_iff.mp h
      simp [bindingStage, hf]

theorem bufferSource_stage {b : BoundBinding} {u n : Nat} {st : DrawStage}
    (h : bufferSource {} env d b u = .buffer st n) :
    b.no < maxBindingSlots ∧ bindingStage {} b.no = st := by
  cases hs : (bufferSlot {} env d b u).1 with
  | none => simp [bufferSource, hs] at h
  | some slot =>
    obtain ⟨st', s⟩ := slot
    simp only [bufferSource, hs] at h
    split_ifs at h
    obtain ⟨rfl, _⟩ : st' = st ∧ s = n := by simpa using h
    exact bufferSlot_stage hs

/-- With every slot bound a buffer comes from its recorded index. -/
theorem bufferSource_full {b : BoundBinding} {u m : Nat} (hm : b.metal = m)
    (hlt : m < maxBindingSlots) (hno : b.no < maxBindingSlots) :
    bufferSource {} {} fullTables b u = .buffer (bindingStage {} b.no) m := by
  have hslot := slotAt_full hlt
  have ha : authoritativeSlot {} fullTables b = some (bindingStage {} b.no, m) := by
    simp [authoritativeSlot, hm, hlt, buffers_full, hslot]
  have hs : bufferSlot {} {} fullTables b u = (some (bindingStage {} b.no, m), u) := by
    rw [bufferSlot, if_neg (by omega), ha]
  simp [bufferSource, hs, buffers_full, hslot]

theorem below_base {k : Nat} (h : bindingStage {} (DrawStage.vertex.base+k) = .vertex) :
    k < fragBindingBase := by
  by_contra hge
  simp [bindingStage, DrawStage.base, Nat.not_lt.mp hge] at h

/-- A vertex binding below the base and a fragment binding in the tables have metadata. -/
theorem locationAt_isSome {st : DrawStage} {k : Nat} (hk : k < (side v f st).bound.length)
    (hno : st.base+k < maxBindingSlots) (hst : bindingStage {} (st.base+k) = st) :
    ∃ m, locationAt v f (st.base+k) = some m := by
  have hlt : k < (side v f st).resources.length :=
    hk.trans_le (bound_sublist_resources _).length_le
  cases st with
  | vertex =>
    have hlow := below_base hst
    have hget : k < (v.resources.take maxArgBindings).length := by
      rw [List.length_take]
      exact lt_min hlow hlt
    refine ⟨((v.resources.take maxArgBindings)[k]).location, ?_⟩
    simp only [locationAt, DrawStage.base, Nat.zero_add, if_pos hlow,
      List.getElem?_eq_getElem hget, Option.map_some]
  | fragment =>
    have hlow : k < maxArgBindings := by
      simp only [DrawStage.base, fragBindingBase, maxBindingSlots] at hno
      rw [maxArgBindings]
      omega
    have hget : k < (f.resources.take maxArgBindings).length := by
      rw [List.length_take]
      exact lt_min hlow hlt
    refine ⟨((f.resources.take maxArgBindings)[k]).location, ?_⟩
    simp only [locationAt, DrawStage.base, Nat.not_lt.mpr (Nat.le_add_right _ _),
      if_false, Nat.add_sub_cancel_left, List.getElem?_eq_getElem hget, Option.map_some]

/-- The write an argument gets, at the ordinal of its place in the list. -/
theorem write_of_arg (h : BindsNamedSlots v f) (hr : TablesReady env d v f) {st : DrawStage}
    {k : Nat} {r : ResourceArg} (hk : (side v f st).bound[k]? = some r) :
    ∃ u, bindOne {} env d (boundOf v f ⟨0, st.base+k, r.kind.spv⟩)
      (((pairBindings v f).takeWhile
        (· ≠ boundOf v f ⟨0, st.base+k, r.kind.spv⟩)).countP (·.kind = .sampledImage)) u =
      some (r.named st) := by
  obtain ⟨ws, hbuild, hfilter⟩ :=
    h.writes env d hr st _ (mem_uses.mpr (Or.inl ⟨k, r, hk, rfl⟩))
  have hmem : (⟨st.base+k, r.named st⟩ : DescriptorWrite) ∈ ws := by
    refine (List.mem_filter (p := fun w => decide (w.binding = st.base+k))).mp ?_ |>.1
    rw [hfilter]
    exact List.mem_singleton.mpr rfl
  obtain ⟨pre, b, post, hsplit, hno, u, hone⟩ := mem_build hbuild hmem
  have hpair : pairBindings v f = (merged v f).map (boundOf v f) := pairBindings_eq v f
  have hlist : pairBindings v f = pre++b :: post := by
    rw [← hsplit, List.take_of_length_le]
    rw [hpair, List.length_map]
    exact merged_length_le v f
  obtain ⟨t, ht, rfl⟩ : ∃ t ∈ merged v f, boundOf v f t = b := by
    have hb : b ∈ pairBindings v f := by simp [hlist]
    rw [hpair] at hb
    exact List.mem_map.mp hb
  obtain ⟨st', he⟩ := side_entry_of_merged ht
  have hb : t.binding = st.base+k := (boundOf_no he).symm.trans hno.symm
  obtain rfl := entry_at (separate_of_disjoint h) hk he hb
  refine ⟨u, ?_⟩
  -- numbers are distinct, so what stands before the binding is what is not it
  have hnodup : (pairBindings v f).Nodup := by
    refine List.Nodup.of_map BoundBinding.no ?_
    have hnos : (pairBindings v f).map BoundBinding.no =
        (merged v f).map SpvBinding.binding := by
      rw [hpair, List.map_map]
      refine List.map_congr_left fun t ht => ?_
      obtain ⟨st, he⟩ := side_entry_of_merged ht
      exact boundOf_no he
    rw [hnos]
    exact merged_nodup v f
  have hpre : (pairBindings v f).takeWhile
      (· ≠ boundOf v f ⟨0, st.base+k, r.kind.spv⟩) = pre := by
    rw [hlist] at hnodup ⊢
    have hnot : ∀ c ∈ pre, c ≠ boundOf v f ⟨0, st.base+k, r.kind.spv⟩ := by
      rintro c hc rfl
      exact (List.nodup_append.mp hnodup).2.2 _ hc _ List.mem_cons_self rfl
    rw [List.takeWhile_append_of_pos (by simpa using hnot)]
    simp
  rw [hpre]
  exact hone

theorem locationAt_bound (hp : PairBounds v f) {no m : Nat} (h : locationAt v f no = some m) :
    m < maxBindingSlots := by
  have hmem : ∀ (st : DrawStage) (i : Nat),
      ((side v f st).resources.take maxArgBindings)[i]?.map ResourceArg.location = some m →
        m < maxBindingSlots := by
    intro st i hi
    obtain ⟨r, hr, rfl⟩ := Option.map_eq_some_iff.mp hi
    exact hp.locations st r (List.mem_of_mem_take (List.mem_of_getElem? hr))
  rw [locationAt] at h
  split_ifs at h
  · exact hmem .vertex _ h
  · exact hmem .fragment _ h

theorem own_of_buffer (hp : PairBounds v f) (h : BindsNamedSlots v f) {st : DrawStage} {k : Nat}
    {r : ResourceArg} (hk : (side v f st).bound[k]? = some r) (hkind : r.kind = .buffer) :
    locationAt v f (st.base+k) = some r.location ∧ (st = .vertex → k < fragBindingBase) := by
  obtain ⟨u, hone⟩ := write_of_arg h (tablesReady_full hp fun _ => false) hk
  obtain ⟨hlt, _⟩ := List.getElem?_eq_some_iff.mp hk
  have hno : (boundOf v f ⟨0, st.base+k, r.kind.spv⟩).no = st.base+k :=
    boundOf_no (Or.inl ⟨k, r, hk, rfl⟩)
  have hsource : bufferSource {} {} fullTables (boundOf v f ⟨0, st.base+k, r.kind.spv⟩) u =
      .buffer st r.location := by
    simpa [bindOne, boundOf, hkind, ResourceKind.spv, ResourceArg.named] using hone
  obtain ⟨hslots, hstage⟩ := bufferSource_stage hsource
  rw [hno] at hslots hstage
  obtain ⟨m, hm⟩ := locationAt_isSome hlt hslots hstage
  have hmetal : (boundOf v f ⟨0, st.base+k, r.kind.spv⟩).metal = m := by
    simp [boundOf, metalIndex_eq hp, hm]
  rw [bufferSource_full hmetal (locationAt_bound hp hm) (by omega)] at hsource
  obtain ⟨_, rfl⟩ : _ ∧ m = r.location := by simpa using hsource
  refine ⟨hm, ?_⟩
  rintro rfl
  exact below_base hstage

/-- Small textures first, and which slot that puts in front. -/
theorem validTexSlots_first : ∀ n < maxBindingSlots,
    validTexSlots {} { smallTexture := fun ref => ref = n+1 } fullTables =
      n :: (List.range maxBindingSlots).filter (· ≠ n) := by
  decide

theorem validTexSlots_last : ∀ n < maxBindingSlots,
    (validTexSlots {} { smallTexture := fun ref => ref ≠ n+1 } fullTables).getD 0
      maxBindingSlots ≠ n := by
  decide

theorem getD_filter_ne (n i : Nat) (hn : n < maxBindingSlots) :
    ((List.range maxBindingSlots).filter (· ≠ n)).getD i maxBindingSlots ≠ n := by
  rw [List.getD_eq_getElem?_getD]
  cases hi : ((List.range maxBindingSlots).filter (· ≠ n))[i]? with
  | none => simpa using Nat.ne_of_gt hn
  | some s =>
    have hs := (List.mem_filter.mp (List.mem_of_getElem? hi)).2
    simpa using hs

/-- Without metadata the slot of a texture hangs on which textures are small. -/
theorem textureIndex_unstable {b : BoundBinding} (hm : b.metal = -1) {n : Nat}
    (hn : n < maxBindingSlots) (texOrd : Nat) :
    textureIndex {} { smallTexture := fun ref => ref = n+1 } fullTables b texOrd ≠ n ∨
      textureIndex {} { smallTexture := fun ref => ref ≠ n+1 } fullTables b texOrd ≠ n := by
  cases texOrd with
  | zero =>
    right
    simpa [textureIndex, hm] using validTexSlots_last n hn
  | succ i =>
    left
    simpa [textureIndex, hm, validTexSlots_first n hn] using getD_filter_ne n i hn

theorem own_of_texture (hp : PairBounds v f) (h : BindsNamedSlots v f) {st : DrawStage} {k : Nat}
    {r : ResourceArg} (hk : (side v f st).bound[k]? = some r) (hkind : r.kind = .texture) :
    locationAt v f (st.base+k) = some r.location := by
  have hloc : r.location < maxBindingSlots :=
    hp.locations st r ((bound_sublist_resources _).subset (List.mem_of_getElem? hk))
  -- the index the texture is taken from, whatever textures are small
  have hindex : ∀ small : Nat → Bool, textureIndex {} { smallTexture := small } fullTables
      (boundOf v f ⟨0, st.base+k, r.kind.spv⟩) (((pairBindings v f).takeWhile
        (· ≠ boundOf v f ⟨0, st.base+k, r.kind.spv⟩)).countP (·.kind = .sampledImage)) =
      r.location := by
    intro small
    obtain ⟨u, hone⟩ := write_of_arg h (tablesReady_full hp small) hk
    have hsource : textureSource {} { smallTexture := small } fullTables
        (boundOf v f ⟨0, st.base+k, r.kind.spv⟩) (((pairBindings v f).takeWhile
          (· ≠ boundOf v f ⟨0, st.base+k, r.kind.spv⟩)).countP (·.kind = .sampledImage)) =
        some (.texture r.location) := by
      simpa [bindOne, boundOf, hkind, ResourceKind.spv, ResourceArg.named] using hone
    exact textureIndex_of_source hsource
  cases hat : locationAt v f (st.base+k) with
  | some m =>
    have hm := locationAt_bound hp hat
    have hfirst := hindex fun _ => false
    have hmetal : (boundOf v f ⟨0, st.base+k, r.kind.spv⟩).metal = m := by
      simp [boundOf, metalIndex_eq hp, hat]
    have hvalid : (slotAt fullTables.fragmentTextures m).valid = true := by
      simp [fullTables, slotAt_full hm]
    rw [textureIndex, hmetal, if_pos ⟨by omega, by exact_mod_cast hm, by simpa using hvalid⟩] at hfirst
    simpa using hfirst
  | none =>
    exfalso
    have hmetal : (boundOf v f ⟨0, st.base+k, r.kind.spv⟩).metal = -1 := by
      simp [boundOf, metalIndex_eq hp, hat]
    rcases textureIndex_unstable hmetal hloc _ with hne | hne
    · exact hne (hindex _)
    · exact hne (hindex _)

theorem own_of_writes (hp : PairBounds v f) (h : BindsNamedSlots v f) {st : DrawStage} {k : Nat}
    {r : ResourceArg} (hk : (side v f st).bound[k]? = some r) : FindsOwn v f st k r := by
  intro hne
  cases hkind : r.kind with
  | sampler => exact absurd hkind hne
  | texture => exact ⟨own_of_texture hp h hk hkind, fun hbuf => by simp at hbuf⟩
  | buffer =>
    obtain ⟨hat, hlow⟩ := own_of_buffer hp h hk hkind
    exact ⟨hat, fun _ => hlow⟩

end

/-- A matrix at buffer 1 behind a stage-in attribute, and a texture with a colour. -/
def compositeVertex : EntryPoint := { args := [.stageIn, .resource ⟨.buffer, 1, false⟩] }

def compositeFragment : EntryPoint where
  args := [.resource ⟨.texture, 3, false⟩, .resource ⟨.buffer, 2, false⟩]
  constexprSampler := true

theorem composite_bounds : PairBounds compositeVertex compositeFragment := by
  refine ⟨by decide, fun st => ?_⟩
  cases st with
  | vertex => decide
  | fragment => decide

/-- A buffer the translator cannot model, before the one it binds. -/
def skippingVertex : EntryPoint :=
  { args := [.resource ⟨.buffer, 0, true⟩, .resource ⟨.buffer, 1, false⟩] }

end Lagfx
