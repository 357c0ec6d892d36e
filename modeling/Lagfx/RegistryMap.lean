import Mathlib.Data.Set.Card
import Lagfx.Lib.Runs
import Lagfx.ResourceRegistry

/-! The resource registry as a finite map from (ref, task) to what was registered, and as the
table that textures are looked up in by ref alone. -/
namespace Lagfx
open SlotTable Runs

abbrev ResourceKey := Nat × Nat

/-- What a registration gives a key. -/
structure ResourceValue where
  type : ResourceType
  gpuAddr : Nat
  size : Nat
deriving DecidableEq, Repr

def ResourceEntry.value (e : ResourceEntry) : ResourceValue := ⟨e.type, e.gpuAddr, e.size⟩

inductive RegistryOp where
  | register (ref : Nat) (type : ResourceType) (taskId gpuAddr size : Nat)
  | unregister (ref taskId : Nat)
  | clearTask (taskId : Nat)
deriving DecidableEq, Repr

def registryStep (r : Registry) : RegistryOp → Registry
  | .register ref type taskId gpuAddr size => r.register ref type taskId gpuAddr size
  | .unregister ref taskId => r.unregister ref taskId
  | .clearTask taskId => r.clearTask taskId

/-- The entry that `lagfx_resource_lookup` points to. -/
def Registry.entryOf (r : Registry) (k : ResourceKey) : Option ResourceEntry :=
  (r.lookup k.1 k.2).bind fun i => r.entries[i]?

/-- The entry that `lagfx_resource_lookup_texture` points to. -/
def Registry.textureOf (r : Registry) (ref : Nat) : Option ResourceEntry :=
  (r.lookupTexture ref).bind fun i => r.entries[i]?

def Registry.valueOf (r : Registry) (k : ResourceKey) : Option ResourceValue :=
  (r.entryOf k).map ResourceEntry.value

/- What the table is for: a map with room for `maxResources` keys. -/
abbrev ResourceMap := ResourceKey → Option ResourceValue

def ResourceMap.keys (m : ResourceMap) : Set ResourceKey := {k | (m k).isSome}

open Classical in
noncomputable def resourceMapStep (m : ResourceMap) : RegistryOp → ResourceMap
  | .register ref type taskId gpuAddr size =>
    if (ref, taskId) ∈ m.keys ∨ m.keys.ncard < maxResources then
      Function.update m (ref, taskId) (some ⟨type, gpuAddr, size⟩)
    else m
  | .unregister ref taskId => Function.update m (ref, taskId) none
  | .clearTask taskId => fun k => if k.2 = taskId then none else m k

/-- No key is in the table twice, so a lookup finds the entry of its key. -/
theorem entryOf_eq_some {r : Registry} {k : ResourceKey} {e : ResourceEntry} :
    r.entryOf k = some e ↔ e ∈ r.entries ∧ e.key = k := by
  have hfind : r.entryOf k = r.entries.find? fun e => e.ref == k.1 && e.taskId == k.2 :=
    List.find?_eq_bind_findIdx?_getElem?.symm
  have hkey : ∀ e : ResourceEntry, (e.ref == k.1 && e.taskId == k.2) = true ↔ e.key = k := by
    intro e
    simp [ResourceEntry.key, Prod.ext_iff]
  rw [hfind]
  constructor
  · intro h
    have hp := List.find?_some h
    exact ⟨List.mem_of_find?_eq_some h, (hkey e).1 hp⟩
  · intro h
    obtain ⟨hm, hk⟩ := h
    cases hf : r.entries.find? fun e => e.ref == k.1 && e.taskId == k.2 with
    | none => exact absurd ((hkey e).2 hk) (List.find?_eq_none.1 hf e hm)
    | some e' =>
      have hp := List.find?_some hf
      have hk' := (hkey e').1 hp
      rw [List.inj_on_of_nodup_map r.nodup hm (List.mem_of_find?_eq_some hf) (hk.trans hk'.symm)]

theorem entryOf_eq_none {r : Registry} {k : ResourceKey} :
    r.entryOf k = none ↔ ∀ e ∈ r.entries, e.key ≠ k := by
  rw [Option.eq_none_iff_forall_ne_some]
  constructor
  · intro h e he hk
    exact h e (entryOf_eq_some.2 ⟨he, hk⟩)
  · intro h e he
    exact h e (entryOf_eq_some.1 he).1 (entryOf_eq_some.1 he).2

theorem entryOf_congr {r r' : Registry} {k : ResourceKey}
    (h : ∀ e, e.key = k → (e ∈ r'.entries ↔ e ∈ r.entries)) : r'.entryOf k = r.entryOf k := by
  apply Option.ext
  intro e
  rw [entryOf_eq_some, entryOf_eq_some]
  constructor
  · intro he
    exact ⟨(h e he.2).1 he.1, he.2⟩
  · intro he
    exact ⟨(h e he.2).2 he.1, he.2⟩

theorem textureOf_eq_find (r : Registry) (ref : Nat) :
    r.textureOf ref = r.entries.find? fun e => e.ref == ref && e.type == .texture :=
  List.find?_eq_bind_findIdx?_getElem?.symm

/-- The other slots hold the other keys. -/
theorem mem_eraseIdx_iff {r : Registry} {i : Nat} {e₀ : ResourceEntry}
    (hi : r.entries[i]? = some e₀) (e : ResourceEntry) :
    e ∈ r.entries.eraseIdx i ↔ e ∈ r.entries ∧ e.key ≠ e₀.key := by
  have hperm := perm_cons_eraseIdx hi
  have hnodup := (hperm.map ResourceEntry.key).nodup_iff.1 r.nodup
  rw [List.map_cons, List.nodup_cons] at hnodup
  rw [hperm.mem_iff, List.mem_cons]
  constructor
  · intro he
    exact ⟨.inr he, fun hk => hnodup.1 (hk ▸ List.mem_map_of_mem he)⟩
  · intro he
    exact he.1.resolve_left fun h => he.2 (congrArg _ h)

/-- Writing one slot. -/
theorem mem_modify_iff {r : Registry} {i : Nat} {f : ResourceEntry → ResourceEntry}
    (hf : ∀ e, (f e).key = e.key) {e₀ : ResourceEntry} (hi : r.entries[i]? = some e₀)
    (e : ResourceEntry) : e ∈ (r.modify i f hf).entries ↔
      e = f e₀ ∨ (e ∈ r.entries ∧ e.key ≠ e₀.key) := by
  obtain ⟨hlt, -⟩ := List.getElem?_eq_some_iff.1 hi
  have hset : (r.modify i f hf).entries = r.entries.set i (f e₀) := modify_eq_set f hi
  rw [hset, (List.set_perm_cons_eraseIdx hlt (f e₀)).mem_iff, List.mem_cons, mem_eraseIdx_iff hi]

theorem unregister_some {r : Registry} {ref taskId i : Nat} (h : r.lookup ref taskId = some i) :
    (r.unregister ref taskId).entries = swapRemove r.entries i := by
  rw [Registry.unregister]
  split
  · rename_i j hj
    rw [Option.some.inj (h.symm.trans hj)]
  · rename_i hn
    rw [h] at hn
    cases hn

theorem unregister_none {r : Registry} {ref taskId : Nat} (h : r.lookup ref taskId = none) :
    r.unregister ref taskId = r := by
  rw [Registry.unregister]
  split
  · rename_i j hj
    rw [h] at hj
    cases hj
  · rfl

theorem mem_unregister_iff (r : Registry) (ref taskId : Nat) (e : ResourceEntry) :
    e ∈ (r.unregister ref taskId).entries ↔ e ∈ r.entries ∧ e.key ≠ (ref, taskId) := by
  cases hl : r.lookup ref taskId with
  | none =>
    rw [unregister_none hl]
    exact (and_iff_left_of_imp fun he => lookup_eq_none.1 hl e he).symm
  | some i =>
    obtain ⟨e₀, hi, hk⟩ := lookup_eq_some hl
    rw [unregister_some hl, (swapRemove_perm (List.getElem?_eq_some_iff.1 hi).1).mem_iff,
      mem_eraseIdx_iff hi, hk]

theorem mem_clearTask_iff (r : Registry) (taskId : Nat) (e : ResourceEntry) :
    e ∈ (r.clearTask taskId).entries ↔ e ∈ r.entries ∧ e.taskId ≠ taskId := by
  simp [Registry.clearTask]

theorem registry_ext {r r' : Registry} (h : r.entries = r'.entries) : r = r' := by
  cases r
  cases r'
  cases h
  rfl

/-- Registering leaves an entry of the key with these values, and no other key changes,
unless the key is new and the table full. -/
theorem register_cases (r : Registry) (ref : Nat) (type : ResourceType)
    (taskId gpuAddr size : Nat) :
    ((r.lookup ref taskId = none ∧ maxResources ≤ r.entries.length) ∧
      r.register ref type taskId gpuAddr size = r) ∨
    ((r.lookup ref taskId ≠ none ∨ r.entries.length < maxResources) ∧
      ∃ e₁, e₁.key = (ref, taskId) ∧ e₁.value = ⟨type, gpuAddr, size⟩ ∧
        ∀ e, e ∈ (r.register ref type taskId gpuAddr size).entries ↔
          e = e₁ ∨ (e ∈ r.entries ∧ e.key ≠ (ref, taskId))) := by
  cases hl : r.lookup ref taskId with
  | some i =>
    obtain ⟨e₀, hi, hk⟩ := lookup_eq_some hl
    refine .inr ⟨.inl (by simp), { e₀ with type := type, gpuAddr := gpuAddr, size := size }, hk,
      rfl, ?_⟩
    intro e
    rw [register_some hl, ← hk]
    exact mem_modify_iff _ hi e
  | none =>
    have hreg := register_none hl type gpuAddr size
    by_cases hroom : r.entries.length < maxResources
    · rw [if_pos hroom] at hreg
      refine .inr ⟨.inr hroom, ⟨ref, type, taskId, none, gpuAddr, size, false⟩, rfl, rfl, ?_⟩
      intro e
      rw [hreg, List.mem_append, List.mem_singleton, or_comm]
      exact or_congr_right (and_iff_left_of_imp fun he => lookup_eq_none.1 hl e he).symm
    · refine .inl ⟨⟨rfl, Nat.not_lt.1 hroom⟩, ?_⟩
      rw [if_neg hroom] at hreg
      exact registry_ext hreg

/-- An entry found by its key is the only one with that key. -/
theorem eq_of_key_eq {r : Registry} {e e' : ResourceEntry} (he : e ∈ r.entries)
    (he' : e' ∈ r.entries) (hk : e.key = e'.key) : e = e' :=
  Option.some.inj ((entryOf_eq_some.2 ⟨he, hk⟩).symm.trans (entryOf_eq_some.2 ⟨he', rfl⟩))

theorem mem_keys_iff {r : Registry} {k : ResourceKey} :
    k ∈ ResourceMap.keys r.valueOf ↔ k ∈ r.entries.map ResourceEntry.key := by
  have hsome : k ∈ ResourceMap.keys r.valueOf ↔ (r.entryOf k).isSome = true := by
    rw [ResourceMap.keys, Set.mem_ofPred_eq, Registry.valueOf, Option.isSome_map]
  rw [hsome, Option.isSome_iff_exists, List.mem_map]
  constructor
  · intro h
    obtain ⟨e, he⟩ := h
    exact ⟨e, entryOf_eq_some.1 he⟩
  · intro h
    obtain ⟨e, he⟩ := h
    exact ⟨e, entryOf_eq_some.2 he⟩

/-- The table is as long as the map has keys. -/
theorem keys_ncard (r : Registry) : (ResourceMap.keys r.valueOf).ncard = r.entries.length := by
  have hset : ResourceMap.keys r.valueOf = ((r.entries.map ResourceEntry.key).toFinset : Set _) := by
    ext k
    rw [mem_keys_iff, Finset.mem_coe, List.mem_toFinset]
  rw [hset, Set.ncard_coe_finset, List.toFinset_card_of_nodup r.nodup, List.length_map]

/-- One call is one step of the map. -/
theorem valueOf_step (r : Registry) (op : RegistryOp) :
    (registryStep r op).valueOf = resourceMapStep r.valueOf op := by
  cases op with
  | register ref type taskId gpuAddr size =>
    have hroom : ((ref, taskId) ∈ ResourceMap.keys r.valueOf ∨
        (ResourceMap.keys r.valueOf).ncard < maxResources) ↔
        (r.lookup ref taskId ≠ none ∨ r.entries.length < maxResources) := by
      rw [keys_ncard, mem_keys_iff, Ne, lookup_eq_none, List.mem_map]
      push Not
      rfl
    rw [registryStep, resourceMapStep]
    obtain ⟨hfull, hsame⟩ | ⟨hok, e₁, hk, hv, hmem⟩ := register_cases r ref type taskId gpuAddr size
    · rw [hsame, if_neg]
      rw [hroom, not_or, not_not]
      exact ⟨hfull.1, Nat.not_lt.2 hfull.2⟩
    · rw [if_pos (hroom.2 hok)]
      funext k
      by_cases hk' : k = (ref, taskId)
      · have he : (r.register ref type taskId gpuAddr size).entryOf k = some e₁ :=
          entryOf_eq_some.2 ⟨(hmem e₁).2 (.inl rfl), hk.trans hk'.symm⟩
        rw [hk', Function.update_self, ← hk', Registry.valueOf, he, Option.map_some, hv]
      · rw [Function.update_of_ne hk', Registry.valueOf, Registry.valueOf,
          entryOf_congr (r := r)]
        intro e he
        rw [hmem]
        constructor
        · intro h
          obtain rfl | h := h
          · exact absurd (he.symm.trans hk) hk'
          · exact h.1
        · intro h
          exact .inr ⟨h, he ▸ hk'⟩
  | unregister ref taskId =>
    rw [registryStep, resourceMapStep]
    funext k
    by_cases hk : k = (ref, taskId)
    · have he : (r.unregister ref taskId).entryOf k = none :=
        entryOf_eq_none.2 fun e he => hk ▸ ((mem_unregister_iff r ref taskId e).1 he).2
      rw [hk, Function.update_self, ← hk, Registry.valueOf, he, Option.map_none]
    · rw [Function.update_of_ne hk, Registry.valueOf, Registry.valueOf, entryOf_congr (r := r)]
      intro e he
      rw [mem_unregister_iff]
      exact and_iff_left (he ▸ hk)
  | clearTask taskId =>
    rw [registryStep, resourceMapStep]
    funext k
    by_cases hk : k.2 = taskId
    · have he : (r.clearTask taskId).entryOf k = none := by
        refine entryOf_eq_none.2 fun e he hek => ((mem_clearTask_iff r taskId e).1 he).2 ?_
        rw [← hk, ← hek]
        rfl
      rw [if_pos hk, Registry.valueOf, he, Option.map_none]
    · rw [if_neg hk, Registry.valueOf, Registry.valueOf, entryOf_congr (r := r)]
      intro e he
      rw [mem_clearTask_iff]
      exact and_iff_left fun h => hk (he ▸ h)

/-- The keys that a call is about. -/
def RegistryOp.Touches (op : RegistryOp) (k : ResourceKey) : Prop :=
  match op with
  | .register ref _ taskId _ _ => k = (ref, taskId)
  | .unregister ref taskId => k = (ref, taskId)
  | .clearTask taskId => k.2 = taskId

/-- The calls on entries of other refs than this, and those that clear a task which does not
have the texture of this ref. -/
def RegistryOp.Spares (op : RegistryOp) (r : Registry) (ref' : Nat) : Prop :=
  match op with
  | .register ref _ _ _ _ => ref ≠ ref'
  | .unregister ref _ => ref ≠ ref'
  | .clearTask taskId => ∀ e, r.textureOf ref' = some e → e.taskId ≠ taskId

/-- What a call is not about is found as before. -/
structure StepFramed (r : Registry) (op : RegistryOp) : Prop where
  lookups : ∀ k, ¬op.Touches k → (registryStep r op).entryOf k = r.entryOf k
  textures : ∀ ref, op.Spares r ref → (registryStep r op).textureOf ref = r.textureOf ref

def ResourceEntry.isTexture (ref : Nat) (e : ResourceEntry) : Bool :=
  e.ref == ref && e.type == .texture

/-- Where the removal moves a texture of another ref from the end of the table into slot `i`,
the table has one of that ref before `i`, or none between. -/
def MoveSafe (r : Registry) : RegistryOp → Prop
  | .unregister ref taskId =>
    ∀ i, r.lookup ref taskId = some i → ∀ z, r.entries.getLast? = some z →
      z.type = .texture → z.ref ≠ ref →
        (∃ e ∈ r.entries.take i, e.isTexture z.ref = true) ∨
          ∀ e ∈ (r.entries.drop (i+1)).dropLast, e.isTexture z.ref = false
  | _ => True

theorem entryOf_step (r : Registry) (op : RegistryOp) {k : ResourceKey} (h : ¬op.Touches k) :
    (registryStep r op).entryOf k = r.entryOf k := by
  apply entryOf_congr
  intro e he
  cases op with
  | register ref type taskId gpuAddr size =>
    obtain ⟨-, hsame⟩ | ⟨-, e₁, hk, -, hmem⟩ := register_cases r ref type taskId gpuAddr size
    · rw [registryStep, hsame]
    · rw [registryStep, hmem]
      constructor
      · intro hm
        obtain rfl | hm := hm
        · exact absurd (he.symm.trans hk) h
        · exact hm.1
      · intro hm
        exact .inr ⟨hm, he ▸ h⟩
  | unregister ref taskId =>
    rw [registryStep, mem_unregister_iff]
    exact and_iff_left (he ▸ h)
  | clearTask taskId =>
    rw [registryStep, mem_clearTask_iff]
    exact and_iff_left fun ht => h (he ▸ ht)

theorem isTexture_other {e : ResourceEntry} {ref : Nat} (h : e.ref ≠ ref) :
    e.isTexture ref = false := by
  rw [ResourceEntry.isTexture, beq_eq_false_iff_ne.2 h]
  rfl

theorem textureOf_register (r : Registry) {ref ref' : Nat} (type : ResourceType)
    (taskId gpuAddr size : Nat) (h : ref ≠ ref') :
    (r.register ref type taskId gpuAddr size).textureOf ref' = r.textureOf ref' := by
  rw [textureOf_eq_find, textureOf_eq_find]
  cases hl : r.lookup ref taskId with
  | some i =>
    rw [register_some hl]
    apply find?_modify_of_not
    intro a ha
    obtain ⟨e, he, hk⟩ := lookup_eq_some hl
    obtain rfl : e = a := Option.some.inj (he.symm.trans ha)
    have href : e.ref ≠ ref' := (congrArg Prod.fst hk).trans_ne h
    exact ⟨isTexture_other href, isTexture_other href⟩
  | none =>
    rw [register_none hl]
    split_ifs
    · have hnew : List.find? (ResourceEntry.isTexture ref')
          [⟨ref, type, taskId, none, gpuAddr, size, false⟩] = none := by
        rw [List.find?_cons, isTexture_other h]
        rfl
      rw [List.find?_append]
      exact (congrArg _ hnew).trans Option.or_none
    · rfl

/-- A texture that stays is still the first of its ref: the others keep their order. -/
theorem textureOf_clearTask (r : Registry) {taskId ref' : Nat}
    (h : ∀ e, r.textureOf ref' = some e → e.taskId ≠ taskId) :
    (r.clearTask taskId).textureOf ref' = r.textureOf ref' := by
  rw [textureOf_eq_find, textureOf_eq_find]
  apply find?_filter_of_kept
  intro e he
  rw [← textureOf_eq_find] at he
  exact bne_iff_ne.2 (h e he)

theorem textureOf_unregister_iff (r : Registry) (ref taskId : Nat) :
    (∀ ref', ref ≠ ref' → (r.unregister ref taskId).textureOf ref' = r.textureOf ref') ↔
      MoveSafe r (.unregister ref taskId) := by
  cases hl : r.lookup ref taskId with
  | none =>
    rw [unregister_none hl]
    refine iff_of_true (fun _ _ => rfl) ?_
    intro i hi
    rw [hl] at hi
    cases hi
  | some i =>
    obtain ⟨a, hi, hk⟩ := lookup_eq_some hl
    have hentries := unregister_some hl
    have haref : a.ref = ref := congrArg Prod.fst hk
    obtain ⟨pre, hpre, hsplit, hrem⟩ | ⟨pre, mid, z, hpre, hsplit, hrem⟩ := swapRemove_split hi
    · rw [hrem] at hentries
      refine iff_of_true ?_ ?_
      · intro ref' h
        have hat : List.find? (ResourceEntry.isTexture ref') [a] = none := by
          rw [List.find?_cons, isTexture_other (haref.trans_ne h)]
          rfl
        rw [textureOf_eq_find, textureOf_eq_find, hentries, hsplit, List.find?_append]
        exact ((congrArg _ hat).trans Option.or_none).symm
      · intro j _ z hz _ href
        rw [hsplit, List.getLast?_concat] at hz
        cases hz
        exact absurd haref href
    · rw [hrem] at hentries
      have hza : z ∉ mid := by
        intro hz
        have hnodup := List.Nodup.of_map _ r.nodup
        rw [hsplit] at hnodup
        have hrest : (mid++[z]).Nodup := (List.nodup_cons.1 hnodup.of_append_right).2
        exact (List.nodup_append.1 hrest).2.2 z hz z (List.mem_singleton_self z) rfl
      have hmoved : ∀ ref', ref ≠ ref' →
          ((r.unregister ref taskId).textureOf ref' = r.textureOf ref' ↔
            (∃ e ∈ pre, e.isTexture ref' = true) ∨ z.isTexture ref' = false ∨
              ∀ e ∈ mid, e.isTexture ref' = false) := by
        intro ref' h
        rw [textureOf_eq_find, textureOf_eq_find, hentries, hsplit]
        exact find?_moved_iff (isTexture_other (haref.trans_ne h)) hza
      have htake : r.entries.take i = pre := by rw [hsplit, ← hpre, List.take_left]
      have hdrop : (r.entries.drop (i+1)).dropLast = mid := by
        rw [hsplit, ← hpre, ← List.drop_drop, List.drop_left, List.drop_one, List.tail_cons,
          List.dropLast_concat]
      have hlast : r.entries.getLast? = some z := by
        rw [hsplit, ← List.cons_append, ← List.append_assoc, List.getLast?_concat]
      constructor
      · intro h j hj z' hz' htex href
        obtain rfl : i = j := Option.some.inj (hl.symm.trans hj)
        obtain rfl : z = z' := Option.some.inj (hlast.symm.trans hz')
        have hself : z.isTexture z.ref = true := by simp [ResourceEntry.isTexture, htex]
        rw [htake, hdrop]
        obtain hin | hnot | hmid := (hmoved z.ref href.symm).1 (h z.ref href.symm)
        · exact .inl hin
        · rw [hself] at hnot
          cases hnot
        · exact .inr hmid
      · intro h ref' href
        rw [hmoved ref' href]
        by_cases hz : z.isTexture ref' = true
        · simp only [ResourceEntry.isTexture, Bool.and_eq_true, beq_iff_eq] at hz
          obtain ⟨rfl, htex⟩ := hz
          have hsafe := h i hl z hlast htex href.symm
          rw [htake, hdrop] at hsafe
          exact hsafe.imp_right .inr
        · exact .inr (.inl (eq_false_of_ne_true hz))

theorem stepFramed_iff (r : Registry) (op : RegistryOp) : StepFramed r op ↔ MoveSafe r op := by
  constructor
  · intro h
    cases op with
    | register ref type taskId gpuAddr size => trivial
    | clearTask taskId => trivial
    | unregister ref taskId => exact (textureOf_unregister_iff r ref taskId).1 h.textures
  · intro h
    refine ⟨fun k => entryOf_step r op, ?_⟩
    cases op with
    | register ref type taskId gpuAddr size =>
      exact fun ref' => textureOf_register r type taskId gpuAddr size
    | clearTask taskId => exact fun ref' => textureOf_clearTask r
    | unregister ref taskId => exact (textureOf_unregister_iff r ref taskId).2 h

/-- A whole run refines the map. -/
theorem valueOf_run (ops : List RegistryOp) (r : Registry) :
    (ops.foldl registryStep r).valueOf = ops.foldl resourceMapStep r.valueOf := by
  induction ops generalizing r with
  | nil => rfl
  | cons op ops ih => rw [List.foldl_cons, List.foldl_cons, ih, valueOf_step]

/-- The states of a run from the empty table have distinct keys and room for no more than
`maxResources`, are what the map is after as many calls, and each call leaves what it is not
about. -/
structure RegistryRun (ops : List RegistryOp) : Prop where
  states : ∀ r ∈ visited registryStep .empty ops,
    (r.entries.map ResourceEntry.key).Nodup ∧ r.entries.length ≤ maxResources
  refines : ∀ n, ((ops.take n).foldl registryStep .empty).valueOf =
    (ops.take n).foldl resourceMapStep fun _ => none
  framed : AllSteps registryStep StepFramed .empty ops

theorem registry_refines_map_iff (ops : List RegistryOp) :
    RegistryRun ops ↔ AllSteps registryStep MoveSafe .empty ops := by
  rw [← allSteps_congr registryStep stepFramed_iff]
  refine ⟨RegistryRun.framed, fun h => ⟨fun r _ => ⟨r.nodup, r.bound⟩, fun n => ?_, h⟩⟩
  have hempty : Registry.empty.valueOf = fun _ => none := rfl
  rw [valueOf_run, hempty]

/- Ref 1 as a texture of tasks 0 and 1, behind a buffer of task 9. -/
def sharedRef : List RegistryOp :=
  [.register 5 .buffer 9 0 0, .register 1 .texture 0 0 0, .register 1 .texture 1 0 0]

/-- The removal of the buffer hands the lookup of texture 1 from task 0's entry to task 1's. -/
theorem unregister_changes_texture :
    ((sharedRef.foldl registryStep .empty).textureOf 1).map ResourceEntry.key = some (1, 0) ∧
      (((sharedRef++[RegistryOp.unregister 5 9]).foldl registryStep .empty).textureOf 1).map
        ResourceEntry.key = some (1, 1) := by
  decide

end Lagfx
