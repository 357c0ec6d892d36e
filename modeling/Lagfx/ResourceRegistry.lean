import Lagfx.Lib.SlotTable
import Lagfx.State

/-! The resource registry: `lagfx_resource_register`, `_lookup`,
`_lookup_texture`, `_unregister` and `_clear_task` on its entry array. A pointer
to an entry is its index. -/
namespace Lagfx
open SlotTable

def Registry.lookup (r : Registry) (ref taskId : Nat) : Option Nat :=
  r.entries.findIdx? fun e => e.ref == ref && e.taskId == taskId

def Registry.lookupTexture (r : Registry) (ref : Nat) : Option Nat :=
  r.entries.findIdx? fun e => e.ref == ref && e.type == .texture

/-- The `host_handle` behind an entry pointer. -/
def Registry.handle (r : Registry) (i : Nat) : Option Nat :=
  (r.entries[i]?).bind ResourceEntry.hostHandle

/-- How often each backing is referred to. -/
def Registry.handles (r : Registry) : Multiset Nat := tally ResourceEntry.hostHandle r.entries

/-- Write through an entry pointer; the key fields are never written. -/
def Registry.modify (r : Registry) (i : Nat) (f : ResourceEntry → ResourceEntry)
    (hf : ∀ e, (f e).key = e.key) : Registry :=
  ⟨r.entries.modify i f, by simpa using r.bound, by rw [map_modify_of_keeps hf]; exact r.nodup⟩

def Registry.setHandle (r : Registry) (i : Nat) (h : Option Nat) : Registry :=
  r.modify i (fun e => { e with hostHandle := h }) (fun _ => rfl)

def Registry.setBackingDirty (r : Registry) (i : Nat) : Registry :=
  r.modify i (fun e => { e with backingDirty := true }) (fun _ => rfl)

theorem lookup_eq_none {r : Registry} {ref taskId : Nat} :
    r.lookup ref taskId = none ↔ ∀ e ∈ r.entries, e.key ≠ (ref, taskId) := by
  simp [Registry.lookup, List.findIdx?_eq_none_iff, ResourceEntry.key]

theorem lookup_eq_some {r : Registry} {ref taskId i : Nat} (h : r.lookup ref taskId = some i) :
    ∃ e, r.entries[i]? = some e ∧ e.key = (ref, taskId) := by
  obtain ⟨hi, hp, _⟩ := List.findIdx?_eq_some_iff_getElem.mp h
  exact ⟨r.entries[i], List.getElem?_eq_getElem hi, by simpa [ResourceEntry.key] using hp⟩

theorem nodup_append_new {r : Registry} {e : ResourceEntry}
    (h : r.lookup e.ref e.taskId = none) :
    ((r.entries++[e]).map ResourceEntry.key).Nodup := by
  rw [List.map_append, List.nodup_append]
  refine ⟨r.nodup, by simp, ?_⟩
  intro a ha b hb hab
  obtain ⟨e', he', rfl⟩ := List.mem_map.mp ha
  obtain rfl : b = e.key := by simpa using hb
  exact lookup_eq_none.mp h e' he' hab

/- A known key is updated in place and keeps its handle; a new one is appended
   unless the table is full. -/
def Registry.register (r : Registry) (ref : Nat) (type : ResourceType)
    (taskId gpuAddr size : Nat) : Registry :=
  match h : r.lookup ref taskId with
  | some i =>
    r.modify i (fun e => { e with type := type, gpuAddr := gpuAddr, size := size }) (fun _ => rfl)
  | none =>
    if hb : r.entries.length < maxResources then
      ⟨r.entries++[{ ref := ref, type := type, taskId := taskId, gpuAddr := gpuAddr, size := size }],
        by rw [List.length_append]; exact hb, nodup_append_new h⟩
    else r

def Registry.unregister (r : Registry) (ref taskId : Nat) : Registry :=
  match h : r.lookup ref taskId with
  | some i =>
    have hp : (swapRemove r.entries i).Perm (r.entries.eraseIdx i) := by
      obtain ⟨e, he, _⟩ := lookup_eq_some h
      exact swapRemove_perm (List.getElem?_eq_some_iff.mp he).1
    ⟨swapRemove r.entries i,
      (hp.length_eq.trans_le (List.length_eraseIdx_le _ _)).trans r.bound,
      (hp.map _).nodup_iff.mpr (r.nodup.sublist ((List.eraseIdx_sublist _ _).map _))⟩
  | none => r

def Registry.clearTask (r : Registry) (taskId : Nat) : Registry :=
  ⟨r.entries.filter (fun e => e.taskId != taskId),
    (List.length_filter_le _ _).trans r.bound, r.nodup.sublist (List.filter_sublist.map _)⟩

theorem mem_handles {r : Registry} {h : Nat} :
    h ∈ r.handles ↔ ∃ e ∈ r.entries, e.hostHandle = some h := mem_tally

theorem handles_card_le (r : Registry) : r.handles.card ≤ maxResources := by
  have h := List.length_filterMap_le ResourceEntry.hostHandle r.entries
  simpa [Registry.handles, tally] using h.trans r.bound

theorem handle_eq {r : Registry} {i : Nat} {e : ResourceEntry} (h : r.entries[i]? = some e) :
    r.handle i = e.hostHandle := by
  simp [Registry.handle, h]

theorem handle_mem_handles {r : Registry} {i h : Nat} (hh : r.handle i = some h) :
    h ∈ r.handles := by
  obtain ⟨e, he, hb⟩ := Option.bind_eq_some_iff.mp hh
  exact mem_handles.mpr ⟨e, List.mem_of_getElem? he, hb⟩

theorem handles_modify (r : Registry) (i : Nat) (f : ResourceEntry → ResourceEntry)
    (hk : ∀ e, (f e).key = e.key) (hf : ∀ e, (f e).hostHandle = e.hostHandle) :
    (r.modify i f hk).handles = r.handles :=
  tally_eq_of_map_eq (map_modify_of_keeps hf r.entries i)

/-- Registering never touches a handle. -/
@[simp] theorem handles_register (r : Registry) (ref : Nat) (type : ResourceType)
    (taskId gpuAddr size : Nat) : (r.register ref type taskId gpuAddr size).handles = r.handles := by
  rw [Registry.register]
  split
  · exact handles_modify r _ _ _ (fun _ => rfl)
  · split
    · simp [Registry.handles, tally]
    · rfl

/-- Writing a handle through an entry pointer trades the old one for the new. -/
theorem handles_setHandle {r : Registry} {i : Nat} {e : ResourceEntry} (h : Option Nat)
    (he : r.entries[i]? = some e) :
    (r.setHandle i h).handles+held (r.handle i) = r.handles+held h := by
  rw [handle_eq he]
  exact tally_modify ResourceEntry.hostHandle (fun e => { e with hostHandle := h }) he

theorem handles_unregister {r : Registry} {ref taskId i : Nat}
    (h : r.lookup ref taskId = some i) :
    held (r.handle i)+(r.unregister ref taskId).handles = r.handles := by
  obtain ⟨e, he, _⟩ := lookup_eq_some h
  have hs : (r.unregister ref taskId).entries = swapRemove r.entries i := by
    rw [Registry.unregister]
    split <;> simp_all
  rw [Registry.handles, hs, handle_eq he]
  exact tally_swapRemove ResourceEntry.hostHandle he

theorem handles_clearTask (r : Registry) (taskId : Nat) :
    (r.clearTask taskId).handles+
      tally ResourceEntry.hostHandle (r.entries.filter fun e => e.taskId == taskId) = r.handles := by
  have h := tally_filter ResourceEntry.hostHandle (fun e => e.taskId != taskId) r.entries
  simpa [Registry.clearTask, Registry.handles, bne] using h

/-- Writing through an entry pointer moves no key. -/
theorem lookup_modify (r : Registry) (i : Nat) (f : ResourceEntry → ResourceEntry)
    (hf : ∀ e, (f e).key = e.key) (ref taskId : Nat) :
    (r.modify i f hf).lookup ref taskId = r.lookup ref taskId := by
  have hk : ∀ l : List ResourceEntry,
      l.findIdx? (fun e => e.ref == ref && e.taskId == taskId) =
        (l.map ResourceEntry.key).findIdx? (fun k => k.1 == ref && k.2 == taskId) := by
    intro l
    simp [List.findIdx?_map, Function.comp_def, ResourceEntry.key]
  simp only [Registry.lookup, Registry.modify, hk, map_modify_of_keeps hf]

theorem handle_modify (r : Registry) (i j : Nat) (f : ResourceEntry → ResourceEntry)
    (hk : ∀ e, (f e).key = e.key) (hf : ∀ e, (f e).hostHandle = e.hostHandle) :
    (r.modify i f hk).handle j = r.handle j := by
  have h := congrArg (fun l => l[j]?.bind id) (map_modify_of_keeps hf r.entries i)
  simpa [Registry.handle, Registry.modify, Function.comp_def, Option.bind_map] using h

theorem register_some {r : Registry} {ref taskId i : Nat} (h : r.lookup ref taskId = some i)
    (type : ResourceType) (gpuAddr size : Nat) : r.register ref type taskId gpuAddr size =
      r.modify i (fun e => { e with type := type, gpuAddr := gpuAddr, size := size })
        (fun _ => rfl) := by
  rw [Registry.register]
  split <;> simp_all

theorem register_none {r : Registry} {ref taskId : Nat} (h : r.lookup ref taskId = none)
    (type : ResourceType) (gpuAddr size : Nat) :
    (r.register ref type taskId gpuAddr size).entries =
      if r.entries.length < maxResources then
        r.entries++[{ ref := ref, type := type, taskId := taskId, gpuAddr := gpuAddr, size := size }]
      else r.entries := by
  rw [Registry.register]
  split
  · simp_all
  · split <;> rfl

/-- The entry just registered holds what was held under its key before. -/
theorem handle_registered {r : Registry} {ref taskId gpuAddr size i : Nat} {type : ResourceType}
    (hi : (r.register ref type taskId gpuAddr size).lookup ref taskId = some i) :
    (r.register ref type taskId gpuAddr size).handle i = (r.lookup ref taskId).bind r.handle := by
  cases hl : r.lookup ref taskId with
  | some j =>
    rw [register_some hl] at hi ⊢
    obtain rfl : i = j := Option.some.inj (hi.symm.trans ((lookup_modify r j _ _ _ _).trans hl))
    exact handle_modify r i i _ _ (fun _ => rfl)
  | none =>
    obtain ⟨e, he, hk⟩ := lookup_eq_some hi
    rw [register_none hl] at he
    have hm := List.mem_of_getElem? he
    have hnew : e.hostHandle = none := by
      split at hm
      · obtain hm | hm := List.mem_append.mp hm
        · exact absurd hk (lookup_eq_none.mp hl e hm)
        · rw [List.mem_singleton.mp hm]
      · exact absurd hk (lookup_eq_none.mp hl e hm)
    rw [handle_eq (by rw [register_none hl]; exact he), hnew]
    rfl

theorem lookup_none_of_register {r : Registry} {ref taskId gpuAddr size : Nat} {type : ResourceType}
    (h : (r.register ref type taskId gpuAddr size).lookup ref taskId = none) :
    r.lookup ref taskId = none := by
  cases hl : r.lookup ref taskId with
  | none => rfl
  | some j =>
    rw [register_some hl] at h
    exact absurd (h.symm.trans ((lookup_modify _ j _ _ _ _).trans hl)) (by simp)

theorem lookup_lt {r : Registry} {ref taskId i : Nat} (h : r.lookup ref taskId = some i) :
    i < r.entries.length := by
  obtain ⟨e, he, _⟩ := lookup_eq_some h
  exact (List.getElem?_eq_some_iff.mp he).1

end Lagfx
