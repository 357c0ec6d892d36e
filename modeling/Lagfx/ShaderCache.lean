import Lagfx.Lib.Lru
import Lagfx.Lib.Runs
import Lagfx.Lib.SlotTable
import Lagfx.State

/-! The shader translation cache: slots scanned for their key, a recency counter,
and the three ways `put` takes a translation over. The digest is a parameter. -/
namespace Lagfx
open SlotTable Lru

inductive ShaderStage where
  | vertex
  | compute
  | fragment
deriving DecidableEq, Repr

/-- The SPIR-V execution model the stage is numbered by. -/
def ShaderStage.code : ShaderStage → UInt8
  | .vertex => 0
  | .compute => 3
  | .fragment => 4

/-- What a translation is looked up by; the name is a C string. -/
structure ShaderRef where
  metallib : List UInt8
  name : List UInt8
  stage : ShaderStage
  name_ne : ∀ b ∈ name, b ≠ 0
deriving DecidableEq

/-- `spvBytes` is the malloc'd pointer, 0 for NULL. -/
structure ShaderTranslation where
  spvBytes : Nat
  spvLen : Nat
  stage : ShaderStage
deriving DecidableEq, Repr

structure CacheEntry (κ : Type*) where
  key : κ
  value : ShaderTranslation
  lruCounter : Nat

/- `entries` are the `count` slots in use; `freed` is what went to free(). -/
structure ShaderCache (κ : Type*) where
  maxEntries : Nat
  entries : List (CacheEntry κ) := []
  nextLru : Nat := 1
  hits : Nat := 0
  misses : Nat := 0
  evictions : Nat := 0
  freed : List Nat := []

inductive CacheStatus where
  | ok
  | notFound
  | invalidArg
deriving DecidableEq, Repr

/-- The bytes fed to the digest: three fields one after another. -/
def ShaderRef.keyBytes (r : ShaderRef) : List UInt8 := r.metallib++r.name++[r.stage.code]

section Cache
variable {κ : Type*} [DecidableEq κ] (digest : List UInt8 → κ)

def makeKey (r : ShaderRef) : κ := digest r.keyBytes

def findEntry (c : ShaderCache κ) (key : κ) : Option Nat :=
  c.entries.findIdx? fun e => e.key = key

/-- The scan from slot `i` on, with the oldest slot so far. -/
def lruScan : List (CacheEntry κ) → Nat → Nat → Nat → Nat
  | [], _, idx, _ => idx
  | e::es, i, idx, minLru =>
    if e.lruCounter < minLru then lruScan es (i+1) i e.lruCounter
    else lruScan es (i+1) idx minLru

def findLruEntry (c : ShaderCache κ) : Nat :=
  match c.entries with
  | [] => 0
  | e::es => lruScan es 1 0 e.lruCounter

def shaderCacheNew (maxEntries : Nat) : ShaderCache κ :=
  { maxEntries := if maxEntries = 0 then 64 else maxEntries }

def shaderCacheGet (c : ShaderCache κ) (r : ShaderRef) :
    CacheStatus × Option ShaderTranslation × ShaderCache κ :=
  match findEntry c (makeKey digest r) with
  | none => (.notFound, none, { c with misses := c.misses+1 })
  | some i =>
    (.ok, c.entries[i]?.map CacheEntry.value,
      { c with
        hits := c.hits+1
        nextLru := u64 (c.nextLru+1)
        entries := c.entries.modify i fun e => { e with lruCounter := c.nextLru } })

/-- The pointer a slot loses when it is overwritten. -/
def slotBytes (c : ShaderCache κ) (i : Nat) : List Nat :=
  (c.entries[i]?.map fun e => e.value.spvBytes).toList

def shaderCachePut (c : ShaderCache κ) (r : ShaderRef) (t : ShaderTranslation) :
    CacheStatus × ShaderCache κ :=
  if t.spvBytes = 0 then (.invalidArg, c)
  else
    let key := makeKey digest r
    let entry : CacheEntry κ := ⟨key, t, c.nextLru⟩
    let next := u64 (c.nextLru+1)
    match findEntry c key with
    | some i =>
      (.ok, { c with freed := c.freed++slotBytes c i, entries := c.entries.set i entry
                     nextLru := next })
    | none =>
      if c.maxEntries ≤ c.entries.length then
        let i := findLruEntry c
        (.ok, { c with freed := c.freed++slotBytes c i, entries := c.entries.set i entry
                       nextLru := next, evictions := c.evictions+1 })
      else (.ok, { c with entries := c.entries++[entry], nextLru := next })

/-- What is freed by the time the cache is gone. -/
def shaderCacheClose (c : ShaderCache κ) : List Nat :=
  c.freed++c.entries.map fun e => e.value.spvBytes

inductive CacheOp where
  | get (r : ShaderRef)
  | put (r : ShaderRef) (t : ShaderTranslation)

def CacheOp.ref : CacheOp → ShaderRef
  | .get r => r
  | .put r _ => r

def cacheStep (c : ShaderCache κ) : CacheOp → ShaderCache κ
  | .get r => (shaderCacheGet digest c r).2.2
  | .put r t => (shaderCachePut digest c r t).2

def cacheRun (c : ShaderCache κ) (ops : List CacheOp) : ShaderCache κ :=
  ops.foldl (cacheStep digest) c

/-- The triple an operation puts or hits. -/
def touched (c : ShaderCache κ) : CacheOp → Option ShaderRef
  | .get r => if (shaderCacheGet digest c r).1 = .ok then some r else none
  | .put r t => if (shaderCachePut digest c r t).1 = .ok then some r else none

/-- The triples put or hit along a run, in order. -/
def touches : ShaderCache κ → List CacheOp → List ShaderRef
  | _, [] => []
  | c, op::ops => (touched digest c op).toList++touches (cacheStep digest c op) ops

end Cache

/-- The translation last put for a triple; a put of NULL is refused. -/
def lastPut (ops : List CacheOp) (r : ShaderRef) : Option ShaderTranslation :=
  ops.foldl (fun v op =>
    match op with
    | .get _ => v
    | .put r' t => if r' = r ∧ t.spvBytes ≠ 0 then some t else v) none

/-- The pointers the cache took over. -/
def putBytes (ops : List CacheOp) : List Nat :=
  ops.filterMap fun op =>
    match op with
    | .get _ => none
    | .put _ t => if t.spvBytes = 0 then none else some t.spvBytes

section Simulation
variable {κ : Type*} {digest : List UInt8 → κ}

/-- The pointers the slots hold. -/
def ShaderCache.stored (c : ShaderCache κ) : List Nat := c.entries.map fun e => e.value.spvBytes

variable (digest) in
/- The slots sorted by their counters, latest first, are the triples of `refs`
   with the translations `val` gives them. -/
structure Tracks (c : ShaderCache κ) (refs : List ShaderRef)
    (val : ShaderRef → Option ShaderTranslation) : Prop where
  sorted : ∃ slots : List (CacheEntry κ), slots.Perm c.entries ∧
    slots.Pairwise (fun e e' => e'.lruCounter < e.lruCounter) ∧
    slots.map (fun e => (e.key, some e.value)) = refs.map fun r => (makeKey digest r, val r)
  older : ∀ e ∈ c.entries, e.lruCounter < c.nextLru

theorem Tracks.length {c : ShaderCache κ} {refs : List ShaderRef}
    {val : ShaderRef → Option ShaderTranslation} (h : Tracks digest c refs val) :
    refs.length = c.entries.length := by
  obtain ⟨slots, hp, -, hm⟩ := h.sorted
  have hl := congrArg List.length hm
  rw [List.length_map, List.length_map] at hl
  rw [← hl, hp.length_eq]

theorem Tracks.keys {c : ShaderCache κ} {refs : List ShaderRef}
    {val : ShaderRef → Option ShaderTranslation} (h : Tracks digest c refs val) :
    (c.entries.map CacheEntry.key).Perm (refs.map (makeKey digest)) := by
  obtain ⟨slots, hp, -, hm⟩ := h.sorted
  have hk := congrArg (List.map Prod.fst) hm
  simp only [List.map_map] at hk
  exact (hp.symm.map CacheEntry.key).trans (by rw [show slots.map CacheEntry.key = _ from hk]; rfl)

/-- One slot taken out of the sorted list: its triple, and what is left. -/
theorem Tracks.split {c : ShaderCache κ} {refs : List ShaderRef}
    {val : ShaderRef → Option ShaderTranslation} (h : Tracks digest c refs val) {i : Nat}
    {e : CacheEntry κ} (hi : c.entries[i]? = some e) :
    ∃ (newer older : List (CacheEntry κ)) (as bs : List ShaderRef) (r : ShaderRef),
      refs = as++r::bs ∧ makeKey digest r = e.key ∧ val r = some e.value ∧
      older.length = bs.length ∧ (newer++older).Perm (c.entries.eraseIdx i) ∧
      (newer++older).Pairwise (fun e e' => e'.lruCounter < e.lruCounter) ∧
      (newer++older).map (fun e => (e.key, some e.value)) =
        (as++bs).map (fun r => (makeKey digest r, val r)) ∧
      ∀ x ∈ older, x.lruCounter < e.lruCounter := by
  obtain ⟨slots, hp, hs, hm⟩ := h.sorted
  have hmem : e ∈ slots := hp.mem_iff.mpr (List.mem_of_getElem? hi)
  obtain ⟨newer, older, rfl⟩ := List.append_of_mem hmem
  rw [List.map_append, List.map_cons] at hm
  obtain ⟨as, rest, rfl, has, hrest⟩ := List.map_eq_append_iff.mp hm.symm
  obtain ⟨r, bs, rfl, hr, hbs⟩ := List.map_eq_cons_iff.mp hrest
  obtain ⟨hkey, hval⟩ := Prod.mk.inj hr
  refine ⟨newer, older, as, bs, r, rfl, hkey, hval, ?_, ?_, ?_, ?_, ?_⟩
  · simpa using (congrArg List.length hbs).symm
  · have h1 : (e::(newer++older)).Perm (e::c.entries.eraseIdx i) :=
      (List.perm_middle.symm.trans hp).trans (perm_cons_eraseIdx hi)
    exact h1.cons_inv
  · exact hs.sublist ((List.sublist_cons_self e older).append_left newer)
  · rw [List.map_append, List.map_append, has, hbs]
  · intro x hx
    exact (List.pairwise_cons.mp (List.pairwise_append.mp hs).2.1).1 x hx

/-- A slot written with the current counter comes first. -/
theorem tracks_front {c c' : ShaderCache κ} {refs : List ShaderRef} {r : ShaderRef}
    {val val' : ShaderRef → Option ShaderTranslation} {t : ShaderTranslation}
    (slots : List (CacheEntry κ))
    (hp : c'.entries.Perm (⟨makeKey digest r, t, c.nextLru⟩::slots))
    (hs : slots.Pairwise fun e e' => e'.lruCounter < e.lruCounter)
    (hm : slots.map (fun e => (e.key, some e.value)) = refs.map fun r => (makeKey digest r, val r))
    (hold : ∀ e ∈ slots, e.lruCounter < c.nextLru) (hnext : c'.nextLru = c.nextLru+1)
    (hval : val' r = some t) (hrest : ∀ b ∈ refs, val' b = val b) :
    Tracks digest c' (r::refs) val' := by
  refine ⟨⟨_, hp.symm, List.pairwise_cons.mpr ⟨hold, hs⟩, ?_⟩, ?_⟩
  · rw [List.map_cons, List.map_cons, hm, hval]
    congr 1
    exact List.map_congr_left fun b hb => by rw [hrest b hb]
  · intro e he
    rw [hnext]
    rcases List.mem_cons.mp (hp.mem_iff.mp he) with rfl | he
    · exact Nat.lt_succ_self _
    · exact (hold e he).trans (Nat.lt_succ_self _)

/-- Overwriting slot `i` brings its triple, or the one that takes its place, to
the front. -/
theorem Tracks.overwrite {c c' : ShaderCache κ} {refs : List ShaderRef}
    {val : ShaderRef → Option ShaderTranslation} (h : Tracks digest c refs val)
    (val' : ShaderRef → Option ShaderTranslation) {i : Nat} {e : CacheEntry κ}
    (hi : c.entries[i]? = some e) {r : ShaderRef} {t : ShaderTranslation}
    (hent : c'.entries = c.entries.set i ⟨makeKey digest r, t, c.nextLru⟩)
    (hnext : c'.nextLru = c.nextLru+1) (hrest : ∀ b ∈ refs, b ≠ r → val' b = val b) :
    ∃ as old bs, refs = as++old::bs ∧ makeKey digest old = e.key ∧ val old = some e.value ∧
      ((∀ x ∈ c.entries, e.lruCounter ≤ x.lruCounter) → bs = []) ∧
      (val' r = some t → r ∉ as++bs → Tracks digest c' (r::(as++bs)) val') := by
  obtain ⟨newer, older, as, bs, old, rfl, hkey, hold, hlen, hp, hs, hm, hlt⟩ := h.split hi
  obtain ⟨hi', -⟩ := List.getElem?_eq_some_iff.mp hi
  refine ⟨as, old, bs, rfl, hkey, hold, ?_, ?_⟩
  · intro hmin
    cases older with
    | nil => exact List.eq_nil_of_length_eq_zero hlen.symm
    | cons x older =>
      have hx : x ∈ c.entries :=
        List.mem_of_mem_eraseIdx (hp.mem_iff.mp (by simp))
      have := hlt x List.mem_cons_self
      have := hmin x hx
      omega
  · intro hval hr
    refine tracks_front _ ?_ hs hm ?_ hnext hval ?_
    · rw [hent]
      exact (List.set_perm_cons_eraseIdx hi' _).trans (hp.symm.cons _)
    · exact fun x hx => h.older x (List.mem_of_mem_eraseIdx (hp.mem_iff.mp hx))
    · intro b hb
      refine hrest b ?_ (fun hbr => hr (hbr ▸ hb))
      rcases List.mem_append.mp hb with hb | hb
      · exact List.mem_append_left _ hb
      · exact List.mem_append_right _ (List.mem_cons_of_mem _ hb)

/-- The scan ends at a slot none is older than. -/
theorem lruScan_spec (all es seen : List (CacheEntry κ)) (idx minLru : Nat)
    (hall : all = seen++es) (hidx : ∃ e, all[idx]? = some e ∧ e.lruCounter = minLru)
    (hmin : ∀ x ∈ seen, minLru ≤ x.lruCounter) :
    ∃ e, all[lruScan es seen.length idx minLru]? = some e ∧
      ∀ x ∈ all, e.lruCounter ≤ x.lruCounter := by
  induction es generalizing seen idx minLru with
  | nil =>
    obtain ⟨e, he, rfl⟩ := hidx
    exact ⟨e, he, by simpa [hall] using hmin⟩
  | cons e es ih =>
    have hsplit : all = (seen++[e])++es := by simp [hall]
    have hlen : (seen++[e]).length = seen.length+1 := by simp
    rw [lruScan, ← hlen]
    split_ifs with hlt
    · apply ih (seen++[e]) _ _ hsplit ⟨e, by simp [hall], rfl⟩
      intro x hx
      rcases List.mem_append.mp hx with hx | hx
      · exact hlt.le.trans (hmin x hx)
      · rw [List.mem_singleton.mp hx]
    · apply ih (seen++[e]) _ _ hsplit hidx
      intro x hx
      rcases List.mem_append.mp hx with hx | hx
      · exact hmin x hx
      · rw [List.mem_singleton.mp hx]
        omega

theorem findLruEntry_spec {c : ShaderCache κ} (h : c.entries ≠ []) :
    ∃ e, c.entries[findLruEntry c]? = some e ∧
      ∀ x ∈ c.entries, e.lruCounter ≤ x.lruCounter := by
  rw [findLruEntry]
  cases hc : c.entries with
  | nil => exact absurd hc h
  | cons e es =>
    exact lruScan_spec (e::es) es [e] 0 e.lruCounter rfl ⟨e, rfl, rfl⟩ (by simp)

theorem stored_set {c c' : ShaderCache κ} {i : Nat} {e e' : CacheEntry κ}
    (hi : c.entries[i]? = some e) (hent : c'.entries = c.entries.set i e') :
    (c'.stored : Multiset Nat)+{e.value.spvBytes} = (c.stored : Multiset Nat)+{e'.value.spvBytes} := by
  have h := tally_set (fun e : CacheEntry κ => some e.value.spvBytes) e' hi
  rw [← hent] at h
  simpa [tally, ShaderCache.stored] using h

/-- An overwritten slot hands its pointer to free(). -/
theorem freed_overwrite {c c' : ShaderCache κ} {i : Nat} {e e' : CacheEntry κ}
    (hi : c.entries[i]? = some e) (hent : c'.entries = c.entries.set i e')
    (hfreed : c'.freed = c.freed++[e.value.spvBytes]) :
    (c'.freed : Multiset Nat)+c'.stored = (c.freed : Multiset Nat)+c.stored+{e'.value.spvBytes} := by
  have hs := stored_set hi hent
  calc (c'.freed : Multiset Nat)+c'.stored
      = (c.freed : Multiset Nat)+((c'.stored : Multiset Nat)+{e.value.spvBytes}) := by
        rw [hfreed, ← Multiset.coe_add, Multiset.coe_singleton]
        abel
    _ = (c.freed : Multiset Nat)+c.stored+{e'.value.spvBytes} := by rw [hs, add_assoc]

theorem Tracks.val_some {c : ShaderCache κ} {refs : List ShaderRef}
    {val : ShaderRef → Option ShaderTranslation} (h : Tracks digest c refs val) {r : ShaderRef}
    (hr : r ∈ refs) : (val r).isSome := by
  obtain ⟨slots, -, -, hm⟩ := h.sorted
  have hmem := List.mem_map_of_mem (f := fun r => (makeKey digest r, val r)) hr
  rw [← hm] at hmem
  obtain ⟨e, -, he⟩ := List.mem_map.mp hmem
  rw [← (Prod.mk.inj he).2]
  rfl

/-- Overwriting a slot with a pointer that is not stored frees one that no
longer is. -/
theorem stored_overwrite {c c' : ShaderCache κ} {i : Nat} {e e' : CacheEntry κ}
    (hi : c.entries[i]? = some e) (hent : c'.entries = c.entries.set i e')
    (hnd : c.stored.Nodup) (hfresh : e'.value.spvBytes ∉ c.stored) :
    c'.stored.Nodup ∧ e.value.spvBytes ∈ c.stored ∧ e.value.spvBytes ∉ c'.stored := by
  have hs := stored_set hi hent
  have hmem : e.value.spvBytes ∈ c.stored :=
    List.mem_map_of_mem (f := fun e => e.value.spvBytes) (List.mem_of_getElem? hi)
  have hne : e.value.spvBytes ≠ e'.value.spvBytes := fun h => hfresh (h ▸ hmem)
  have hcount (x : Nat) := congrArg (Multiset.count x) hs
  simp only [Multiset.count_add, Multiset.coe_count, Multiset.count_singleton] at hcount
  have h1 (x : Nat) : c.stored.count x ≤ 1 := List.nodup_iff_count_le_one.mp hnd x
  have h0 : c.stored.count e'.value.spvBytes = 0 := List.count_eq_zero.mpr hfresh
  refine ⟨List.nodup_iff_count_le_one.mpr fun x => ?_, hmem, List.count_eq_zero.mp ?_⟩
  · have hx := hcount x
    by_cases hxe : x = e'.value.spvBytes
    · subst hxe
      simp only [if_true] at hx
      omega
    · have := h1 x
      simp only [hxe, if_false] at hx
      omega
  · have hx := hcount e.value.spvBytes
    have := h1 e.value.spvBytes
    simp only [if_true, hne, if_false] at hx
    omega

end Simulation

section Step
variable {κ : Type*} [DecidableEq κ] {digest : List UInt8 → κ}

theorem findEntry_eq_some {c : ShaderCache κ} {key : κ} {i : Nat} (h : findEntry c key = some i) :
    ∃ e, c.entries[i]? = some e ∧ e.key = key := by
  obtain ⟨hi, hp, -⟩ := List.findIdx?_eq_some_iff_getElem.mp h
  exact ⟨_, List.getElem?_eq_getElem hi, by simpa using hp⟩

theorem findEntry_eq_none {c : ShaderCache κ} {key : κ} :
    findEntry c key = none ↔ key ∉ c.entries.map CacheEntry.key := by
  simp [findEntry, List.findIdx?_eq_none_iff]

/-- How one operation changes the translation a triple should give. -/
def CacheOp.putVal (op : CacheOp) (val : ShaderRef → Option ShaderTranslation) :
    ShaderRef → Option ShaderTranslation := fun r =>
  match op with
  | .get _ => val r
  | .put r' t => if r' = r ∧ t.spvBytes ≠ 0 then some t else val r

theorem lastPut_append (ops : List CacheOp) (op : CacheOp) :
    lastPut (ops++[op]) = op.putVal (lastPut ops) := by
  funext r
  cases op <;> simp [lastPut, CacheOp.putVal]

theorem touch_middle {as bs : List ShaderRef} {r : ShaderRef} (h : (as++r::bs).Nodup) :
    touch (as++r::bs) r = r::(as++bs) ∧ r ∉ as++bs := by
  have hn := List.nodup_middle.mp h
  have hr := (List.nodup_cons.mp hn).1
  refine ⟨?_, hr⟩
  rw [touch, List.erase_append_right _ (fun h => hr (List.mem_append_left _ h)),
    List.erase_cons_head]

section Keys
variable {c : ShaderCache κ} {refs : List ShaderRef} {val : ShaderRef → Option ShaderTranslation}
  (h : Tracks digest c refs val) {r : ShaderRef}
  (hinj : ∀ b ∈ refs, makeKey digest b = makeKey digest r → b = r)

include h hinj in
theorem Tracks.find_none_iff : findEntry c (makeKey digest r) = none ↔ r ∉ refs := by
  rw [findEntry_eq_none, h.keys.mem_iff, List.mem_map, not_iff_not]
  exact ⟨fun ⟨b, hb, hk⟩ => hinj b hb hk ▸ hb, fun hr => ⟨r, hr, rfl⟩⟩

include h hinj in
/-- What `get` answers, read off the triples the slots stand for. -/
theorem Tracks.get_eq :
    ((shaderCacheGet digest c r).1, (shaderCacheGet digest c r).2.1) =
      if r ∈ refs then (.ok, val r) else (.notFound, none) := by
  rw [shaderCacheGet]
  cases hf : findEntry c (makeKey digest r) with
  | none => simp [(h.find_none_iff hinj).mp hf]
  | some i =>
    have hr : r ∈ refs := by
      by_contra hr
      simp [(h.find_none_iff hinj).mpr hr] at hf
    obtain ⟨e, hi, hk⟩ := findEntry_eq_some hf
    obtain ⟨-, -, as, bs, old, rfl, hkey, hval, -⟩ := h.split hi
    obtain rfl := hinj old (by simp) (hkey.trans hk)
    simp [hr, hi, hval]

end Keys

variable (digest) in
/- What one operation does: nothing, write one slot in place (a hit or a
   replacement), overwrite the oldest slot, or add a slot. -/
inductive CacheEffect (c : ShaderCache κ) (op : CacheOp) (c' : ShaderCache κ) : Prop
  | kept (htouch : touched digest c op = none) (hent : c'.entries = c.entries)
      (hnext : c'.nextLru = c.nextLru) (hfreed : c'.freed = c.freed)
      (hval : ∀ val, op.putVal val = val) (hput : putBytes [op] = [])
  | hit (i : Nat) (e : CacheEntry κ) (htouch : touched digest c op = some op.ref)
      (hi : c.entries[i]? = some e) (hkey : e.key = makeKey digest op.ref)
      (hent : c'.entries = c.entries.set i ⟨makeKey digest op.ref, e.value, c.nextLru⟩)
      (hnext : c'.nextLru = u64 (c.nextLru+1)) (hfreed : c'.freed = c.freed)
      (hval : ∀ val, op.putVal val = val) (hput : putBytes [op] = [])
  | replaced (i : Nat) (e : CacheEntry κ) (r : ShaderRef) (t : ShaderTranslation)
      (hop : op = .put r t) (hnull : t.spvBytes ≠ 0) (htouch : touched digest c op = some r)
      (hi : c.entries[i]? = some e) (hkey : e.key = makeKey digest r)
      (hent : c'.entries = c.entries.set i ⟨makeKey digest r, t, c.nextLru⟩)
      (hnext : c'.nextLru = u64 (c.nextLru+1)) (hfreed : c'.freed = c.freed++[e.value.spvBytes])
  | evicted (i : Nat) (e : CacheEntry κ) (r : ShaderRef) (t : ShaderTranslation)
      (hop : op = .put r t) (hnull : t.spvBytes ≠ 0) (htouch : touched digest c op = some r)
      (hnone : findEntry c (makeKey digest r) = none) (hfull : c.maxEntries ≤ c.entries.length)
      (hi : c.entries[i]? = some e) (hold : ∀ x ∈ c.entries, e.lruCounter ≤ x.lruCounter)
      (hent : c'.entries = c.entries.set i ⟨makeKey digest r, t, c.nextLru⟩)
      (hnext : c'.nextLru = u64 (c.nextLru+1)) (hfreed : c'.freed = c.freed++[e.value.spvBytes])
  | inserted (r : ShaderRef) (t : ShaderTranslation)
      (hop : op = .put r t) (hnull : t.spvBytes ≠ 0) (htouch : touched digest c op = some r)
      (hnone : findEntry c (makeKey digest r) = none) (hroom : c.entries.length < c.maxEntries)
      (hent : c'.entries = c.entries++[⟨makeKey digest r, t, c.nextLru⟩])
      (hnext : c'.nextLru = u64 (c.nextLru+1)) (hfreed : c'.freed = c.freed)

variable (digest) in
theorem cacheStep_effect (c : ShaderCache κ) (op : CacheOp) (hn : 1 ≤ c.maxEntries) :
    CacheEffect digest c op (cacheStep digest c op) := by
  cases op with
  | get r =>
    cases hf : findEntry c (makeKey digest r) with
    | none =>
      exact .kept (by simp [touched, shaderCacheGet, hf]) (by simp [cacheStep, shaderCacheGet, hf])
        (by simp [cacheStep, shaderCacheGet, hf]) (by simp [cacheStep, shaderCacheGet, hf])
        (fun _ => rfl) rfl
    | some i =>
      obtain ⟨e, hi, hk⟩ := findEntry_eq_some hf
      obtain ⟨hil, rfl⟩ := List.getElem?_eq_some_iff.mp hi
      exact .hit i _ (by simp [touched, shaderCacheGet, hf, CacheOp.ref]) hi hk
        (by simp [cacheStep, shaderCacheGet, hf, List.modify_eq_set_getElem?, hil, CacheOp.ref, hk])
        (by simp [cacheStep, shaderCacheGet, hf]) (by simp [cacheStep, shaderCacheGet, hf])
        (fun _ => rfl) rfl
  | put r t =>
    by_cases h0 : t.spvBytes = 0
    · refine .kept (by simp [touched, shaderCachePut, h0]) (by simp [cacheStep, shaderCachePut, h0])
        (by simp [cacheStep, shaderCachePut, h0]) (by simp [cacheStep, shaderCachePut, h0])
        (fun val => ?_) (by simp [putBytes, h0])
      funext b
      simp [CacheOp.putVal, h0]
    cases hf : findEntry c (makeKey digest r) with
    | some i =>
      obtain ⟨e, hi, hk⟩ := findEntry_eq_some hf
      exact .replaced i e r t rfl h0 (by simp [touched, shaderCachePut, hf, h0]) hi hk
        (by simp [cacheStep, shaderCachePut, hf, h0]) (by simp [cacheStep, shaderCachePut, hf, h0])
        (by simp [cacheStep, shaderCachePut, hf, h0, slotBytes, hi])
    | none =>
      by_cases hfull : c.maxEntries ≤ c.entries.length
      · have hne : c.entries ≠ [] := List.ne_nil_of_length_pos (by omega)
        obtain ⟨e, hi, hold⟩ := findLruEntry_spec hne
        exact .evicted _ e r t rfl h0 (by simp [touched, shaderCachePut, hf, h0, hfull]) hf hfull hi
          hold (by simp [cacheStep, shaderCachePut, hf, h0, hfull])
          (by simp [cacheStep, shaderCachePut, hf, h0, hfull])
          (by simp [cacheStep, shaderCachePut, hf, h0, hfull, slotBytes, hi])
      · exact .inserted r t rfl h0 (by simp [touched, shaderCachePut, hf, h0, hfull]) hf
          (by omega) (by simp [cacheStep, shaderCachePut, hf, h0, hfull])
          (by simp [cacheStep, shaderCachePut, hf, h0, hfull])
          (by simp [cacheStep, shaderCachePut, hf, h0, hfull])

theorem cacheStep_maxEntries (c : ShaderCache κ) (op : CacheOp) :
    (cacheStep digest c op).maxEntries = c.maxEntries := by
  cases op with
  | get r =>
    simp only [cacheStep, shaderCacheGet]
    split <;> rfl
  | put r t =>
    simp only [cacheStep, shaderCachePut]
    by_cases h0 : t.spvBytes = 0
    · simp [h0]
    simp only [h0, if_false]
    cases findEntry c (makeKey digest r) with
    | some i => rfl
    | none =>
      dsimp only
      split_ifs <;> rfl

theorem putVal_put_self {r : ShaderRef} {t : ShaderTranslation} (h : t.spvBytes ≠ 0)
    (val : ShaderRef → Option ShaderTranslation) : CacheOp.putVal (.put r t) val r = some t := by
  simp [CacheOp.putVal, h]

theorem putVal_put_ne {r b : ShaderRef} (h : b ≠ r) (t : ShaderTranslation)
    (val : ShaderRef → Option ShaderTranslation) : CacheOp.putVal (.put r t) val b = val b := by
  simp [CacheOp.putVal, Ne.symm h]

/-- One operation: the slots follow the recency list cut at the capacity. -/
theorem Tracks.step {c : ShaderCache κ} {refs : List ShaderRef}
    {val : ShaderRef → Option ShaderTranslation} (h : Tracks digest c refs val) (op : CacheOp)
    (hn : 1 ≤ c.maxEntries) (hnd : refs.Nodup) (hlen : refs.length ≤ c.maxEntries)
    (hnext : c.nextLru+1 < 2^64)
    (hinj : ∀ b ∈ refs, makeKey digest b = makeKey digest op.ref → b = op.ref) :
    Tracks digest (cacheStep digest c op)
      ((touched digest c op).elim refs fun r => (touch refs r).take c.maxEntries)
      (op.putVal val) := by
  have hu : u64 (c.nextLru+1) = c.nextLru+1 := Nat.mod_eq_of_lt hnext
  cases cacheStep_effect digest c op hn with
  | kept htouch hent hnext' hfreed hval =>
    rw [htouch, hval]
    exact ⟨by rw [hent]; exact h.sorted, by rw [hent, hnext']; exact h.older⟩
  | hit i e htouch hi hkey hent hnext' hfreed hval =>
    obtain ⟨as, old, bs, rfl, hold, hv, -, hfront⟩ :=
      h.overwrite val hi hent (hnext'.trans hu) (fun _ _ _ => rfl)
    obtain rfl := hinj old (by simp) (hold.trans hkey)
    obtain ⟨ht, hr⟩ := touch_middle hnd
    rw [htouch, Option.elim_some, ht, hval, List.take_of_length_le (by simp at hlen ⊢; omega)]
    exact hfront hv hr
  | replaced i e r t hop hnull htouch hi hkey hent hnext' =>
    subst hop
    obtain ⟨as, old, bs, rfl, hold, -, -, hfront⟩ :=
      h.overwrite (CacheOp.putVal (.put r t) val) hi hent (hnext'.trans hu)
        (fun b _ hb => putVal_put_ne hb t val)
    obtain rfl := hinj old (by simp) (hold.trans hkey)
    obtain ⟨ht, hr⟩ := touch_middle hnd
    rw [htouch, Option.elim_some, ht, List.take_of_length_le (by simp at hlen ⊢; omega)]
    exact hfront (putVal_put_self hnull val) hr
  | evicted i e r t hop hnull htouch hnone hfull hi hmin hent hnext' =>
    subst hop
    have hr : r ∉ refs := (h.find_none_iff hinj).mp hnone
    obtain ⟨as, old, bs, rfl, -, -, hlast, hfront⟩ :=
      h.overwrite (CacheOp.putVal (.put r t) val) hi hent (hnext'.trans hu)
        (fun b _ hb => putVal_put_ne hb t val)
    obtain rfl := hlast hmin
    -- the oldest slot stands for the last triple of the list
    have hl := h.length
    simp only [List.length_append, List.length_cons, List.length_nil] at hl hlen
    have htake : (touch (as++[old]) r).take c.maxEntries = r::(as++[]) := by
      obtain ⟨m, hm⟩ : ∃ m, c.maxEntries = m+1 := ⟨c.maxEntries-1, by omega⟩
      rw [touch, List.erase_of_not_mem hr, hm, List.take_succ_cons,
        List.take_append_of_le_length (by omega), List.take_of_length_le (by omega),
        List.append_nil]
    rw [htouch, Option.elim_some, htake]
    exact hfront (putVal_put_self hnull val) (fun hm => hr (by simp at hm ⊢; exact Or.inl hm))
  | inserted r t hop hnull htouch hnone hroom hent hnext' =>
    subst hop
    have hr : r ∉ refs := (h.find_none_iff hinj).mp hnone
    have hl := h.length
    obtain ⟨slots, hp, hs, hm⟩ := h.sorted
    rw [htouch, Option.elim_some, touch, List.erase_of_not_mem hr,
      List.take_of_length_le (by simp; omega)]
    refine tracks_front slots ?_ hs hm
      (fun x hx => h.older x (hp.mem_iff.mp hx)) (hnext'.trans hu) (putVal_put_self hnull val)
      (fun b hb => putVal_put_ne (fun hbr : b = r => hr (hbr ▸ hb)) t val)
    rw [hent]
    exact List.perm_append_singleton _ _ |>.trans (hp.symm.cons _)

/-- What was taken over is freed or stored, never both and never neither. -/
theorem cacheStep_balance {c : ShaderCache κ} (op : CacheOp) (hn : 1 ≤ c.maxEntries) :
    ((cacheStep digest c op).freed : Multiset Nat)+(cacheStep digest c op).stored =
      (c.freed : Multiset Nat)+c.stored+putBytes [op] := by
  cases cacheStep_effect digest c op hn with
  | kept _ hent _ hfreed _ hput => simp [ShaderCache.stored, hent, hfreed, hput]
  | hit i e _ hi _ hent _ hfreed _ hput =>
    have hs := stored_set hi hent
    rw [add_right_cancel hs, hfreed, hput]
    simp
  | replaced i e r t hop hnull _ hi _ hent _ hfreed =>
    subst hop
    rw [freed_overwrite hi hent hfreed]
    simp [putBytes, hnull]
  | evicted i e r t hop hnull _ _ _ hi _ hent _ hfreed =>
    subst hop
    rw [freed_overwrite hi hent hfreed]
    simp [putBytes, hnull]
  | inserted r t hop hnull _ _ _ hent _ hfreed =>
    subst hop
    rw [hfreed]
    simp [ShaderCache.stored, hent, putBytes, hnull, add_assoc, ← Multiset.coe_add]

theorem touches_append (c : ShaderCache κ) (ops : List CacheOp) (op : CacheOp) :
    touches digest c (ops++[op]) =
      touches digest c ops++(touched digest (cacheRun digest c ops) op).toList := by
  induction ops generalizing c with
  | nil => simp [touches, cacheRun]
  | cons a ops ih =>
    rw [List.cons_append, touches, touches, ih, List.append_assoc]
    rfl

theorem touched_ref {c : ShaderCache κ} {op : CacheOp} {r : ShaderRef}
    (h : touched digest c op = some r) : r = op.ref := by
  cases op with
  | get r' =>
    simp only [touched] at h
    split_ifs at h
    exact (Option.some.inj h).symm
  | put r' t =>
    simp only [touched] at h
    split_ifs at h
    exact (Option.some.inj h).symm

variable (digest) in
/-- The cache after a run from an empty one. -/
def cacheAfter (n : Nat) (ops : List CacheOp) : ShaderCache κ :=
  cacheRun digest (shaderCacheNew n) ops

variable (digest) in
/-- The triples put or hit along a run from an empty cache. -/
def touchesOf (n : Nat) (ops : List CacheOp) : List ShaderRef :=
  touches digest (shaderCacheNew n : ShaderCache κ) ops

variable (digest) in
structure RunTracks (n : Nat) (ops : List CacheOp) : Prop where
  capacity : (cacheAfter digest n ops).maxEntries = n
  counter : (cacheAfter digest n ops).nextLru ≤ ops.length+1
  refs : ∀ r ∈ touchesOf digest n ops, ∃ op ∈ ops, op.ref = r
  slots : Tracks digest (cacheAfter digest n ops) ((recency (touchesOf digest n ops)).take n)
    (lastPut ops)
  balance : ((cacheAfter digest n ops).freed : Multiset Nat)+(cacheAfter digest n ops).stored =
    putBytes ops

/-- Every run of fewer than 2^64-1 operations whose triples have keys of their
own is tracked. -/
theorem runTracks {n : Nat} (hn : 1 ≤ n) (ops : List CacheOp) (hlen : ops.length+1 < 2^64)
    (hkeys : ∀ a ∈ ops, ∀ b ∈ ops, makeKey digest a.ref = makeKey digest b.ref → a.ref = b.ref) :
    RunTracks digest n ops := by
  induction ops using List.reverseRecOn with
  | nil =>
    refine ⟨?_, le_rfl, by simp [touchesOf, touches], ?_, rfl⟩
    · simp [cacheAfter, cacheRun, shaderCacheNew, show n ≠ 0 by omega]
    · exact ⟨⟨[], List.Perm.nil, List.Pairwise.nil, by simp [touchesOf, touches, recency]⟩,
        by simp [cacheAfter, cacheRun, shaderCacheNew]⟩
  | append_singleton ops op ih =>
    rw [List.length_append, List.length_singleton] at hlen
    have hih := ih (by omega) fun a ha b hb =>
      hkeys a (List.mem_append_left _ ha) b (List.mem_append_left _ hb)
    obtain ⟨hcap, hctr, hrefs, hslots, hbal⟩ := hih
    have hstep : cacheAfter digest n (ops++[op]) = cacheStep digest (cacheAfter digest n ops) op := by
      simp [cacheAfter, cacheRun]
    have htouch : touchesOf digest n (ops++[op]) =
        touchesOf digest n ops++(touched digest (cacheAfter digest n ops) op).toList :=
      touches_append _ _ _
    have hn' : 1 ≤ (cacheAfter digest n ops).maxEntries := hcap.symm ▸ hn
    refine ⟨?_, ?_, ?_, ?_, ?_⟩
    · rw [hstep, cacheStep_maxEntries, hcap]
    · have hu : u64 ((cacheAfter digest n ops).nextLru+1) =
          (cacheAfter digest n ops).nextLru+1 := Nat.mod_eq_of_lt (by omega)
      rw [hstep, List.length_append, List.length_singleton]
      cases cacheStep_effect digest (cacheAfter digest n ops) op hn' <;> omega
    · rw [htouch]
      intro r hr
      rcases List.mem_append.mp hr with hr | hr
      · obtain ⟨o, ho, rfl⟩ := hrefs r hr
        exact ⟨o, List.mem_append_left _ ho, rfl⟩
      · exact ⟨op, by simp, (touched_ref (Option.mem_toList.mp hr)).symm⟩
    · have hinj : ∀ b ∈ (recency (touchesOf digest n ops)).take n,
          makeKey digest b = makeKey digest op.ref → b = op.ref := by
        intro b hb hk
        obtain ⟨o, ho, rfl⟩ := hrefs b (mem_recency.mp (List.mem_of_mem_take hb))
        exact hkeys o (List.mem_append_left _ ho) op (by simp) hk
      have h := hslots.step op hn' ((recency_nodup _).sublist (List.take_sublist _ _))
        (by rw [hcap]; exact List.length_take_le _ _) (by omega) hinj
      rw [hstep, htouch, lastPut_append]
      rw [hcap] at h
      cases ht : touched digest (cacheAfter digest n ops) op with
      | none => simpa [ht] using h
      | some r =>
        rw [ht, Option.elim_some, touch_take _ _ hn] at h
        rwa [Option.toList_some, recency_append]
    · rw [hstep, cacheStep_balance op hn', hbal, putBytes, putBytes, putBytes, List.filterMap_append,
        Multiset.coe_add]

theorem touched_put {r : ShaderRef} {t : ShaderTranslation} (h : t.spvBytes ≠ 0)
    (c : ShaderCache κ) : touched digest c (.put r t) = some r := by
  simp only [touched, shaderCachePut, h, if_false]
  cases findEntry c (makeKey digest r) with
  | some i => rfl
  | none => by_cases hfull : c.maxEntries ≤ c.entries.length <;> simp [hfull]

theorem mem_touches_of_lastPut {n : Nat} {ops : List CacheOp} {r : ShaderRef}
    {t : ShaderTranslation} (h : lastPut ops r = some t) : r ∈ touchesOf digest n ops := by
  induction ops using List.reverseRecOn with
  | nil => simp [lastPut] at h
  | append_singleton ops op ih =>
    rw [lastPut_append] at h
    rw [touchesOf, touches_append, List.mem_append]
    cases op with
    | get r' => exact Or.inl (ih h)
    | put r' t' =>
      simp only [CacheOp.putVal] at h
      split_ifs at h with hp
      · right
        rw [touched_put hp.2, hp.1]
        simp
      · exact Or.inl (ih h)

variable (digest) in
/-- What an LRU map of `n` entries answers after a run. -/
def lruAnswer (n : Nat) (ops : List CacheOp) (r : ShaderRef) :
    CacheStatus × Option ShaderTranslation :=
  match lastPut ops r with
  | none => (.notFound, none)
  | some t =>
    if (since (touchesOf digest n ops) r).toFinset.card < n then (.ok, some t)
    else (.notFound, none)

theorem RunTracks.answer {n : Nat} {ops : List CacheOp} (h : RunTracks digest n ops)
    {r : ShaderRef}
    (hinj : ∀ a ∈ ops, makeKey digest a.ref = makeKey digest r → a.ref = r) :
    ((shaderCacheGet digest (cacheAfter digest n ops) r).1,
      (shaderCacheGet digest (cacheAfter digest n ops) r).2.1) = lruAnswer digest n ops r := by
  rw [h.slots.get_eq fun b hb hk => ?_, lruAnswer]
  · cases hl : lastPut ops r with
    | none =>
      rw [if_neg]
      intro hr
      simpa [hl] using h.slots.val_some hr
    | some t => simp only [mem_take_recency (mem_touches_of_lastPut hl) n]
  · obtain ⟨o, ho, rfl⟩ := h.refs b (mem_recency.mp (List.mem_of_mem_take hb))
    exact hinj o ho hk

/-- A step frees only pointers that leave their slot with it. -/
theorem cacheStep_frees {c : ShaderCache κ} (op : CacheOp) (hn : 1 ≤ c.maxEntries)
    (hnd : c.stored.Nodup) (hfresh : ∀ r t, op = .put r t → t.spvBytes ∉ c.stored) :
    (cacheStep digest c op).stored.Nodup ∧ ∃ ps, (cacheStep digest c op).freed = c.freed++ps ∧
      ∀ p ∈ ps, p ∈ c.stored ∧ p ∉ (cacheStep digest c op).stored := by
  cases cacheStep_effect digest c op hn with
  | kept _ hent _ hfreed =>
    exact ⟨by rwa [ShaderCache.stored, hent], [], by simp [hfreed], by simp⟩
  | hit i e _ hi _ hent _ hfreed =>
    have hs := stored_set hi hent
    refine ⟨?_, [], by simp [hfreed], by simp⟩
    exact Multiset.coe_nodup.mp (add_right_cancel hs ▸ Multiset.coe_nodup.mpr hnd)
  | replaced i e r t hop _ _ hi _ hent _ hfreed =>
    obtain ⟨h1, h2, h3⟩ := stored_overwrite hi hent hnd (hfresh r t hop)
    exact ⟨h1, [_], hfreed, by simpa using ⟨h2, h3⟩⟩
  | evicted i e r t hop _ _ _ _ hi _ hent _ hfreed =>
    obtain ⟨h1, h2, h3⟩ := stored_overwrite hi hent hnd (hfresh r t hop)
    exact ⟨h1, [_], hfreed, by simpa using ⟨h2, h3⟩⟩
  | inserted r t hop _ _ _ _ hent _ hfreed =>
    refine ⟨?_, [], by simp [hfreed], by simp⟩
    have hf := hfresh r t hop
    simp only [ShaderCache.stored] at hnd hf ⊢
    rw [hent, List.map_append, List.map_singleton, List.nodup_append]
    refine ⟨hnd, by simp, ?_⟩
    intro a ha b hb hab
    rw [List.mem_singleton.mp hb] at hab
    exact hf (hab ▸ ha)

variable (digest) in
/-- Every put passes a pointer that is not stored at the time. -/
def PutsFresh (n : Nat) (ops : List CacheOp) : Prop :=
  ∀ pre r t post, ops = pre++.put r t::post → t.spvBytes ∉ (cacheAfter digest n pre).stored

variable (digest) in
/- The cache as an LRU map of `n` entries that owns what is put in it. -/
structure RefinesLru (n : Nat) (ops : List CacheOp) : Prop where
  get : ∀ pre r post, ops = pre++.get r::post →
    ((shaderCacheGet digest (cacheAfter digest n pre) r).1,
      (shaderCacheGet digest (cacheAfter digest n pre) r).2.1) = lruAnswer digest n pre r
  bounded : ∀ pre, pre <+: ops → (cacheAfter digest n pre).entries.length ≤ n ∧
    ((cacheAfter digest n pre).entries.map CacheEntry.key).Nodup
  freedLeaving : ∀ pre op post, ops = pre++op::post →
    ∃ ps, (cacheAfter digest n (pre++[op])).freed = (cacheAfter digest n pre).freed++ps ∧
      ∀ p ∈ ps, p ∈ (cacheAfter digest n pre).stored ∧ p ∉ (cacheAfter digest n (pre++[op])).stored
  freedOnce : (shaderCacheClose (cacheAfter digest n ops) : Multiset Nat) = putBytes ops

theorem cacheAfter_append (n : Nat) (ops : List CacheOp) (op : CacheOp) :
    cacheAfter digest n (ops++[op]) = cacheStep digest (cacheAfter digest n ops) op := by
  simp [cacheAfter, cacheRun]

theorem RunTracks.stored_nodup {n : Nat} (hn : 1 ≤ n) {ops : List CacheOp}
    (hrun : ∀ pre, pre <+: ops → RunTracks digest n pre) (hfresh : PutsFresh digest n ops) :
    ∀ pre, pre <+: ops → (cacheAfter digest n pre).stored.Nodup := by
  intro pre
  induction pre using List.reverseRecOn with
  | nil => intro _; exact List.nodup_nil
  | append_singleton pre op ih =>
    rintro ⟨post, rfl⟩
    have hpre : pre <+: pre++[op]++post := ⟨[op]++post, by simp⟩
    rw [cacheAfter_append]
    refine (cacheStep_frees op ((hrun pre hpre).capacity.symm ▸ hn) (ih hpre) ?_).1
    rintro r t rfl
    exact hfresh pre r t post (by simp)

/-- The cache refines the LRU map in every run whose triples the digested bytes
tell apart and whose counter does not wrap. -/
theorem shader_cache_refines_lru (hdigest : Function.Injective digest) {n : Nat} (hn : 1 ≤ n)
    (ops : List CacheOp) (hfresh : PutsFresh digest n ops) (hlen : ops.length+1 < 2^64)
    (hkeys : ∀ a ∈ ops, ∀ b ∈ ops, a.ref.keyBytes = b.ref.keyBytes → a.ref = b.ref) :
    RefinesLru digest n ops := by
  have hinj : ∀ a ∈ ops, ∀ b ∈ ops, makeKey digest a.ref = makeKey digest b.ref → a.ref = b.ref :=
    fun a ha b hb hk => hkeys a ha b hb (hdigest hk)
  have hrun : ∀ pre, pre <+: ops → RunTracks digest n pre := by
    intro pre hpre
    refine runTracks hn pre ((Nat.add_le_add_right hpre.length_le 1).trans_lt hlen) ?_
    exact fun a ha b hb => hinj a (hpre.subset ha) b (hpre.subset hb)
  refine ⟨?_, ?_, ?_, ?_⟩
  · rintro pre r post rfl
    refine (hrun pre ⟨_, rfl⟩).answer fun a ha hk => ?_
    exact hinj a (List.mem_append_left _ ha) (.get r) (by simp) hk
  · intro pre hpre
    have h := hrun pre hpre
    refine ⟨?_, ?_⟩
    · rw [← h.slots.length]
      exact List.length_take_le _ _
    · refine h.slots.keys.nodup_iff.mpr (List.Nodup.map_on ?_ ?_)
      · intro a ha b hb hk
        obtain ⟨o, ho, rfl⟩ := h.refs a (mem_recency.mp (List.mem_of_mem_take ha))
        obtain ⟨o', ho', rfl⟩ := h.refs b (mem_recency.mp (List.mem_of_mem_take hb))
        exact hinj o (hpre.subset ho) o' (hpre.subset ho') hk
      · exact (recency_nodup _).sublist (List.take_sublist _ _)
  · rintro pre op post rfl
    have hpre : pre <+: pre++op::post := ⟨_, rfl⟩
    rw [cacheAfter_append]
    refine (cacheStep_frees op ((hrun pre hpre).capacity.symm ▸ hn)
      (RunTracks.stored_nodup hn hrun hfresh pre hpre) ?_).2
    rintro r t rfl
    exact hfresh pre r t post rfl
  · rw [shaderCacheClose, ← (hrun ops List.prefix_rfl).balance, ← Multiset.coe_add]
    rfl

end Step

/-- A vertex function of a metallib, by name. -/
def vertexRef (metallib name : List UInt8) (h : ∀ b ∈ name, b ≠ 0) : ShaderRef :=
  ⟨metallib, name, .vertex, h⟩

/-- Function "ab" of the one-byte metallib 1. -/
def refAb : ShaderRef := vertexRef [1] [97, 98] (by simp)

/-- Function "b" of the metallib 1, 97: the same bytes in a row. -/
def refB : ShaderRef := vertexRef [1, 97] [98] (by simp)

theorem putsFresh_first {κ : Type*} [DecidableEq κ] (digest : List UInt8 → κ) (n : Nat)
    (r r' : ShaderRef) (t : ShaderTranslation) : PutsFresh digest n [.put r t, .get r'] := by
  intro pre a b post h
  match pre with
  | [] => simp [cacheAfter, cacheRun, shaderCacheNew, ShaderCache.stored]
  | [_] => simp at h
  | _::_::_ => simp at h

theorem shader_cache_refines_lru_hit :
    RefinesLru (id : List UInt8 → List UInt8) 1 [.put refAb ⟨8, 64, .vertex⟩, .get refAb] :=
  shader_cache_refines_lru Function.injective_id le_rfl _ (putsFresh_first _ _ _ _ _) (by decide)
    (by simp [CacheOp.ref])

/-- The translation put for one triple is handed out for another. -/
theorem shader_key_ambiguous :
    PutsFresh (id : List UInt8 → List UInt8) 1 [.put refAb ⟨8, 64, .vertex⟩, .get refB] ∧
      ¬ RefinesLru (id : List UInt8 → List UInt8) 1 [.put refAb ⟨8, 64, .vertex⟩, .get refB] := by
  refine ⟨putsFresh_first _ _ _ _ _, fun h => ?_⟩
  have hg := h.get [.put refAb ⟨8, 64, .vertex⟩] refB [] rfl
  revert hg
  decide

end Lagfx
