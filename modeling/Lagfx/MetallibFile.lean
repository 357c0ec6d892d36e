import Mathlib.Data.List.Forall2
import Lagfx.Metallib

/-! What an MTLB file is, and that extraction and the searches over it recover what
the file holds. A file is described by its parts, wherever in the buffer they
stand. -/
namespace Lagfx
open ByteMemory

/-- One shader function as the writer of the file knows it. -/
structure MtlbFunction where
  name : List UInt8
  stage : UInt8
  bitcode : List UInt8

/-- A tag with the payload its u16 length frames. -/
structure MtlbField where
  tag : List UInt8
  payload : List UInt8
deriving DecidableEq

def MtlbField.bytes (d : MtlbField) : List UInt8 :=
  d.tag ++ (putLe 2 d.payload.length ++ d.payload)

/-- A tag the extractor gives no meaning to, HASH and VERS among them. -/
def MtlbField.Unknown (d : MtlbField) : Prop :=
  d.tag ≠ tagName ∧ d.tag ≠ tagType ∧ d.tag ≠ tagOfft ∧ d.tag ≠ tagMdsz

def MtlbField.Framed (d : MtlbField) : Prop :=
  d.tag.length = 4 ∧ d.tag ≠ tagEndt ∧ d.payload.length < 2^16

/- An entry: its function, the offset of the bitcode from BC_BASE, the fields in
   the order of the file, and what stands between ENDT and the end of the entry. -/
structure MtlbEntry where
  fn : MtlbFunction
  offt : Nat
  fields : List MtlbField
  tail : List UInt8

def fieldsBytes (ds : List MtlbField) : List UInt8 := (ds.map MtlbField.bytes).flatten

def MtlbEntry.body (e : MtlbEntry) : List UInt8 := fieldsBytes e.fields ++ (tagEndt ++ e.tail)

def MtlbEntry.bytes (e : MtlbEntry) : List UInt8 := putLe 4 (e.body.length+4) ++ e.body

/-- The four fields that describe `fn`, in any order and among any unknown tags. The
NAME payload may or may not carry its NUL. -/
structure MtlbEntry.Lays (e : MtlbEntry) : Prop where
  name_lt : e.fn.name.length < metallibNameBytes
  name_text : 0 ∉ e.fn.name
  offt_lt : e.offt < 2^64
  size_lt : e.body.length+4 < 2^32
  framed : ∀ d ∈ e.fields, d.Framed
  order : ∃ nul rest lead unknown, (nul = [] ∨ nul = [0]) ∧ lead.length = 16 ∧
    (∀ d ∈ unknown, d.Unknown) ∧
    e.fields.Perm (⟨tagName, e.fn.name ++ nul⟩ :: ⟨tagType, e.fn.stage :: rest⟩ ::
      ⟨tagOfft, lead ++ putLe 8 e.offt⟩ :: ⟨tagMdsz, putLe 8 e.fn.bitcode.length⟩ :: unknown)

def entriesBytes (es : List MtlbEntry) : List UInt8 := (es.map MtlbEntry.bytes).flatten

/-- The file holds `es`: magic, the FET wherever the header says, and every bitcode at
its offset from BC_BASE. A header too short for the BC_BASE field means 0. -/
structure MtlbFile (buf : List UInt8) (es : List MtlbEntry) : Prop where
  count_le : es.length ≤ metallibMaxEntries
  size_lt : buf.length < 2^64
  magic : PartAt buf 0 tagMtlb
  lays : ∀ e ∈ es, e.Lays
  table : ∃ fetOff, 0 < fetOff ∧ PartAt buf 0x18 (putLe 8 fetOff) ∧
    PartAt buf fetOff (putLe 4 es.length ++ entriesBytes es)
  bitcode : ∃ bcBase,
    (buf.length < 0x50 ∧ bcBase = 0 ∨ bcBase < 2^64 ∧ PartAt buf 0x48 (putLe 8 bcBase)) ∧
    ∀ e ∈ es, PartAt buf (bcBase+e.offt) e.fn.bitcode

/-- The record stored for a function. -/
structure MtlbFunction.Extracted (buf : List UInt8) (fn : MtlbFunction) (r : MetallibFunction) :
    Prop where
  name : r.name = fn.name
  stage : r.stage = stageOfRaw fn.stage.toNat
  stageRaw : r.stageRaw = fn.stage.toNat
  bitcode : ∃ off len, r.bitcode = some (off, len) ∧ PartAt buf off fn.bitcode ∧
    len = fn.bitcode.length

theorem rdBytes_partAt {buf p : List UInt8} {off : Nat} (h : PartAt buf off p) :
    rdBytes buf off p.length = .ok p := by
  rw [rdBytes_of_le h.1, h.2]

theorem rdLe_partAt {buf : List UInt8} {off n v : Nat} (h : PartAt buf off (putLe n v))
    (hv : v < 256^n) : rdLe buf off n = .ok v := by
  have hr := rdBytes_partAt h
  rw [putLe_length] at hr
  rw [rdLe, hr, Except.map, leNat_putLe_of_lt hv]

theorem walkTags_fields {buf : List UInt8} {bodyEnd : Nat} {ds : List MtlbField}
    {tail : List UInt8} (hd : ∀ d ∈ ds, d.Framed) (bp : Nat) (f : EntryFields)
    (hp : PartAt buf bp (fieldsBytes ds ++ (tagEndt ++ tail)))
    (hend : bp+(fieldsBytes ds ++ (tagEndt ++ tail)).length = bodyEnd) :
    walkTags buf bodyEnd bp f = .ok (ds.foldl (fun f d => readField d.tag d.payload f) f) := by
  induction ds generalizing bp f with
  | nil =>
    have hp := (partAt_append.mp (partAt_append.mp hp).2).1
    have hr := rdBytes_partAt hp
    have hl : tagEndt.length = 4 := rfl
    simp only [fieldsBytes, List.map_nil, List.flatten_nil, List.length_nil, Nat.add_zero, hl,
      List.nil_append, List.length_append] at hr hend
    rw [walkTags, dif_neg (by omega), hr]
    simp
  | cons d ds ih =>
    obtain ⟨hlen, hne, hpay⟩ := hd d (by simp)
    have hcons : fieldsBytes (d::ds) = d.tag ++ (putLe 2 d.payload.length ++ (d.payload ++ fieldsBytes ds)) := by
      simp [fieldsBytes, MtlbField.bytes]
    rw [hcons] at hp hend
    simp only [List.append_assoc] at hp hend
    obtain ⟨htag, hp⟩ := partAt_append.mp hp
    obtain ⟨hflen, hp⟩ := partAt_append.mp hp
    obtain ⟨hdata, hp⟩ := partAt_append.mp hp
    have htag := rdBytes_partAt htag
    have hdata := rdBytes_partAt hdata
    rw [hlen] at htag hflen hdata hp
    have hflen := rdLe_partAt hflen (by simpa using hpay)
    rw [putLe_length] at hp hdata
    simp only [List.length_append, putLe_length, hlen] at hend
    rw [walkTags, dif_neg (by omega), htag]
    simp only [hne, if_false]
    rw [if_neg (by omega), hflen]
    simp only
    rw [if_neg (by omega), hdata]
    refine ih (fun d' hd' => hd d' (List.mem_cons_of_mem _ hd')) _ _ hp ?_
    simp only [List.length_append]
    omega

theorem readField_unknown {d : MtlbField} (h : d.Unknown) (f : EntryFields) :
    readField d.tag d.payload f = f := by
  obtain ⟨h1, h2, h3, h4⟩ := h
  simp [readField, h1, h2, h3, h4]

theorem nameField_text {name nul : List UInt8} (hn : nul = [] ∨ nul = [0]) (h0 : 0 ∉ name)
    (hl : name.length < metallibNameBytes) : nameField (name ++ nul) = name := by
  have hcut : ¬ metallibNameBytes ≤ name.length := by omega
  obtain rfl | rfl := hn
  · have hlast : ¬ name.getLast? = some 0 := fun h => h0 (List.mem_of_getLast? h)
    simp [nameField, hlast, hcut]
  · simp [nameField, hcut]

/-- What a laid-out entry is read as. -/
def MtlbEntry.fieldsRead (e : MtlbEntry) : EntryFields where
  name := e.fn.name
  stage := stageOfRaw e.fn.stage.toNat
  stageRaw := e.fn.stage.toNat
  offt := some e.offt
  mdsz := some e.fn.bitcode.length

theorem readField_name {name nul : List UInt8} (hn : nul = [] ∨ nul = [0]) (h0 : 0 ∉ name)
    (hl : name.length < metallibNameBytes) (f : EntryFields) :
    readField tagName (name ++ nul) f = { f with name := name } := by
  simp [readField, nameField_text hn h0 hl]

theorem readField_type (stage : UInt8) (rest : List UInt8) (f : EntryFields) :
    readField tagType (stage::rest) f =
      { f with stageRaw := stage.toNat, stage := stageOfRaw stage.toNat } := by
  have h : tagType ≠ tagName := by decide
  simp [readField, h, byteAt]

theorem readField_offt {lead : List UInt8} {v : Nat} (hl : lead.length = 16) (hv : v < 2^64)
    (f : EntryFields) :
    readField tagOfft (lead ++ putLe 8 v) f = { f with offt := some v } := by
  have h1 : tagOfft ≠ tagName := by decide
  have h2 : tagOfft ≠ tagType := by decide
  have hw := window_append_right lead (putLe 8 v) 0 8
  rw [Nat.add_zero, hl, window_putLe] at hw
  simp [readField, h1, h2, hl, le64, hw, leNat_putLe_of_lt (n := 8) (v := v) (by simpa using hv)]

theorem readField_mdsz {v : Nat} (hv : v < 2^64) (f : EntryFields) :
    readField tagMdsz (putLe 8 v) f = { f with mdsz := some v } := by
  have h1 : tagMdsz ≠ tagName := by decide
  have h2 : tagMdsz ≠ tagType := by decide
  have h3 : tagMdsz ≠ tagOfft := by decide
  simp [readField, h1, h2, h3, le64, window_putLe, leNat_putLe_of_lt (n := 8) (v := v) (by simpa using hv)]

theorem foldl_unknown {ds : List MtlbField} (h : ∀ d ∈ ds, d.Unknown) (f : EntryFields) :
    ds.foldl (fun f d => readField d.tag d.payload f) f = f := by
  induction ds with
  | nil => rfl
  | cons d ds ih =>
    rw [List.foldl_cons, readField_unknown (h d (by simp))]
    exact ih fun d' hd' => h d' (List.mem_cons_of_mem _ hd')

/-- The order of an entry's tags does not matter. -/
theorem MtlbEntry.Lays.fold {e : MtlbEntry} (h : e.Lays) (hs : e.fn.bitcode.length < 2^64) :
    e.fields.foldl (fun f d => readField d.tag d.payload f) {} = e.fieldsRead := by
  obtain ⟨nul, rest, lead, unknown, hnul, hlead, hunk, hperm⟩ := h.order
  have hname := fun f => readField_name hnul h.name_text h.name_lt f
  have htype := fun f => readField_type e.fn.stage rest f
  have hofft := fun f => readField_offt hlead h.offt_lt f
  have hmdsz := fun f => readField_mdsz hs f
  rw [hperm.foldl_eq']
  · simp only [List.foldl_cons, hname, htype, hofft, hmdsz, foldl_unknown hunk]
    rfl
  · intro d hd d' hd' f
    have hd := hperm.mem_iff.mp hd
    have hd' := hperm.mem_iff.mp hd'
    simp only [List.mem_cons] at hd hd'
    obtain rfl | rfl | rfl | rfl | hd := hd <;> obtain rfl | rfl | rfl | rfl | hd' := hd' <;>
      simp_all only [readField_unknown (hunk _ _)]

theorem walkEntries_layout {buf : List UInt8} (hb : buf.length < 2^64) {es : List MtlbEntry}
    (hl : ∀ e ∈ es, e.Lays) (hs : ∀ e ∈ es, e.fn.bitcode.length ≤ buf.length) (pos : Nat)
    (hp : PartAt buf pos (entriesBytes es)) :
    walkEntries buf es.length pos = .ok (es.map MtlbEntry.fieldsRead) := by
  induction es generalizing pos with
  | nil => rfl
  | cons e es ih =>
    have he := hl e (by simp)
    have hlen := hs e (by simp)
    have hcons : entriesBytes (e::es) = putLe 4 (e.body.length+4) ++ (e.body ++ entriesBytes es) := by
      simp [entriesBytes, MtlbEntry.bytes]
    rw [hcons] at hp
    obtain ⟨hsize, hp⟩ := partAt_append.mp hp
    obtain ⟨hbody, hp⟩ := partAt_append.mp hp
    have hsize := rdLe_partAt hsize (by simpa using he.size_lt)
    rw [putLe_length] at hp hbody
    have hin := hbody.1
    have htag : tagEndt.length = 4 := rfl
    have hmin : 4 ≤ e.body.length := by simp only [MtlbEntry.body, List.length_append]; omega
    have hwalk := walkTags_fields he.framed (pos+4) {} hbody rfl
    rw [show pos+4+(fieldsBytes e.fields ++ (tagEndt ++ e.tail)).length = pos+(e.body.length+4) by
      rw [MtlbEntry.body]; omega, he.fold (by omega)] at hwalk
    rw [List.length_cons, walkEntries, if_neg (by omega), hsize]
    simp only
    rw [if_neg (by omega), hwalk]
    have hrest := ih (fun e' he' => hl e' (List.mem_cons_of_mem _ he'))
      (fun e' he' => hs e' (List.mem_cons_of_mem _ he')) _ hp
    rw [show pos+4+e.body.length = pos+(e.body.length+4) by omega] at hrest
    simp only [hrest, Except.map, List.map_cons]

/-- The base the extractor uses, and that it is the file's unless every bitcode is empty. -/
theorem metallibBcBase_layout {buf : List UInt8} {base : Nat}
    (h : buf.length < 0x50 ∧ base = 0 ∨ base < 2^64 ∧ PartAt buf 0x48 (putLe 8 base)) :
    metallibBcBase buf = .ok (if buf.length ≤ base then 0 else base) := by
  rw [metallibBcBase]
  obtain ⟨hlen, rfl⟩ | ⟨hlt, hp⟩ := h
  · simp [hlen]
  · have hin := hp.1
    rw [putLe_length] at hin
    rw [if_neg (by omega), rdLe_partAt hp (by simpa using hlt)]
    by_cases h0 : base = 0
    · simp [h0, Except.map]
    · simp [h0, Except.map]

theorem metallibEntries_layout {buf : List UInt8} {es : List MtlbEntry} (h : MtlbFile buf es) :
    ∃ base, metallibEntries buf = .ok (if buf.length ≤ base then 0 else base,
      es.map MtlbEntry.fieldsRead) ∧ ∀ e ∈ es, PartAt buf (base+e.offt) e.fn.bitcode := by
  obtain ⟨fetOff, hpos, hfet, htab⟩ := h.table
  obtain ⟨base, hbase, hbc⟩ := h.bitcode
  refine ⟨base, ?_, hbc⟩
  obtain ⟨hcount, hents⟩ := partAt_append.mp htab
  have hwalk := walkEntries_layout h.size_lt h.lays
    (fun e he => by have := (hbc e he).1; omega) _ hents
  have hmax := h.count_le
  have hin := hfet.1
  have hin' := hcount.1
  have hlt := h.size_lt
  rw [putLe_length] at hin hin' hwalk
  have hmagic := rdBytes_partAt h.magic
  rw [show tagMtlb.length = 4 from rfl] at hmagic
  have hcount := rdLe_partAt hcount (by simp only [metallibMaxEntries] at hmax; omega)
  have hfet := rdLe_partAt hfet (by omega)
  rw [metallibEntries, if_neg (by omega), hmagic, hfet, metallibBcBase_layout hbase]
  simp only [bind, Except.bind, ne_eq, not_true_eq_false, if_false]
  rw [if_neg (by omega), if_neg (by omega), hcount]
  simp only
  rw [if_neg (by omega), hwalk]

theorem fieldsRead_extracted {buf : List UInt8} {e : MtlbEntry} {base : Nat}
    (hb : buf.length < 2^64) (hp : PartAt buf (base+e.offt) e.fn.bitcode) :
    e.fn.Extracted buf
      (e.fieldsRead.function buf.length (if buf.length ≤ base then 0 else base)) := by
  have hin := hp.1
  refine ⟨rfl, rfl, rfl, ?_⟩
  by_cases hbase : buf.length ≤ base
  · -- nothing is left after the base, so the bitcode is empty and stands anywhere
    have h0 : e.offt = 0 := by omega
    have hnil : e.fn.bitcode = [] := List.eq_nil_of_length_eq_zero (by omega)
    refine ⟨0, 0, ?_, ?_, ?_⟩
    · simp [EntryFields.function, resolveBitcode, MtlbEntry.fieldsRead, hbase, h0, hnil, u64]
    · simp [hnil, PartAt, window]
    · simp [hnil]
  · refine ⟨base+e.offt, e.fn.bitcode.length, ?_, hp, rfl⟩
    have hu : u64 (base+e.offt) = base+e.offt := Nat.mod_eq_of_lt (by omega)
    simp only [EntryFields.function, resolveBitcode, MtlbEntry.fieldsRead, hbase, if_false, hu]
    rw [if_pos (by omega)]

/-- The functions of the whole table. -/
def tableFunctions (bufLen : Nat) (r : Nat × List EntryFields) : List MetallibFunction :=
  r.2.map (EntryFields.function bufLen r.1)

def FunctionLookup.ofOption : Option MetallibFunction → FunctionLookup
  | some f => .found f
  | none => .notFound

/-- What extraction and the two searches over it are for. -/
structure ExtractSound (buf name : List UInt8) (want : MetallibStage) : Prop where
  round_trip : ∀ es, MtlbFile buf es → ∀ cap, es.length ≤ cap →
    ∃ out, metallibExtractFunctions buf cap = .ok (out, es.length) ∧
      List.Forall₂ (fun e r => e.fn.Extracted buf r) es out
  in_bounds : ∀ cap, metallibExtractFunctions buf cap ≠ .error .overrun
  stored : ∀ cap out n, metallibExtractFunctions buf cap = .ok (out, n) → out.length = min n cap
  slices : ∀ base es, metallibEntries buf = .ok (base, es) → ∀ f ∈ es, ∀ off len,
    resolveBitcode buf.length base f = some (off, len) →
      ∃ offt, f.offt = some offt ∧ off = base+offt ∧ base+offt+len ≤ buf.length
  by_name : ∀ r, metallibEntries buf = .ok r → shaderTranslateFind buf name =
    .ok (.ofOption ((tableFunctions buf.length r).find? fun f => cString f.name = name))
  by_stage : ∀ r, metallibEntries buf = .ok r → pipelineStateFind buf want =
    .ok ((tableFunctions buf.length r).find? fun f => f.stage = want)

/-- OFFT points so far past BC_BASE that the 64-bit sum comes back into the file. -/
def EntryFields.Wraps (bufLen base : Nat) (f : EntryFields) : Prop :=
  ∃ offt mdsz, f.offt = some offt ∧ f.mdsz = some mdsz ∧
    2^64 ≤ base+offt ∧ u64 (base+offt)+mdsz ≤ bufLen

/-- A search by name ends before it leaves an array of 32. -/
def NameInReach (name : List UInt8) (es : List EntryFields) : Prop :=
  es.length ≤ 32 ∨ ∃ f ∈ es.take 32, cString f.name = name

/-- A search by stage in the first 8 misses nothing. -/
def StageInReach (want : MetallibStage) (es : List EntryFields) : Prop :=
  (∃ f ∈ es.take 8, f.stage = want) ∨ ∀ f ∈ es, f.stage ≠ want

theorem extract_of_entries {buf : List UInt8} {r : Nat × List EntryFields}
    (h : metallibEntries buf = .ok r) (cap : Nat) :
    metallibExtractFunctions buf cap =
      .ok ((tableFunctions buf.length r).take cap, (tableFunctions buf.length r).length) := by
  rw [metallibExtractFunctions, h]
  rfl

theorem extract_round_trip {buf : List UInt8} {es : List MtlbEntry} (h : MtlbFile buf es)
    {cap : Nat} (hcap : es.length ≤ cap) :
    ∃ out, metallibExtractFunctions buf cap = .ok (out, es.length) ∧
      List.Forall₂ (fun e r => e.fn.Extracted buf r) es out := by
  obtain ⟨base, hents, hbc⟩ := metallibEntries_layout h
  refine ⟨_, by rw [extract_of_entries hents]; simp [tableFunctions]; rfl, ?_⟩
  rw [List.take_of_length_le (by simpa [tableFunctions] using hcap)]
  simp only [List.forall₂_map_right_iff]
  rw [List.forall₂_same]
  intro e he
  exact fieldsRead_extracted h.size_lt (hbc e he)

theorem extract_ne_overrun (buf : List UInt8) (cap : Nat) :
    metallibExtractFunctions buf cap ≠ .error .overrun := by
  have h := metallibEntries_ne_overrun buf
  rw [metallibExtractFunctions]
  cases hm : metallibEntries buf with
  | error e => simpa [hm, Except.map] using h
  | ok r => simp [Except.map]

theorem extract_stored {buf : List UInt8} {cap n : Nat} {out : List MetallibFunction}
    (h : metallibExtractFunctions buf cap = .ok (out, n)) : out.length = min n cap := by
  rw [metallibExtractFunctions] at h
  cases hm : metallibEntries buf with
  | error e => simp [hm, Except.map] at h
  | ok r =>
    simp only [hm, Except.map, Except.ok.injEq, Prod.mk.injEq] at h
    rw [← h.1, ← h.2, List.length_take, Nat.min_comm]

/-- The slice bound of one entry fails exactly when its offset wraps. -/
theorem resolveBitcode_bound_iff {bufLen base : Nat} (hb : bufLen < 2^64) (f : EntryFields) :
    (∀ off len, resolveBitcode bufLen base f = some (off, len) →
      ∃ offt, f.offt = some offt ∧ off = base+offt ∧ base+offt+len ≤ bufLen) ↔
      ¬ f.Wraps bufLen base := by
  constructor
  · rintro h ⟨offt, mdsz, ho, hm, hbig, hin⟩
    have hr : resolveBitcode bufLen base f = some (u64 (base+offt), mdsz) := by
      simp only [resolveBitcode, ho, hm]
      rw [if_pos (by omega)]
    obtain ⟨offt', ho', hoff, hle⟩ := h _ _ hr
    rw [ho, Option.some.injEq] at ho'
    omega
  · intro h off len hr
    cases ho : f.offt with
    | none => simp [resolveBitcode, ho] at hr
    | some offt =>
      cases hm : f.mdsz with
      | none => simp [resolveBitcode, ho, hm] at hr
      | some mdsz =>
        simp only [resolveBitcode, ho, hm] at hr
        split_ifs at hr with hin
        simp only [Option.some.injEq, Prod.mk.injEq] at hr
        have hlt : base+offt < 2^64 := by
          by_contra hbig
          exact h ⟨offt, mdsz, ho, hm, by omega, by omega⟩
        have hu : u64 (base+offt) = base+offt := Nat.mod_eq_of_lt hlt
        exact ⟨offt, rfl, by omega, by omega⟩

/-- The loop runs off the array when nothing stored matches and the count is larger. -/
theorem scanByName_eq (funcs : List MetallibFunction) (name : List UInt8) (n i : Nat)
    (hi : i ≤ funcs.length) : scanByName funcs name n i =
      match ((funcs.drop i).take n).find? (fun f => cString f.name = name) with
      | some f => .found f
      | none => if funcs.length < i+n then .pastArray else .notFound := by
  induction n generalizing i with
  | zero => simp [scanByName]; omega
  | succ n ih =>
    rw [scanByName]
    by_cases hlt : i < funcs.length
    · rw [List.getElem?_eq_getElem hlt, List.drop_eq_getElem_cons hlt, List.take_succ_cons,
        List.find?_cons]
      by_cases hm : cString funcs[i].name = name
      · simp [hm]
      · simp only [hm, if_false, decide_false]
        rw [ih (i+1) hlt]
        simp only [Nat.add_assoc, Nat.add_comm 1 n]
    · have hdrop : funcs.drop i = [] := List.drop_eq_nil_of_le (by omega)
      rw [List.getElem?_eq_none (by omega), hdrop]
      simp
      omega

@[simp] theorem EntryFields.function_name (bufLen base : Nat) (f : EntryFields) :
    (f.function bufLen base).name = f.name := rfl

@[simp] theorem EntryFields.function_stage (bufLen base : Nat) (f : EntryFields) :
    (f.function bufLen base).stage = f.stage := rfl

theorem find?_take_some {α : Type} {p : α → Bool} {l : List α} {n : Nat} {a : α}
    (h : (l.take n).find? p = some a) : l.find? p = some a := by
  rw [← List.take_append_drop n l, List.find?_append, h]
  rfl

theorem shaderTranslateFind_iff {buf name : List UInt8} {r : Nat × List EntryFields}
    (h : metallibEntries buf = .ok r) :
    shaderTranslateFind buf name =
      .ok (.ofOption ((tableFunctions buf.length r).find? fun f => cString f.name = name)) ↔
      NameInReach name r.2 := by
  have hlen : (tableFunctions buf.length r).length = r.2.length := by simp [tableFunctions]
  have hfind : (((tableFunctions buf.length r).take 32).find? fun f => cString f.name = name) = none ↔
      ¬ ∃ f ∈ r.2.take 32, cString f.name = name := by
    simp only [List.find?_eq_none, decide_eq_true_eq]
    simp [tableFunctions, ← List.map_take]
  rw [shaderTranslateFind, extract_of_entries h, NameInReach]
  simp only [Except.map, Except.ok.injEq]
  rw [scanByName_eq _ _ _ _ (Nat.zero_le _), List.drop_zero, List.take_of_length_le (by simp)]
  cases hm : ((tableFunctions buf.length r).take 32).find? fun f => cString f.name = name with
  | some f =>
    have hsome : ∃ f ∈ r.2.take 32, cString f.name = name := by
      by_contra hno
      rw [hfind.mpr hno] at hm
      cases hm
    simp [find?_take_some hm, FunctionLookup.ofOption, hsome]
  | none =>
    have hno := hfind.mp hm
    by_cases hle : r.2.length ≤ 32
    · have hall : (tableFunctions buf.length r).take 32 = tableFunctions buf.length r :=
        List.take_of_length_le (by omega)
      rw [hall] at hm
      simp [hm, FunctionLookup.ofOption, hle, hlen]
    · cases (tableFunctions buf.length r).find? fun f => cString f.name = name <;>
        simp [FunctionLookup.ofOption, hle, hno, hlen]

theorem pipelineStateFind_iff {buf : List UInt8} {want : MetallibStage}
    {r : Nat × List EntryFields} (h : metallibEntries buf = .ok r) :
    pipelineStateFind buf want =
      .ok ((tableFunctions buf.length r).find? fun f => f.stage = want) ↔
      StageInReach want r.2 := by
  have hcut : ((tableFunctions buf.length r).take 8).take
      (min (tableFunctions buf.length r).length 8) = (tableFunctions buf.length r).take 8 :=
    List.take_of_length_le (by simp)
  rw [pipelineStateFind, extract_of_entries h]
  simp only [Except.map, Except.ok.injEq, hcut]
  cases hm : ((tableFunctions buf.length r).take 8).find? fun f => f.stage = want with
  | some f =>
    have hmem := List.mem_of_find?_eq_some hm
    have hst : f.stage = want := by simpa using List.find?_some hm
    simp only [tableFunctions, ← List.map_take, List.mem_map] at hmem
    obtain ⟨e, he, rfl⟩ := hmem
    have hreach : StageInReach want r.2 := Or.inl ⟨e, he, hst⟩
    simp [find?_take_some hm, hreach]
  | none =>
    have hno : ¬ ∃ f ∈ r.2.take 8, f.stage = want := by
      simp only [List.find?_eq_none, decide_eq_true_eq] at hm
      simpa [tableFunctions, ← List.map_take] using hm
    rw [eq_comm, List.find?_eq_none]
    simp only [decide_eq_true_eq]
    simp [tableFunctions, StageInReach, hno]

/-- Extraction inverts the container on every file, and reads and stores only where it
may. Slices and searches are sound exactly when no offset wraps and the searched
function stands in the part of the table the caller's array holds. -/
theorem metallib_extract_sound_iff (buf name : List UInt8) (want : MetallibStage)
    (hb : buf.length < 2^64) :
    ExtractSound buf name want ↔ ∀ base es, metallibEntries buf = .ok (base, es) →
      (∀ f ∈ es, ¬ f.Wraps buf.length base) ∧ NameInReach name es ∧ StageInReach want es := by
  constructor
  · intro h base es hes
    refine ⟨fun f hf => ?_, ?_, ?_⟩
    · exact (resolveBitcode_bound_iff hb f).mp (h.slices base es hes f hf)
    · exact (shaderTranslateFind_iff hes).mp (h.by_name _ hes)
    · exact (pipelineStateFind_iff hes).mp (h.by_stage _ hes)
  · intro h
    refine ⟨fun es hf cap hcap => extract_round_trip hf hcap, extract_ne_overrun buf,
      fun cap out n => extract_stored, ?_, ?_, ?_⟩
    · intro base es hes f hf
      exact (resolveBitcode_bound_iff hb f).mpr ((h base es hes).1 f hf)
    · rintro ⟨base, es⟩ hes
      exact (shaderTranslateFind_iff hes).mpr (h base es hes).2.1
    · rintro ⟨base, es⟩ hes
      exact (pipelineStateFind_iff hes).mpr (h base es hes).2.2

/- A header with its FET after the BC_BASE field, and the table behind it. -/
def mtlbFile (bcBase : Nat) (table : List UInt8) : List UInt8 :=
  tagMtlb ++ List.replicate 0x14 0 ++ putLe 8 0x50 ++ List.replicate 0x28 0 ++
    putLe 8 bcBase ++ table

/-- One vertex function `f` with its tags out of order and a HASH between them. -/
def vertexEntry : MtlbEntry where
  fn := ⟨[0x66], 0, [0xde, 0xc0]⟩
  offt := 4
  fields := [⟨tagMdsz, putLe 8 2⟩, ⟨[0x48, 0x41, 0x53, 0x48], [7]⟩, ⟨tagName, [0x66, 0]⟩,
    ⟨tagOfft, List.replicate 16 0 ++ putLe 8 4⟩, ⟨tagType, [0]⟩]
  tail := []

def vertexFile : List UInt8 :=
  mtlbFile 0x9e (putLe 4 1 ++ entriesBytes [vertexEntry] ++ [0, 0, 0, 0, 0xde, 0xc0])

theorem vertexFile_entries :
    metallibEntries vertexFile = .ok (0x9e, [vertexEntry.fieldsRead]) := by
  decide +kernel

theorem vertexEntry_lays : vertexEntry.Lays where
  name_lt := by decide
  name_text := by decide
  offt_lt := by decide
  size_lt := by decide
  framed := by
    intro d hd
    simp only [vertexEntry, List.mem_cons, List.not_mem_nil, or_false] at hd
    obtain rfl | rfl | rfl | rfl | rfl := hd <;>
      exact ⟨by decide, by decide, by decide⟩
  order := by
    refine ⟨[0], [], List.replicate 16 0, [⟨[0x48, 0x41, 0x53, 0x48], [7]⟩], Or.inr rfl, rfl, ?_, ?_⟩
    · intro d hd
      rw [List.mem_singleton.mp hd]
      exact ⟨by decide, by decide, by decide, by decide⟩
    · decide

theorem metallib_extract_sound_vertex : MtlbFile vertexFile [vertexEntry] ∧
    ExtractSound vertexFile [0x66] .vertex := by
  constructor
  · refine ⟨by decide, by decide +kernel, by decide +kernel, ?_,
      ⟨0x50, by decide, by decide +kernel, by decide +kernel⟩,
      ⟨0x9e, Or.inr ⟨by decide, by decide +kernel⟩, ?_⟩⟩
    · intro e he
      rw [List.mem_singleton.mp he]
      exact vertexEntry_lays
    · intro e he
      rw [List.mem_singleton.mp he]
      decide +kernel
  · refine (metallib_extract_sound_iff vertexFile [0x66] .vertex (by decide +kernel)).mpr ?_
    intro base es hes
    rw [vertexFile_entries] at hes
    obtain ⟨rfl, rfl⟩ := Prod.mk.inj (Except.ok.inj hes)
    refine ⟨?_, Or.inl (by decide), Or.inl ⟨_, List.mem_singleton_self _, rfl⟩⟩
    intro f hf
    rw [List.mem_singleton.mp hf]
    rintro ⟨offt, mdsz, ho, -, hbig, -⟩
    obtain rfl := Option.some.inj ho
    exact absurd hbig (by decide)

/-- An entry of nothing but ENDT. -/
def bareEntry : MtlbEntry := ⟨⟨[], 0, []⟩, 0, [], []⟩

/-- An entry whose OFFT leads from BC_BASE 0x50 back to the first byte of the file. -/
def wrappedEntry : MtlbEntry where
  fn := ⟨[], 0, []⟩
  offt := 2^64-0x50
  fields := [⟨tagOfft, putLe 8 (2^64-0x50)⟩, ⟨tagMdsz, putLe 8 4⟩]
  tail := []

def crowdedFile : List UInt8 :=
  mtlbFile 0 (putLe 4 33 ++ entriesBytes (List.replicate 33 bareEntry))

def wrappedFile : List UInt8 :=
  mtlbFile 0x50 (putLe 4 1 ++ entriesBytes [wrappedEntry])

theorem crowdedFile_past_array : shaderTranslateFind crowdedFile [0x66] = .ok .pastArray := by
  decide +kernel

theorem wrappedFile_slice :
    (metallibEntries wrappedFile).map (fun r => (r.1, r.2.map (resolveBitcode wrappedFile.length r.1))) =
      .ok (0x50, [some (0, 4)]) := by
  decide +kernel

/-- A search by name leaves `funcs[32]` in a table of 33, and a slice starts before
BC_BASE. -/
theorem metallib_extract_unsound :
    ¬ ExtractSound crowdedFile [0x66] .vertex ∧ ¬ ExtractSound wrappedFile [0x66] .vertex := by
  constructor
  · intro h
    cases hm : metallibEntries crowdedFile with
    | error e =>
      have hp := crowdedFile_past_array
      simp [shaderTranslateFind, metallibExtractFunctions, hm, Except.map] at hp
    | ok r =>
      have hr := h.by_name r hm
      rw [crowdedFile_past_array] at hr
      cases hf : (tableFunctions crowdedFile.length r).find? fun f => cString f.name = [0x66] <;>
        simp [hf, FunctionLookup.ofOption] at hr
  · intro h
    have hs := wrappedFile_slice
    cases hm : metallibEntries wrappedFile with
    | error e => simp [hm, Except.map] at hs
    | ok r =>
      obtain ⟨base, es⟩ := r
      simp only [hm, Except.map, Except.ok.injEq, Prod.mk.injEq] at hs
      obtain ⟨rfl, hs⟩ := hs
      obtain ⟨f, rfl, hf⟩ := List.map_eq_singleton_iff.mp hs
      obtain ⟨offt, -, hoff, -⟩ := h.slices _ _ hm f (by simp) 0 4 hf
      omega

end Lagfx
