import Lagfx.State

/-! The MTLB container: the header, the function-entry table with its tagged
fields, and the two callers that look a function up in what was extracted. Every
read goes through `rdBytes`, which faults outside the buffer. -/
namespace Lagfx
open ByteMemory

inductive MetallibError where
  | invalidArg
  | overrun
deriving DecidableEq, Repr

inductive MetallibStage where
  | unknown
  | vertex
  | fragment
  | kernel
deriving DecidableEq, Repr

/-- `bitcode` is the offset and length of the slice, `none` for NULL. -/
structure MetallibFunction where
  name : List UInt8
  stage : MetallibStage
  stageRaw : Nat
  bitcode : Option (Nat × Nat)
deriving DecidableEq, Repr

def tagMtlb : List UInt8 := [0x4d, 0x54, 0x4c, 0x42]
def tagEndt : List UInt8 := [0x45, 0x4e, 0x44, 0x54]
def tagName : List UInt8 := [0x4e, 0x41, 0x4d, 0x45]
def tagType : List UInt8 := [0x54, 0x59, 0x50, 0x45]
def tagOfft : List UInt8 := [0x4f, 0x46, 0x46, 0x54]
def tagMdsz : List UInt8 := [0x4d, 0x44, 0x53, 0x5a]

def metallibNameBytes : Nat := 128
def metallibMaxEntries : Nat := 1024

def rdBytes (buf : List UInt8) (off n : Nat) : Except MetallibError (List UInt8) :=
  if off+n ≤ buf.length then .ok (window buf off n) else .error .overrun

def rdLe (buf : List UInt8) (off n : Nat) : Except MetallibError Nat :=
  (rdBytes buf off n).map leNat

/- What an entry has said so far. `offt` and `mdsz` are bc_offt_rel and bc_mdsz
   once their tags have been seen. -/
structure EntryFields where
  name : List UInt8 := []
  stage : MetallibStage := .unknown
  stageRaw : Nat := 0
  offt : Option Nat := none
  mdsz : Option Nat := none
deriving DecidableEq, Repr

/-- The name without the payload's trailing NUL, cut to the record's field. -/
def nameField (fdata : List UInt8) : List UInt8 :=
  let n := if fdata.getLast? = some 0 then fdata.length-1 else fdata.length
  fdata.take (if metallibNameBytes ≤ n then metallibNameBytes-1 else n)

def stageOfRaw (raw : Nat) : MetallibStage :=
  if raw = 0 then .vertex
  else if raw = 1 then .fragment
  else if raw = 2 then .kernel
  else .unknown

/-- A tag the extractor does not use, or with too short a payload, is skipped. -/
def readField (tag fdata : List UInt8) (f : EntryFields) : EntryFields :=
  if tag = tagName then { f with name := nameField fdata }
  else if tag = tagType ∧ 1 ≤ fdata.length then
    { f with stageRaw := byteAt fdata 0, stage := stageOfRaw (byteAt fdata 0) }
  else if tag = tagOfft then
    { f with offt := some (if 24 ≤ fdata.length then le64 fdata 16
        else if 8 ≤ fdata.length then le64 fdata 0 else 0) }
  else if tag = tagMdsz ∧ 8 ≤ fdata.length then { f with mdsz := some (le64 fdata 0) }
  else f

/-- The tagged fields of one entry, up to ENDT. -/
def walkTags (buf : List UInt8) (bodyEnd bp : Nat) (f : EntryFields) :
    Except MetallibError EntryFields :=
  if _h : bodyEnd < bp+4 then .error .invalidArg
  else
    match rdBytes buf bp 4 with
    | .error e => .error e
    | .ok tag =>
      if tag = tagEndt then .ok f
      else if bodyEnd < bp+6 then .error .invalidArg
      else
        match rdLe buf (bp+4) 2 with
        | .error e => .error e
        | .ok flen =>
          if bodyEnd-(bp+6) < flen then .error .invalidArg
          else
            match rdBytes buf (bp+6) flen with
            | .error e => .error e
            | .ok fdata => walkTags buf bodyEnd (bp+6+flen) (readField tag fdata f)
termination_by bodyEnd-bp

/-- `n` entries from `pos` on; the size prefix of each is authoritative. -/
def walkEntries (buf : List UInt8) : Nat → Nat → Except MetallibError (List EntryFields)
  | 0, _ => .ok []
  | n+1, pos =>
    if buf.length < pos+8 then .error .invalidArg
    else
      match rdLe buf pos 4 with
      | .error e => .error e
      | .ok entrySize =>
        if entrySize < 8 ∨ buf.length-pos < entrySize then .error .invalidArg
        else
          match walkTags buf (pos+entrySize) (pos+4) {} with
          | .error e => .error e
          | .ok f => (walkEntries buf n (pos+entrySize)).map (f::·)

/-- BC_BASE, 0 where the header is too short for it or it is out of the file. -/
def metallibBcBase (buf : List UInt8) : Except MetallibError Nat :=
  if buf.length < 0x50 then .ok 0
  else (rdLe buf 0x48 8).map fun base => if base ≠ 0 ∧ buf.length ≤ base then 0 else base

/-- The header and the entries it leads to, with BC_BASE. -/
def metallibEntries (buf : List UInt8) : Except MetallibError (Nat × List EntryFields) :=
  if buf.length < 0x20 then .error .invalidArg
  else do
    let magic ← rdBytes buf 0 4
    if magic ≠ tagMtlb then .error .invalidArg
    else
      let fetOff ← rdLe buf 0x18 8
      if fetOff = 0 ∨ buf.length ≤ fetOff then .error .invalidArg
      else
        let bcBase ← metallibBcBase buf
        if buf.length < fetOff+4 then .error .invalidArg
        else
          let entryCount ← rdLe buf fetOff 4
          if metallibMaxEntries < entryCount then .error .invalidArg
          else
            let es ← walkEntries buf entryCount (fetOff+4)
            .ok (bcBase, es)

/- The bitcode slice. The sum is of 64-bit words, and wraps. -/
def resolveBitcode (bufLen bcBase : Nat) (f : EntryFields) : Option (Nat × Nat) :=
  match f.offt, f.mdsz with
  | some offt, some mdsz =>
    let absOff := u64 (bcBase+offt)
    if absOff ≤ bufLen ∧ mdsz ≤ bufLen-absOff then some (absOff, mdsz) else none
  | _, _ => none

def EntryFields.function (bufLen bcBase : Nat) (f : EntryFields) : MetallibFunction where
  name := f.name
  stage := f.stage
  stageRaw := f.stageRaw
  bitcode := resolveBitcode bufLen bcBase f

/-- The records stored in an array of `outCapacity`, and `*out_count`. -/
def metallibExtractFunctions (buf : List UInt8) (outCapacity : Nat) :
    Except MetallibError (List MetallibFunction × Nat) :=
  (metallibEntries buf).map fun r =>
    let funcs := r.2.map (EntryFields.function buf.length r.1)
    (funcs.take outCapacity, funcs.length)

/-- A char array read as a C string. -/
def cString (bs : List UInt8) : List UInt8 := bs.takeWhile (· ≠ 0)

/-- What a search of the caller's array ends with. -/
inductive FunctionLookup where
  | found (f : MetallibFunction)
  | notFound
  | pastArray
deriving DecidableEq, Repr

/-- The loop up to the count that was reported, not the records stored. -/
def scanByName (funcs : List MetallibFunction) (name : List UInt8) : Nat → Nat → FunctionLookup
  | 0, _ => .notFound
  | n+1, i =>
    match funcs[i]? with
    | none => .pastArray
    | some f => if cString f.name = name then .found f else scanByName funcs name n (i+1)

/-- The search of `lagfx_shader_translate_run`, over `funcs[32]`. -/
def shaderTranslateFind (buf name : List UInt8) : Except MetallibError FunctionLookup :=
  (metallibExtractFunctions buf 32).map fun r => scanByName r.1 name r.2 0

/-- The search of SetRenderPipelineState in one metallib, over `tmpf[8]`. -/
def pipelineStateFind (buf : List UInt8) (want : MetallibStage) :
    Except MetallibError (Option MetallibFunction) :=
  (metallibExtractFunctions buf 8).map fun r =>
    (r.1.take (min r.2 8)).find? fun f => f.stage = want

theorem rdBytes_of_le {buf : List UInt8} {off n : Nat} (h : off+n ≤ buf.length) :
    rdBytes buf off n = .ok (window buf off n) := by
  rw [rdBytes, if_pos h]

theorem rdLe_of_le {buf : List UInt8} {off n : Nat} (h : off+n ≤ buf.length) :
    rdLe buf off n = .ok (leNat (window buf off n)) := by
  rw [rdLe, rdBytes_of_le h]
  rfl

/-- Inside the entry every tag and payload read is inside the buffer. -/
theorem walkTags_ne_overrun {buf : List UInt8} {bodyEnd : Nat} (hb : bodyEnd ≤ buf.length)
    (bp : Nat) (f : EntryFields) : walkTags buf bodyEnd bp f ≠ .error .overrun := by
  fun_induction walkTags buf bodyEnd bp f with
  | case1 bp f h => simp
  | case2 bp f h e he =>
    rw [rdBytes_of_le (by omega)] at he
    cases he
  | case3 bp f h ht => simp
  | case4 bp f h tag ht htag hlen => simp
  | case5 bp f h tag ht htag hlen e he =>
    rw [rdLe_of_le (by omega)] at he
    cases he
  | case6 bp f h tag ht htag hlen flen hf hover => simp
  | case7 bp f h tag ht htag hlen flen hf hover e he =>
    rw [rdBytes_of_le (by omega)] at he
    cases he
  | case8 bp f h tag ht htag hlen flen hf hover fdata hfd ih => exact ih

theorem walkEntries_ne_overrun (buf : List UInt8) (n pos : Nat) :
    walkEntries buf n pos ≠ .error .overrun := by
  fun_induction walkEntries buf n pos with
  | case1 pos => simp
  | case2 n pos h => simp
  | case3 n pos h e he =>
    rw [rdLe_of_le (by omega)] at he
    cases he
  | case4 n pos h entrySize hs hbad => simp
  | case5 n pos h entrySize hs hbad e he =>
    have hne := walkTags_ne_overrun (show pos+entrySize ≤ buf.length by omega) (pos+4) {}
    simpa [he] using hne
  | case6 n pos h entrySize hs hbad f hf ih =>
    cases hw : walkEntries buf n (pos+entrySize) with
    | error e =>
      rw [hw] at ih
      simpa [Except.map] using ih
    | ok es => simp [Except.map]

theorem metallibBcBase_ok (buf : List UInt8) : ∃ base, metallibBcBase buf = .ok base := by
  rw [metallibBcBase]
  by_cases h : buf.length < 0x50
  · exact ⟨0, if_pos h⟩
  · rw [if_neg h, rdLe_of_le (by omega)]
    exact ⟨_, rfl⟩

/-- The extractor reads only inside the buffer, whatever the bytes are. -/
theorem metallibEntries_ne_overrun (buf : List UInt8) :
    metallibEntries buf ≠ .error .overrun := by
  rw [metallibEntries]
  by_cases h0 : buf.length < 0x20
  · simp [h0]
  obtain ⟨base, hbase⟩ := metallibBcBase_ok buf
  rw [if_neg h0, rdBytes_of_le (by omega), rdLe_of_le (by omega), hbase]
  simp only [bind, Except.bind]
  split_ifs with h1 h2 h3
  · simp
  · simp
  · simp
  rw [rdLe_of_le (by omega)]
  simp only
  split_ifs with h4
  · simp
  cases hw : walkEntries buf (leNat (window buf (leNat (window buf 0x18 8)) 4))
      (leNat (window buf 0x18 8)+4) with
  | error e => 
    have := walkEntries_ne_overrun buf (leNat (window buf (leNat (window buf 0x18 8)) 4))
      (leNat (window buf 0x18 8)+4)
    rw [hw] at this
    simpa using this
  | ok es => simp

end Lagfx
