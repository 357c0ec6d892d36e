import Lagfx.BitcodeArena
import Lagfx.BitcodeCursor
import Lagfx.Lib.Machine

/-! `lagfx_air_module_open`: the wrapper, the walks over the root, the MODULE block and its
sub-blocks as one machine that steps once an iteration, and what is done after them. -/
namespace Lagfx
open ByteMemory Bits

/- The walks over the sub-blocks, each with what it keeps between two records. -/

inductive Handled (α : Type) where
  | go (m : AirModule) (w : α)
  | leave (m : AirModule) (w : α)
  | oom

def Handled.map {α β : Type} (f : α → β) : Handled α → Handled β
  | .go m w => .go m (f w)
  | .leave m w => .leave m (f w)
  | .oom => .oom

def maxConsts : Nat := 4096
def maxTypes : Nat := 4096
def maxMdStrings : Nat := 4096
def maxMdRecords : Nat := 4096
def maxGroups : Nat := 64
def maxSymtab : Nat := 4096

/- `ptr` is the cached pointer to the table, `off` its offset. -/
structure ConstantsWalk where
  off : Nat
  ptr : Ptr
  entries : List AirConstant
  currentType : Nat

structure MetadataWalk where
  stringsOff : Nat
  recordsOff : Nat
  strings : List Nat
  records : List AirMetadata
  pendingName : Nat

structure GroupsWalk where
  off : Nat
  ptr : Ptr
  entries : List ParamAttrGroup

structure TypesWalk where
  off : Nat
  ptr : Ptr
  entries : List AirType
  pendingName : Nat

structure SymtabWalk where
  ptr : Ptr
  num : Nat

/-- Signed VBR: the low bit is the sign. -/
def signedVbr (raw : Nat) : Int := if raw % 2 = 1 then -((raw/2 : Nat) : Int) else (raw/2 : Nat)

/-- The payload a constant record stores inline, from a zeroed one. -/
def inlinePayload (kind : AirConstKind) (r : BsRecord) : ConstPayload :=
  match kind, r.ops with
  | .integer, raw::_ => .i64 (signedVbr raw)
  | .float, bits::_ => .f64 bits
  | _, _ => .bytes 0 0

def ConstantsWalk.push (w : ConstantsWalk) (kind : AirConstKind) (p : ConstPayload) :
    ConstantsWalk :=
  { w with entries := w.entries ++ [⟨kind, w.currentType, p⟩] }

/-- A payload in the arena; afterwards the table pointer is taken again. -/
def ConstantsWalk.pushBytes (w : ConstantsWalk) (kind : AirConstKind) (off len : Nat)
    (m : AirModule) : Handled ConstantsWalk :=
  let ptr := m.arena.ptr w.off
  .go (m.store ptr) { w.push kind (.bytes off len) with ptr := ptr }

def constantsRecord (env : ReaderEnv) (m : AirModule) (w : ConstantsWalk) (r : BsRecord) :
    Handled ConstantsWalk :=
  if maxConsts ≤ w.entries.length then .leave m w
  else if r.code = 1 then
    match r.ops with
    | [] => .go m w
    | op::_ => .go m { w with currentType := u32 op }
  else
    let m := m.store w.ptr
    match r.code with
    | 2 => .go m (w.push .null (inlinePayload .null r))
    | 3 => .go m (w.push .undef (inlinePayload .undef r))
    | 4 => .go m (w.push .integer (inlinePayload .integer r))
    | 6 => .go m (w.push .float (inlinePayload .float r))
    | 8 | 9 =>
      let s := arenaInternString env m r.ops
      if s.1 = 0 then .oom else w.pushBytes .string s.1 r.ops.length s.2
    | 22 =>
      let s := arenaInternU32Array env m r.ops
      w.pushBytes .data s.1 (4*r.ops.length) s.2
    | 7 =>
      let s := arenaInternU32Array env m r.ops
      w.pushBytes .aggregate s.1 (4*r.ops.length) s.2
    | _ => .go m (w.push .unknown (inlinePayload .unknown r))

/-- One size of the packed table of METADATA_STRINGS, VBR6 chunks from bit `bit` on;
every chunk takes six bits of `st`. -/
def mdStringSize (st : List UInt8) : Nat → Nat → Nat → Nat → Option (Nat × Nat)
  | 0, _, _, _ => none
  | fuel+1, v, shift, bit =>
    match readBits st 6 bit with
    | none => none
    | some (chunk, bit) =>
      let v := v ||| u32 ((chunk%32) <<< shift)
      if chunk < 32 then some (v, bit) else mdStringSize st fuel v (shift+5) bit

/-- The batch of METADATA_STRINGS: sizes from `st`, bytes from `sd`; `none` is a failed
reservation, anything else that is wrong ends the batch. -/
def mdStrings (env : ReaderEnv) (st : List UInt8) :
    Nat → AirModule → List Nat → List UInt8 → Nat → Option (AirModule × List Nat)
  | 0, m, strings, _, _ => some (m, strings)
  | n+1, m, strings, sd, bit =>
    if maxMdStrings ≤ strings.length then some (m, strings)
    else match mdStringSize st (2*st.length+1) 0 0 bit with
      | none => some (m, strings)
      | some (slen, bit) =>
        if sd.length < slen then some (m, strings)
        else
          let s := m.intern env (slen+1) (.bytes (sd.take slen ++ [0]))
          if s.1 = 0 then none else mdStrings env st n s.2 (strings ++ [s.1]) (sd.drop slen) bit

def metadataStringsRecord (env : ReaderEnv) (m : AirModule) (w : MetadataWalk) (r : BsRecord) :
    Handled MetadataWalk :=
  match r.ops, r.blob with
  | batch::size::_, some blob =>
    if blob = [] ∨ blob.length < u32 size then .go m w
    else if env.grants m.arena.calls = false then .oom
    else
      match mdStrings env (blob.take (u32 size)) (u32 batch) m.called w.strings
        (blob.drop (u32 size)) 0 with
      | none => .oom
      | some (m, strings) => .go m { w with strings := strings }
  | _, _ => .go m w

/-- A record kept with its operands, which point at the arena as it is now. -/
def metadataNode (env : ReaderEnv) (m : AirModule) (w : MetadataWalk) (kind : AirMdKind)
    (name pending : Nat) (r : BsRecord) : Handled MetadataWalk :=
  if maxMdRecords ≤ w.records.length then .go m w
  else if r.ops = [] then
    .go m { w with records := w.records ++ [⟨kind, name, none, 0⟩], pendingName := pending }
  else
    let s := arenaInternU32Array env m r.ops
    if s.1 = 0 then .oom
    else .go s.2 { w with
      records := w.records ++ [⟨kind, name, some (s.2.arena.ptr s.1), r.ops.length⟩]
      pendingName := pending }

def metadataRecord (env : ReaderEnv) (m : AirModule) (w : MetadataWalk) (r : BsRecord) :
    Handled MetadataWalk :=
  match r.code with
  | 35 => metadataStringsRecord env m w r
  | 1 =>
    if maxMdStrings ≤ w.strings.length then .go m w
    else
      let s := arenaInternString env m r.ops
      if s.1 = 0 then .oom else .go s.2 { w with strings := w.strings ++ [s.1] }
  | 4 =>
    let s := arenaInternString env m r.ops
    if s.1 = 0 then .oom else .go s.2 { w with pendingName := s.1 }
  | 2 => metadataNode env m w .value 0 w.pendingName r
  | 3 | 5 | 8 => metadataNode env m w .node 0 w.pendingName r
  | 10 => metadataNode env m w .namedNode w.pendingName 0 r
  | 38 | 39 => .go m w
  | _ => metadataNode env m w .unknown 0 w.pendingName r

def groupsRecord (env : ReaderEnv) (m : AirModule) (w : GroupsWalk) (r : BsRecord) :
    Handled GroupsWalk :=
  if maxGroups ≤ w.entries.length then .leave m w
  else
    let s := arenaInternU32Array env m r.ops
    let ptr := s.2.arena.ptr w.off
    let group : ParamAttrGroup :=
      ⟨u32 (r.ops.headD 0), ptrUnlessZero s.2.arena s.1, r.ops.length, s.1⟩
    .go (s.2.store ptr) { w with ptr := ptr, entries := w.entries ++ [group] }

/-- `kind_map` and the cases without operands. -/
def typeKind (code : Nat) : AirTypeKind :=
  match code with
  | 2 => .void
  | 3 => .float
  | 4 => .double
  | 10 => .half
  | 5 => .label
  | 16 => .metadata
  | 7 => .integer
  | 8 => .pointer
  | 12 => .vector
  | 11 => .array
  | 21 => .function
  | 18 => .structAnon
  | 20 => .structNamed
  | _ => .unknown

def AirTypeKind.hasOps : AirTypeKind → Bool
  | .integer | .pointer | .vector | .array | .function | .structAnon | .structNamed => true
  | _ => false

def typesRecord (env : ReaderEnv) (m : AirModule) (w : TypesWalk) (r : BsRecord) :
    Handled TypesWalk :=
  if r.code = 1 then .go m w
  else if maxTypes ≤ w.entries.length then .leave m w
  else
    let m := m.store w.ptr
    if r.code = 19 then
      let s := arenaInternString env m r.ops
      if s.1 = 0 then .oom
      else .go s.2 { w with ptr := s.2.arena.ptr w.off, pendingName := s.1 }
    else if (typeKind r.code).hasOps = true then
      let s := arenaInternU32Array env m r.ops
      if s.1 = 0 ∧ r.ops ≠ [] then .oom
      else
        let ptr := s.2.arena.ptr w.off
        let named := decide (r.code = 20)
        .go (s.2.store ptr) { w with
          ptr := ptr
          entries := w.entries ++ [⟨typeKind r.code, ptrUnlessZero s.2.arena s.1, r.ops.length,
            if named then w.pendingName else 0, s.1⟩]
          pendingName := if named then 0 else w.pendingName }
    else .go m { w with entries := w.entries ++ [⟨typeKind r.code, none, 0, 0, 0⟩] }

/-- The name of an entry; the entry itself is reached through the pointer cached before
the loop. -/
def symtabName (env : ReaderEnv) (m : AirModule) (w : SymtabWalk) (name : List Nat) :
    AirModule :=
  let s := arenaInternString env m name
  if s.1 = 0 then s.2 else s.2.store w.ptr

def symtabRecord (env : ReaderEnv) (m : AirModule) (w : SymtabWalk) (r : BsRecord) :
    Handled SymtabWalk :=
  if r.code = 2 then .go m w
  else if maxSymtab ≤ w.num then .leave m w
  else
    let m := m.store w.ptr
    let m := match r.code, r.ops with
      | 1, _::name => symtabName env m w name
      | 3, _::_::name => symtabName env m w name
      | _, _ => m
    .go m { w with num := w.num+1 }

def strtabRecord (env : ReaderEnv) (m : AirModule) (r : BsRecord) : Handled Unit :=
  match r.blob with
  | some (b::bs) =>
    let s := m.intern env (bs.length+1) (.bytes (b::bs))
    if s.1 = 0 then .oom
    else .go { s.2 with strtabOffset := s.1, strtabLen := bs.length+1 } ()
  | _ => .go m ()

inductive Inner where
  | strtab
  | blockinfo (target : Nat)
  | constants (w : ConstantsWalk)
  | passOver
  | metadata (w : MetadataWalk)
  | groups (w : GroupsWalk)
  | types (w : TypesWalk)
  | symtab (w : SymtabWalk)

/-- What an iteration of the walk does with a record. -/
def Inner.record (env : ReaderEnv) (m : AirModule) (r : BsRecord) : Inner → Handled Inner
  | .strtab => (strtabRecord env m r).map fun _ => .strtab
  | .blockinfo target => .go m (.blockinfo ((setTarget (some target) r).getD target))
  | .constants w => (constantsRecord env m w r).map .constants
  | .passOver => .go m .passOver
  | .metadata w => (metadataRecord env m w r).map .metadata
  | .groups w => (groupsRecord env m w r).map .groups
  | .types w => (typesRecord env m w r).map .types
  | .symtab w => (symtabRecord env m w r).map .symtab

/-- What it does with a DEFINE_ABBREV, which is the last of `abbrevs`. -/
def Inner.define (m : AirModule) (abbrevs : List Abbrev) : Inner → AirModule
  | .blockinfo target =>
    match abbrevs.getLast? with
    | none => m
    | some ab => { m with blockinfo := installAbbrev m.blockinfo (some target) ab }
  | _ => m

/-- What it does with a sub-block: `lagfx_block_skip`, but in VALUE_SYMTAB nothing. -/
def Inner.subblock (buf : List UInt8) (width pos : Nat) : Inner → Nat
  | .symtab _ => pos
  | _ => skipCursor buf width pos

/-- After the loop: the tables go to the module. -/
def Inner.close (m : AirModule) : Inner → AirModule
  | .constants w => { m with
      constantsPtr := some w.ptr, constantsOff := w.off, constants := w.entries }
  | .metadata w => { m with
      metadataStringsOffsetsArena := w.stringsOff, metadataRecordsArena := w.recordsOff
      metadataStringOffsets := w.strings, metadata := w.records }
  | .groups w => { m with groupsPtr := some w.ptr, groupsOff := w.off, groups := w.entries }
  | .types w => { m with typesPtr := some w.ptr, typesOff := w.off, types := w.entries }
  | .symtab w => { m with symtabPtr := some w.ptr, numSymtab := w.num }
  | _ => m

/-- After the loop the cursor goes to the end of the block, but for BLOCKINFO. -/
def Inner.closeCursor (buf : List UInt8) (endPos pos : Nat) : Inner → Nat
  | .blockinfo _ => pos
  | _ => seekCursor buf endPos pos

/- The machine. -/

inductive OpenStatus where
  | invalidArg
  | protocol
  | outOfMemory
deriving DecidableEq, Repr

structure ModuleWalk where
  blk : BsBlock
  nextBodyFn : Nat

structure SubWalk where
  blk : BsBlock
  inner : Inner

/-- A loop head: of the innermost of the MODULE loop and the loop of a sub-block, which
is in MODULE or is STRTAB at the root; of the root loop when there is neither. -/
structure Reader where
  m : AirModule
  pos : Nat
  module : Option ModuleWalk
  sub : Option SubWalk

/- The root walk is over, or the reader gives up. -/
inductive Walked where
  | finished (m : AirModule)
  | error (st : OpenStatus)

abbrev ReaderStep := Reader ⊕ Walked

def subStep (env : ReaderEnv) (buf : List UInt8) (s : Reader) (w : SubWalk) : ReaderStep :=
  let leave (m : AirModule) (pos : Nat) (inner : Inner) : ReaderStep :=
    .inl ⟨inner.close m, inner.closeCursor buf w.blk.endPos pos, s.module, none⟩
  let stay (m : AirModule) (pos : Nat) (blk : BsBlock) (inner : Inner) : ReaderStep :=
    .inl ⟨m, pos, s.module, some ⟨blk, inner⟩⟩
  if w.blk.endPos ≤ s.pos then leave s.m s.pos w.inner
  else match blockNextRecord buf w.blk s.pos with
    | none => leave s.m (nextRecordStop buf w.blk s.pos) w.inner
    | some (.stop, _, pos) => leave s.m pos w.inner
    | some (.subblock _, blk, pos) =>
      stay s.m (w.inner.subblock buf blk.abbrevWidth pos) blk w.inner
    | some (.define, blk, pos) => stay (w.inner.define s.m blk.abbrevs) pos blk w.inner
    | some (.record r, blk, pos) =>
      match w.inner.record env s.m r with
      | .go m inner => stay m pos blk inner
      | .leave m inner => leave m pos inner
      | .oom => .inr (.error .outOfMemory)

def hasStrtab : Bool := true

/-- A STRTAB-bearing record has two operands more in front. -/
def offOff : Nat := if hasStrtab then 2 else 0

/-- MODULE_CODE_FUNCTION: the name is an offset into STRTAB as yet. -/
def recordFunction (ops : List Nat) : AirFunction where
  nameOffset := if hasStrtab then u32 (ops.getD 0 0) else 0
  nameLength := if hasStrtab then u32 (ops.getD 1 0) else 0
  typeIndex := u32 (ops.getD offOff 0)
  isProto := decide (ops.getD (offOff+2) 0 ≠ 0)
  linkage := u32 (ops.getD (offOff+3) 0)
  paramAttrIndex := u32 (ops.getD (offOff+4) 0)
  visibility := u32 (ops.getD (offOff+7) 0)
  bodyOffset := 0
  bodyLength := 0

def functionRecord (env : ReaderEnv) (m : AirModule) (ops : List Nat) : Option AirModule :=
  if ops.length < offOff+3 then some m
  else
    let s := m.intern env sizeofAirFunction (.function (recordFunction ops))
    if s.1 = 0 then none
    else if s.2.numFunctions = 0 then
      some { s.2 with
        functionsPtr := some (s.2.arena.ptr s.1), functionsOff := s.1, numFunctions := 1 }
    else some { s.2 with numFunctions := s.2.numFunctions+1 }

def moduleRecord (env : ReaderEnv) (m : AirModule) (r : BsRecord) : Option AirModule :=
  match r.code with
  | 2 =>
    let s := arenaInternString env m r.ops
    if s.1 = 0 then none else some { s.2 with tripleOffset := s.1 }
  | 3 =>
    let s := arenaInternString env m r.ops
    if s.1 = 0 then none else some { s.2 with datalayoutOffset := s.1 }
  | 16 =>
    let s := arenaInternString env m r.ops
    if s.1 = 0 then none else some { s.2 with sourceFilenameOffset := s.1 }
  | 8 => functionRecord env m r.ops
  | 7 => some { m with numGlobalvars := m.numGlobalvars+1 }
  | _ => some m

/-- `next_body_fn` past the prototypes, at most `fuel` of them. -/
def skipProtos (env : ReaderEnv) (m : AirModule) : Nat → Nat → Nat
  | 0, next => next
  | fuel+1, next =>
    if next < m.numFunctions ∧ (m.loadFunction env next).isProto = true
    then skipProtos env m fuel (next+1) else next

/-- A FUNCTION_BLOCK at bits `start` to `stop` goes to the next function with a body. -/
def attachBody (env : ReaderEnv) (m : AirModule) (next start stop : Nat) : AirModule × Nat :=
  let m := deriveTablePtrs m
  let next := skipProtos env m m.numFunctions next
  if next < m.numFunctions then
    (m.storeFunction next fun f => { f with bodyOffset := start, bodyLength := stop-start },
      next+1)
  else (m, next)

/-- The loop state a known sub-block is entered with, after its reservations. -/
def openInner (env : ReaderEnv) (m : AirModule) (id : Nat) : Option (AirModule × Inner) :=
  match id with
  | 0 => some (m, .blockinfo noTarget)
  | 11 =>
    let s := m.reserve env (sizeofAirConstant*maxConsts)
    if s.1 = 0 then none else some (s.2, .constants ⟨s.1, s.2.arena.ptr s.1, [], 0⟩)
  | 15 =>
    let s := m.reserve env (4*maxMdStrings)
    if s.1 = 0 then none
    else
      let t := s.2.reserve env (sizeofAirMetadata*maxMdRecords)
      if t.1 = 0 then none else some (t.2, .metadata ⟨s.1, t.1, [], [], 0⟩)
  | 10 =>
    let s := m.reserve env (sizeofParamAttrGroup*maxGroups)
    if s.1 = 0 then none else some (s.2, .groups ⟨s.1, s.2.arena.ptr s.1, []⟩)
  | 17 =>
    let s := m.reserve env (sizeofAirType*maxTypes)
    if s.1 = 0 then none else some (s.2, .types ⟨s.1, s.2.arena.ptr s.1, [], 0⟩)
  | 14 =>
    let s := m.reserve env (sizeofSymtabEntry*maxSymtab)
    if s.1 = 0 then none else some (s.2, .symtab ⟨s.2.arena.ptr s.1, 0⟩)
  | _ => some (m, .passOver)

/-- BLOCKINFO, CONSTANTS, METADATA_KIND, METADATA_ATTACHMENT, METADATA, PARAMATTR_GROUP,
PARAMATTR, TYPE and VALUE_SYMTAB are walked; any other sub-block is skipped. -/
def walkedBlocks : List Nat := [0, 11, 22, 16, 15, 10, 9, 17, 14]

/-- MODULE left without END_BLOCK: before its declared end that ends the root loop, too. -/
def bailModule (m : AirModule) (w : ModuleWalk) (pos : Nat) : ReaderStep :=
  if pos < w.blk.endPos then .inr (.finished m) else .inl ⟨m, pos, none, none⟩

def enterSub (env : ReaderEnv) (buf : List UInt8) (m : AirModule) (w : ModuleWalk)
    (id pos : Nat) : ReaderStep :=
  match blockEnter buf w.blk.abbrevWidth (if id = 0 then none else some m.blockinfo) pos with
  | none => bailModule m w (enterStop buf w.blk.abbrevWidth pos)
  | some (sub, first) =>
    match openInner env m id with
    | none => .inr (.error .outOfMemory)
    | some (m, inner) => .inl ⟨m, first, some w, some ⟨sub, inner⟩⟩

/-- A sub-block that is not walked; the bits of a FUNCTION_BLOCK are kept for later. -/
def skipSub (env : ReaderEnv) (buf : List UInt8) (m : AirModule) (w : ModuleWalk)
    (id pos : Nat) : ReaderStep :=
  match blockSkip buf w.blk.abbrevWidth pos with
  | none => bailModule m w (enterStop buf w.blk.abbrevWidth pos)
  | some stop =>
    let attached := if id = 12 then attachBody env m w.nextBodyFn pos stop else (m, w.nextBodyFn)
    .inl ⟨attached.1, stop, some ⟨w.blk, attached.2⟩, none⟩

def moduleStep (env : ReaderEnv) (buf : List UInt8) (s : Reader) (w : ModuleWalk) : ReaderStep :=
  if w.blk.endPos ≤ s.pos then .inl ⟨s.m, s.pos, none, none⟩
  else match blockNextRecord buf w.blk s.pos with
    | none => bailModule s.m w (nextRecordStop buf w.blk s.pos)
    | some (.stop, _, pos) => .inl ⟨s.m, pos, none, none⟩
    | some (.define, blk, pos) => .inl ⟨s.m, pos, some ⟨blk, w.nextBodyFn⟩, none⟩
    | some (.record r, blk, pos) =>
      match moduleRecord env s.m r with
      | none => .inr (.error .outOfMemory)
      | some m => .inl ⟨m, pos, some ⟨blk, w.nextBodyFn⟩, none⟩
    | some (.subblock id, blk, pos) =>
      if id ∈ walkedBlocks then enterSub env buf s.m ⟨blk, w.nextBodyFn⟩ id pos
      else skipSub env buf s.m ⟨blk, w.nextBodyFn⟩ id pos

def rootAbbrevWidth : Nat := 2

def rootStep (buf : List UInt8) (s : Reader) : ReaderStep :=
  if 8*buf.length ≤ s.pos then .inr (.finished s.m)
  else match readBits buf rootAbbrevWidth s.pos with
    | none => .inr (.finished s.m)
    | some (code, _) =>
      if code ≠ 1 then .inr (.finished s.m)
      else match blockEnter buf rootAbbrevWidth none s.pos with
        | none => .inr (.error .protocol)
        | some (blk, first) =>
          if blk.blockId = 23 then .inl ⟨s.m, first, none, some ⟨blk, .strtab⟩⟩
          else if blk.blockId = 8 then .inl ⟨s.m, first, some ⟨blk, 0⟩, none⟩
          else match bsSeek buf blk.endPos with
            | none => .inr (.finished s.m)
            | some pos => .inl ⟨s.m, pos, none, none⟩

/-- One iteration of the innermost loop. -/
def readerStep (env : ReaderEnv) (buf : List UInt8) (s : Reader) : ReaderStep :=
  match s.sub with
  | some w => subStep env buf s w
  | none => match s.module with
    | some w => moduleStep env buf s w
    | none => rootStep buf s

/- After the root walk. -/

/-- Functions `i` to `i+left`: a name that lies in STRTAB is copied, another one is
cleared. -/
def resolveNames (env : ReaderEnv) (strtabLen : Nat) : Nat → Nat → AirModule → Option AirModule
  | 0, _, m => some m
  | left+1, i, m =>
    let fn := m.loadFunction env i
    if fn.nameLength = 0 ∨ strtabLen < fn.nameOffset+fn.nameLength then
      resolveNames env strtabLen left (i+1) (m.storeFunction i fun f => { f with nameOffset := 0 })
    else
      let bytes := match m.arena.cells m.strtabOffset with
        | some (.bytes bs) => window bs fn.nameOffset fn.nameLength
        | _ => []
      let s := m.intern env (fn.nameLength+1) (.bytes (bytes ++ [0]))
      if s.1 = 0 then none
      else resolveNames env strtabLen left (i+1)
        ((deriveTablePtrs s.2).storeFunction i fun f => { f with nameOffset := s.1 })

def clearNames : Nat → Nat → AirModule → AirModule
  | 0, _, m => m
  | left+1, i, m =>
    clearNames left (i+1) (m.storeFunction i fun f => { f with nameOffset := 0 })

def strtabPass (env : ReaderEnv) (m : AirModule) : Option AirModule :=
  if m.strtabOffset ≠ 0 ∧ 0 < m.strtabLen then
    resolveNames env m.strtabLen m.numFunctions 0 (deriveTablePtrs m)
  else some (clearNames m.numFunctions 0 m)

/-- `metadata_strings`: the pointer array, made after every other reservation. -/
def materializeStrings (env : ReaderEnv) (m : AirModule) : Option AirModule :=
  if m.metadataStringOffsets = [] then some m
  else
    let s := m.reserve env (sizeofCharPtr*m.metadataStringOffsets.length)
    if s.1 = 0 then none
    else
      let ptrs := s.2.metadataStringOffsets.map s.2.arena.ptr
      some { s.2 with metadataStrings := some (s.2.arena.ptr s.1, ptrs) }

def finishOpen (env : ReaderEnv) (m : AirModule) : Except OpenStatus AirModule :=
  match strtabPass env m with
  | none => .error .outOfMemory
  | some m =>
    match materializeStrings env m with
    | none => .error .outOfMemory
    | some m =>
      let m := deriveTablePtrs m
      .ok (if m.metadata = [] then m
        else { m with metadataPtr := some (m.arena.ptr m.metadataRecordsArena) })

/-- The bitstream of a wrapped blob, behind its magic. -/
def parseWrapper (blob : List UInt8) : Option (List UInt8) :=
  if blob.length < 20 ∨ window blob 0 4 ≠ [0xDE, 0xC0, 0x17, 0x0B] then none
  else
    let bodyOff := le32 blob 8
    let bodyLen := le32 blob 12
    if blob.length < bodyOff+bodyLen then none
    else if bodyLen < 4 ∨ window blob bodyOff 4 ≠ [0x42, 0x43, 0xC0, 0xDE] then none
    else some (window blob (bodyOff+4) (bodyLen-4))

/-- The module before the walks: the arena holds the copy of the bitstream. -/
def initModule (env : ReaderEnv) (buf : List UInt8) : Option AirModule :=
  if env.grants 0 = false ∨ env.grants 1 = false then none
  else
    let s := AirModule.intern env { arena := Arena.init (16*1024) 2 } buf.length (.bytes buf)
    if (s.1 = 0 ∧ buf ≠ []) ∨ env.grants s.2.arena.calls = false then none
    else some { s.2.called with bitstreamOffset := s.1 }

def Reader.start (m : AirModule) : Reader := ⟨m, 0, none, none⟩

/-- `lagfx_air_module_open` with at most `fuel` iterations; `none` is not returning. -/
def airModuleOpen (env : ReaderEnv) (fuel : Nat) (blob : List UInt8) :
    Option (Except OpenStatus AirModule) :=
  if blob = [] then some (.error .invalidArg)
  else match parseWrapper blob with
    | none => some (.error .protocol)
    | some buf =>
      match initModule env buf with
      | none => some (.error .outOfMemory)
      | some m =>
        match Machine.run (readerStep env buf) fuel (.start m) with
        | .inl _ => none
        | .inr (.error st) => some (.error st)
        | .inr (.finished m) => some (finishOpen env m)

def Opens (env : ReaderEnv) (blob : List UInt8) (r : Except OpenStatus AirModule) : Prop :=
  ∃ fuel, airModuleOpen env fuel blob = some r

end Lagfx
