import Lagfx.Bitstream

/-! What the AIR bitcode reader keeps: the arena with the moves of its base, raw pointers
into it, and the tables of a parsed module. -/
namespace Lagfx
open ByteMemory Bits

/- `sizeof` of what the arena holds, in bytes. -/
def sizeofAirType : Nat := 32
def sizeofAirConstant : Nat := 16
def sizeofAirFunction : Nat := 48
def sizeofAirMetadata : Nat := 24
def sizeofParamAttrGroup : Nat := 24
def sizeofSymtabEntry : Nat := 12
def sizeofCharPtr : Nat := 8

structure AirFunction where
  nameOffset : Nat
  nameLength : Nat
  typeIndex : Nat
  paramAttrIndex : Nat
  linkage : Nat
  visibility : Nat
  isProto : Bool
  bodyOffset : Nat
  bodyLength : Nat
deriving DecidableEq, Repr

/-- What the reader does not decide: which of its allocations succeed, in the order it
asks, and as what function struct the bytes at an offset read where none begins. -/
structure ReaderEnv where
  grants : Nat → Bool
  junk : Nat → AirFunction

/- Every allocation succeeds; any other bytes read as zeros. -/
def allGranted : ReaderEnv := ⟨fun _ => true, fun _ => ⟨0, 0, 0, 0, 0, 0, false, 0, 0⟩⟩

/- What was stored at an offset of the arena. -/
inductive Cell where
  | bytes (bs : List UInt8)
  | words (ws : List Nat)
  | function (f : AirFunction)
deriving DecidableEq, Repr

/-- `generation` counts the moves of `base`, `calls` the allocations asked for. -/
structure Arena where
  generation : Nat
  capacity : Nat
  used : Nat
  calls : Nat
  cells : Nat → Option Cell

/-- A raw pointer into the arena: an offset from the base of one generation. -/
structure Ptr where
  generation : Nat
  offset : Nat
deriving DecidableEq, Repr

def Arena.ptr (a : Arena) (off : Nat) : Ptr := ⟨a.generation, off⟩

def Arena.init (capacity calls : Nat) : Arena := ⟨0, capacity, 1, calls, fun _ => none⟩

def align8 (n : Nat) : Nat := (n+7)/8*8

/- The geometric growth; `fuel` doublings are enough from 1 on. -/
def newCapacity (need : Nat) : Nat → Nat → Nat
  | 0, cap => cap
  | fuel+1, cap => if cap < need then newCapacity need fuel (2*cap) else cap

/-- Offset 0 is a failure; an offset has 32 bits. -/
def arenaReserve (env : ReaderEnv) (a : Arena) (n : Nat) : Nat × Arena :=
  let aligned := align8 a.used
  if a.capacity < aligned+n then
    if env.grants a.calls = true then
      (u32 aligned, { a with
        generation := a.generation+1
        capacity := newCapacity (aligned+n) (aligned+n) (2*a.capacity)
        used := aligned+n
        calls := a.calls+1 })
    else (0, { a with calls := a.calls+1 })
  else (u32 aligned, { a with used := aligned+n })

def Arena.put (a : Arena) (off : Nat) (c : Cell) : Arena :=
  { a with cells := Function.update a.cells off (some c) }

inductive AirTypeKind where
  | void | integer | float | double | half | vector | pointer | structAnon | structNamed
  | array | function | metadata | label | unknown
deriving DecidableEq, Repr

structure AirType where
  kind : AirTypeKind
  op : Option Ptr
  numOp : Nat
  nameOffset : Nat
  opOffset : Nat
deriving DecidableEq, Repr

inductive AirConstKind where
  | null | integer | float | aggregate | string | data | undef | unknown
deriving DecidableEq, Repr

/- The union of a constant; a double is its bits. -/
inductive ConstPayload where
  | i64 (v : Int)
  | f64 (bits : Nat)
  | bytes (offset len : Nat)
deriving DecidableEq, Repr

structure AirConstant where
  kind : AirConstKind
  typeIndex : Nat
  payload : ConstPayload
deriving DecidableEq, Repr

inductive AirMdKind where
  | value | node | namedNode | unknown
deriving DecidableEq, Repr

structure AirMetadata where
  kind : AirMdKind
  nameOffset : Nat
  operands : Option Ptr
  numOperands : Nat
deriving DecidableEq, Repr

structure ParamAttrGroup where
  groupId : Nat
  raw : Option Ptr
  numRaw : Nat
  rawOffset : Nat
deriving DecidableEq, Repr

/-- A parsed module. `stale` is set by a store through a cached pointer of an earlier
generation; a pointer taken from the base at the store itself needs no check. -/
structure AirModule where
  arena : Arena
  bitstreamOffset : Nat := 0
  blockinfo : Blockinfo := fun _ => []
  tripleOffset : Nat := 0
  datalayoutOffset : Nat := 0
  sourceFilenameOffset : Nat := 0
  strtabOffset : Nat := 0
  strtabLen : Nat := 0
  typesPtr : Option Ptr := none
  typesOff : Nat := 0
  types : List AirType := []
  constantsPtr : Option Ptr := none
  constantsOff : Nat := 0
  constants : List AirConstant := []
  functionsPtr : Option Ptr := none
  functionsOff : Nat := 0
  numFunctions : Nat := 0
  numGlobalvars : Nat := 0
  metadataPtr : Option Ptr := none
  metadataRecordsArena : Nat := 0
  metadata : List AirMetadata := []
  metadataStringsOffsetsArena : Nat := 0
  metadataStringOffsets : List Nat := []
  metadataStrings : Option (Ptr × List Ptr) := none
  groupsPtr : Option Ptr := none
  groupsOff : Nat := 0
  groups : List ParamAttrGroup := []
  symtabPtr : Option Ptr := none
  numSymtab : Nat := 0
  stale : Bool := false

def AirModule.reserve (env : ReaderEnv) (m : AirModule) (n : Nat) : Nat × AirModule :=
  let r := arenaReserve env m.arena n
  (r.1, { m with arena := r.2 })

def AirModule.put (m : AirModule) (off : Nat) (c : Cell) : AirModule :=
  { m with arena := m.arena.put off c }

/-- An allocation outside of the arena is asked for. -/
def AirModule.called (m : AirModule) : AirModule :=
  { m with arena := { m.arena with calls := m.arena.calls+1 } }

/-- A reservation that is filled when it succeeds. -/
def AirModule.intern (env : ReaderEnv) (m : AirModule) (size : Nat) (c : Cell) :
    Nat × AirModule :=
  let r := m.reserve env size
  (r.1, if r.1 = 0 then r.2 else r.2.put r.1 c)

/-- The effect on `stale` of a store through `p`. -/
def AirModule.store (m : AirModule) (p : Ptr) : AirModule :=
  { m with stale := m.stale || decide (p.generation ≠ m.arena.generation) }

/- One character an operand, and the terminator. -/
def charCell (ops : List Nat) : Cell := .bytes (ops.map UInt8.ofNat ++ [0])

def arenaInternString (env : ReaderEnv) (m : AirModule) (ops : List Nat) : Nat × AirModule :=
  m.intern env (ops.length+1) (charCell ops)

def arenaInternU32Array (env : ReaderEnv) (m : AirModule) (ops : List Nat) : Nat × AirModule :=
  m.intern env (4*ops.length) (.words (ops.map u32))

def ptrUnlessZero (a : Arena) (off : Nat) : Option Ptr :=
  if off = 0 then none else some (a.ptr off)

/-- The table pointers again from their offsets; an offset 0 leaves the pointer. -/
def deriveTablePtrs (m : AirModule) : AirModule :=
  { m with
    typesPtr := if m.typesOff = 0 then m.typesPtr else some (m.arena.ptr m.typesOff)
    types := if m.typesOff = 0 then m.types else
      m.types.map fun t => { t with op := ptrUnlessZero m.arena t.opOffset }
    constantsPtr := if m.constantsOff = 0 then m.constantsPtr
      else some (m.arena.ptr m.constantsOff)
    functionsPtr := if m.functionsOff = 0 then m.functionsPtr
      else some (m.arena.ptr m.functionsOff)
    groupsPtr := if m.groupsOff = 0 then m.groupsPtr else some (m.arena.ptr m.groupsOff)
    groups := if m.groupsOff = 0 then m.groups else
      m.groups.map fun g => { g with raw := ptrUnlessZero m.arena g.rawOffset } }

/-- Where `functions[i]` is read: the structs are taken to lie one after the other. -/
def AirModule.functionSlot (m : AirModule) (i : Nat) : Nat :=
  m.functionsOff+sizeofAirFunction*i

/-- The function struct that begins at slot `i`, if one does. -/
def AirModule.functionAt (m : AirModule) (i : Nat) : Option AirFunction :=
  match m.arena.cells (m.functionSlot i) with
  | some (.function f) => some f
  | _ => none

def AirModule.loadFunction (env : ReaderEnv) (m : AirModule) (i : Nat) : AirFunction :=
  (m.functionAt i).getD (env.junk (m.functionSlot i))

/-- A store to `functions[i]` through the cached table pointer. Through a stale pointer
it misses the live arena; where no function struct begins it hits other bytes. -/
def AirModule.storeFunction (m : AirModule) (i : Nat) (f : AirFunction → AirFunction) :
    AirModule :=
  match m.functionsPtr with
  | none => m
  | some p =>
    match m.functionAt i with
    | some fn =>
      if p.generation = m.arena.generation
      then (m.store p).put (m.functionSlot i) (.function (f fn)) else m.store p
    | none => m.store p

end Lagfx
