import Mathlib.Logic.Function.Basic
import Lagfx.Lib.Runs

/-! The SPIR-V builder: five streams of words and the pending locals, spliced together by
`lagfx_spv_builder_finish`. -/
namespace Lagfx.SpvBuilder
open Runs

/-- The streams, in the order of the module. -/
inductive Section where
  | caps | preamble | annot | types | funcs
deriving DecidableEq, Repr

def storageFunction : Nat := 7

/-- `section_of`: a variable that is not local, and OpUndef, go with the types. -/
def sectionOf (opcode : Nat) (operands : List Nat) : Section :=
  if opcode ∈ [17, 10] then .caps
  else if opcode ∈ [11, 14, 15, 16, 331, 5, 6, 7, 8] then .preamble
  else if opcode ∈ [71, 72, 73, 74, 75] then .annot
  else if opcode = 59 then
    if 3 ≤ operands.length ∧ operands.getD 2 0 ≠ storageFunction then .types else .funcs
  else if opcode = 1 then .types
  else if (19 ≤ opcode ∧ opcode ≤ 39) ∨ (41 ≤ opcode ∧ opcode ≤ 52) then .types
  else .funcs

/-- Four bytes a word, the first one lowest, with a zero byte behind the last. -/
def packChars : List UInt8 → List Nat
  | a :: b :: c :: d :: s =>
    (a.toNat+b.toNat*256+c.toNat*65536+d.toNat*16777216) :: packChars s
  | [a, b, c] => [a.toNat+b.toNat*256+c.toNat*65536]
  | [a, b] => [a.toNat+b.toNat*256]
  | [a] => [a.toNat]
  | [] => [0]

/-- A C string: no byte of it is zero. -/
structure CStr where
  chars : List UInt8
  nonzero : ∀ c ∈ chars, c ≠ 0

/-- What `lagfx_spv_builder_emit_op` and `_emit_op_string` are called with. -/
inductive Emit where
  | op (opcode : Nat) (operands : List Nat)
  | opString (opcode : Nat) (prefixOperands : List Nat) (str : CStr) (suffixOperands : List Nat)

def Emit.opcode : Emit → Nat
  | .op opcode _ => opcode
  | .opString opcode _ _ _ => opcode

def Emit.operands : Emit → List Nat
  | .op _ operands => operands
  | .opString _ prefixOperands str suffixOperands =>
    prefixOperands++packChars str.chars++suffixOperands

/- A string instruction is classified by what stands before the string. -/
def Emit.sec : Emit → Section
  | .op opcode operands => sectionOf opcode operands
  | .opString opcode prefixOperands _ _ => sectionOf opcode prefixOperands

def Emit.wordCount (e : Emit) : Nat := 1+e.operands.length

/- The count is shifted up in 32 bits. -/
def Emit.header (e : Emit) : Nat := e.wordCount*2^16%2^32+e.opcode%2^16

def Emit.words (e : Emit) : List Nat := e.header :: e.operands

/-- The segment of locals of one function: the offset in the function stream at which they are
spliced in, and their first word in the buffer of locals. -/
structure LocalsSeg where
  mark : Nat
  start : Nat
deriving DecidableEq, Repr

structure FuncsMark where
  funcsN : Nat
  localsSegs : Nat
  localsN : Nat
deriving DecidableEq, Repr

/-- `overrun`: a 32-bit count wrapped, and words went outside the buffer. -/
structure Builder where
  sec : Section → List Nat := fun _ => []
  locals : List Nat := []
  segs : List LocalsSeg := []
  nextId : Nat := 1
  overrun : Bool := false

/- Both emitters; `n+word_count` is a sum of 32 bits. -/
def Builder.emit (b : Builder) (e : Emit) : Builder :=
  if (b.sec e.sec).length+e.wordCount < 2^32 then
    { b with sec := Function.update b.sec e.sec (b.sec e.sec++e.words) }
  else { b with overrun := true }

def Builder.allocId (b : Builder) : Builder := { b with nextId := (b.nextId+1)%2^32 }

/- The capacity of the segments is doubled from 4 on and wraps at 2^32. -/
def Builder.markLocals (b : Builder) : Builder :=
  if b.segs.length < 2^31 then
    { b with segs := b.segs++[⟨(b.sec .funcs).length, b.locals.length⟩] }
  else { b with overrun := true }

def localVar (ptrTypeId resultId : Nat) : Emit := .op 59 [ptrTypeId, resultId, storageFunction]

/- Without a segment the call is refused. -/
def Builder.emitLocalVar (b : Builder) (ptrTypeId resultId : Nat) : Builder :=
  if b.segs = [] then b
  else if b.locals.length+4 < 2^32 then
    { b with locals := b.locals++(localVar ptrTypeId resultId).words }
  else { b with overrun := true }

def Builder.funcsSnapshot (b : Builder) : FuncsMark :=
  ⟨(b.sec .funcs).length, b.segs.length, b.locals.length⟩

/- Each count goes back on its own; a mark beyond the end is left out. -/
def rewound {α : Type*} (l : List α) (n : Nat) : List α := if n ≤ l.length then l.take n else l

def Builder.funcsRewind (b : Builder) (m : FuncsMark) : Builder :=
  { b with
    sec := Function.update b.sec .funcs (rewound (b.sec .funcs) m.funcsN)
    segs := rewound b.segs m.localsSegs
    locals := rewound b.locals m.localsN }

/- The locals of a segment end where those of the next one start. -/
def segStop (locals : List Nat) : List LocalsSeg → Nat
  | [] => locals.length
  | next :: _ => next.start

/-- The loop of `finish` over the segments, from word `src` of the functions on. -/
def splice (funcs locals : List Nat) : List LocalsSeg → Nat → List Nat
  | [], src => funcs.drop src
  | g :: gs, src =>
    if funcs.length < g.mark ∨ g.mark < src ∨ segStop locals gs < g.start then
      splice funcs locals gs src
    else
      (funcs.drop src).take (g.mark-src)++
        (locals.drop g.start).take (segStop locals gs-g.start)++splice funcs locals gs g.mark

def Builder.body (b : Builder) : List Nat :=
  b.sec .caps++b.sec .preamble++b.sec .annot++b.sec .types++
    if b.locals.length ≠ 0 ∧ b.segs.length ≠ 0 then splice (b.sec .funcs) b.locals b.segs 0
    else b.sec .funcs

def spvMagicWord : Nat := 0x07230203
def spvVersion14 : Nat := 0x00010400

/-- The words of the blob; the bound is the next id. -/
def Builder.finish (b : Builder) : List Nat :=
  [spvMagicWord, spvVersion14, 0, b.nextId, 0]++b.body

/-- A snapshot, and the streams it was taken of. -/
structure Snapshot where
  mark : FuncsMark
  funcs : List Nat
  segs : List LocalsSeg
  locals : List Nat

/-- `rewind k` goes back to the snapshot before the last `k`, and these are given up. -/
inductive BuilderOp where
  | emit (e : Emit)
  | allocId
  | markLocals
  | emitLocalVar (ptrTypeId resultId : Nat)
  | snapshot
  | rewind (k : Nat)

/-- A builder with the snapshots at hand, the latest first, and the ids it gave out. -/
structure BuilderRun where
  b : Builder := {}
  snaps : List Snapshot := []
  ids : List Nat := []

def Builder.saved (b : Builder) : Snapshot := ⟨b.funcsSnapshot, b.sec .funcs, b.segs, b.locals⟩

def BuilderRun.step (r : BuilderRun) : BuilderOp → BuilderRun
  | .emit e => { r with b := r.b.emit e }
  | .allocId => { r with b := r.b.allocId, ids := r.b.nextId :: r.ids }
  | .markLocals => { r with b := r.b.markLocals }
  | .emitLocalVar ptrTypeId resultId => { r with b := r.b.emitLocalVar ptrTypeId resultId }
  | .snapshot => { r with snaps := r.b.saved :: r.snaps }
  | .rewind k =>
    match r.snaps.drop k with
    | [] => r
    | s :: rest => { r with b := r.b.funcsRewind s.mark, snaps := s :: rest }

/- What the builder is for: instructions in groups, and the functions with their locals. -/

/-- The locals of a function, and what is emitted behind its mark. -/
structure FnCode where
  vars : List Emit := []
  insts : List Emit := []

/-- The function section: what stands before the first mark, and the functions, the latest
first. -/
structure FuncsCode where
  head : List Emit := []
  fns : List FnCode := []

def FuncsCode.emit (c : FuncsCode) (e : Emit) : FuncsCode :=
  match c.fns with
  | [] => { c with head := c.head++[e] }
  | f :: fs => { c with fns := { f with insts := f.insts++[e] } :: fs }

def FuncsCode.mark (c : FuncsCode) : FuncsCode := { c with fns := {} :: c.fns }

def FuncsCode.addVar (c : FuncsCode) (e : Emit) : FuncsCode :=
  match c.fns with
  | [] => c
  | f :: fs => { c with fns := { f with vars := f.vars++[e] } :: fs }

/-- Each function's locals stand at its mark. -/
def FuncsCode.emits (c : FuncsCode) : List Emit :=
  c.head++c.fns.reverse.flatMap fun f => f.vars++f.insts

structure Emitted where
  group : Section → List Emit := fun _ => []
  code : FuncsCode := {}
  snaps : List FuncsCode := []

def Emitted.step (a : Emitted) : BuilderOp → Emitted
  | .emit e =>
    if e.sec = .funcs then { a with code := a.code.emit e }
    else { a with group := Function.update a.group e.sec (a.group e.sec++[e]) }
  | .allocId => a
  | .markLocals => { a with code := a.code.mark }
  | .emitLocalVar ptrTypeId resultId =>
    { a with code := a.code.addVar (localVar ptrTypeId resultId) }
  | .snapshot => { a with snaps := a.code :: a.snaps }
  | .rewind k =>
    match a.snaps.drop k with
    | [] => a
    | c :: rest => { a with code := c, snaps := c :: rest }

def Emitted.emits (a : Emitted) : List Emit :=
  a.group .caps++a.group .preamble++a.group .annot++a.group .types++a.code.emits

/- Reading the blob back. -/

/-- An instruction as it stands in the blob. -/
structure Inst where
  opcode : Nat
  operands : List Nat
deriving DecidableEq, Repr

def Emit.inst (e : Emit) : Inst := ⟨e.opcode, e.operands⟩

/-- Splits words into instructions by their word counts. -/
def splitInsts : Nat → List Nat → Option (List Inst)
  | _, [] => some []
  | 0, _ :: _ => none
  | n+1, w :: ws =>
    let wordCount := w/2^16
    if wordCount = 0 ∨ ws.length < wordCount-1 then none
    else
      (splitInsts n (ws.drop (wordCount-1))).map fun is =>
        ⟨w%2^16, ws.take (wordCount-1)⟩ :: is

def wordBytes (w : Nat) : List Nat := [w%256, w/256%256, w/65536%256, w/16777216%256]

/-- The literal string at the start of these words. -/
def readChars (ws : List Nat) : List Nat := (ws.flatMap wordBytes).takeWhile (· ≠ 0)

/-- The string of a string instruction reads as it was given. -/
def Emit.StringKept : Emit → Prop
  | .op _ _ => True
  | .opString opcode prefixOperands str suffixOperands =>
    readChars ((Emit.opString opcode prefixOperands str suffixOperands).operands.drop
      prefixOperands.length) = str.chars.map UInt8.toNat

end Lagfx.SpvBuilder
