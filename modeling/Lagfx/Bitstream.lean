import Lagfx.Lib.Bits
import Lagfx.State

/-! The LLVM bitstream reader: bit fields and VBR words, the abbreviation table, block
entry, skip and the record reader, and the walk over a block with what BLOCKINFO
installs. A cursor is its bit position; `none` is a failed read. -/
namespace Lagfx
open ByteMemory Bits

/-- At most five bytes cover a field of 32 bits. -/
def readBits (buf : List UInt8) (n pos : Nat) : Option (Nat × Nat) :=
  if n = 0 ∨ 32 < n then none
  else if 8*buf.length < pos+n then none
  else
    let bytes := min ((pos%8+n+7)/8) 5
    some ((leNat (window buf (pos/8) bytes) >>> (pos%8)) % 2^n, pos+n)

/- The chunk loop, for a value of `limit` bits. -/
def vbrLoop (buf : List UInt8) (n limit : Nat) (hn : 2 ≤ n) (val shift pos : Nat) :
    Option (Nat × Nat) :=
  match readBits buf n pos with
  | none => none
  | some (chunk, pos) =>
    let val := val ||| ((chunk%2^(n-1)) <<< shift) % 2^limit
    if chunk.testBit (n-1) = false then some (val, pos)
    else if limit ≤ shift+(n-1) then none
    else vbrLoop buf n limit hn val (shift+(n-1)) pos
termination_by limit-shift

def readVbrOf (limit : Nat) (buf : List UInt8) (n pos : Nat) : Option (Nat × Nat) :=
  if h : 2 ≤ n ∧ n ≤ 32 then vbrLoop buf n limit h.1 0 0 pos else none

def readVbr : List UInt8 → Nat → Nat → Option (Nat × Nat) := readVbrOf 32
def readVbr64 : List UInt8 → Nat → Nat → Option (Nat × Nat) := readVbrOf 64

def bsSeek (buf : List UInt8) (pos : Nat) : Option Nat :=
  if 8*buf.length < pos then none else some pos

inductive AbbrevOp where
  | literal (v : Nat)
  | fixed (width : Nat)
  | vbr (width : Nat)
  | array
  | char6
  | blob
deriving DecidableEq, Repr

/-- A pattern; in a table the entry at `i` has abbreviation id `i+4`. -/
abbrev Abbrev := List AbbrevOp

def abbrevMaxOps : Nat := 64
def abbrevMaxPerBlock : Nat := 64
def recordMaxOps : Nat := 1024
def blockinfoMaxBlockIds : Nat := 32
def maxAbbrevWidth : Nat := 8

def char6Decode (v : Nat) : Nat :=
  if v < 26 then 97+v
  else if v < 52 then 65+(v-26)
  else if v < 62 then 48+(v-52)
  else if v = 62 then 46
  else 95

def readAbbrevOp (buf : List UInt8) (pos : Nat) : Option (AbbrevOp × Nat) := do
  let (isLiteral, pos) ← readBits buf 1 pos
  if isLiteral ≠ 0 then
    let (v, pos) ← readVbr64 buf 8 pos
    some (.literal v, pos)
  else
    let (encoding, pos) ← readBits buf 3 pos
    if encoding = 1 then
      let (w, pos) ← readVbr buf 5 pos
      some (.fixed w, pos)
    else if encoding = 2 then
      let (w, pos) ← readVbr buf 5 pos
      some (.vbr w, pos)
    else if encoding = 3 then some (.array, pos)
    else if encoding = 4 then some (.char6, pos)
    else if encoding = 5 then some (.blob, pos)
    else none

def readAbbrevOps (buf : List UInt8) : Nat → Nat → Option (Abbrev × Nat)
  | 0, pos => some ([], pos)
  | n+1, pos => do
    let (op, pos) ← readAbbrevOp buf pos
    let (ops, pos) ← readAbbrevOps buf n pos
    some (op::ops, pos)

def abbrevTableDefine (buf : List UInt8) (table : List Abbrev) (pos : Nat) :
    Option (List Abbrev × Nat) :=
  if abbrevMaxPerBlock ≤ table.length then none
  else do
    let (numOps, pos) ← readVbr buf 5 pos
    if numOps = 0 ∨ abbrevMaxOps < numOps then none
    else
      let (ab, pos) ← readAbbrevOps buf numOps pos
      some (table ++ [ab], pos)

def abbrevTableCopy (dst src : List Abbrev) : Option (List Abbrev) :=
  if abbrevMaxPerBlock < src.length+dst.length then none else some (dst ++ src)

/-- Arrays and blobs are for the caller. -/
def decodeOneValue (buf : List UInt8) (op : AbbrevOp) (pos : Nat) : Option (Nat × Nat) :=
  match op with
  | .literal v => some (v, pos)
  | .fixed w =>
    if w = 0 then some (0, pos)
    else if 32 < w then do
      let (lo, pos) ← readBits buf 32 pos
      let (hi, pos) ← readBits buf (w-32) pos
      some (lo ||| hi <<< 32, pos)
    else readBits buf w pos
  | .vbr w => readVbr64 buf w pos
  | .char6 => do
    let (v, pos) ← readBits buf 6 pos
    some (char6Decode v, pos)
  | .array => none
  | .blob => none

/-- A record as its reader sees it; a blob is the bytes it points at. -/
structure BsRecord where
  code : Nat
  ops : List Nat
  blob : Option (List UInt8)
deriving DecidableEq, Repr

/- The record so far: the first value decoded is the code. -/
structure PartialRecord where
  code : Option Nat := none
  ops : List Nat := []
  blob : Option (List UInt8) := none

def PartialRecord.push (r : PartialRecord) (v : Nat) : PartialRecord :=
  match r.code with
  | none => { r with code := some (u32 v) }
  | some _ => { r with ops := r.ops ++ [v] }

def decodeElems (buf : List UInt8) (elem : AbbrevOp) :
    Nat → PartialRecord → Nat → Option (PartialRecord × Nat)
  | 0, r, pos => some (r, pos)
  | n+1, r, pos => do
    let (v, pos) ← decodeOneValue buf elem pos
    decodeElems buf elem n (r.push v) pos

/-- The loop over the pattern; an array takes the next entry as its element type. -/
def decodeOps (buf : List UInt8) : Abbrev → PartialRecord → Nat → Option (PartialRecord × Nat)
  | [], r, pos => some (r, pos)
  | [.array], _, _ => none
  | .array :: elem :: ops, r, pos => do
    let (length, pos) ← readVbr buf 6 pos
    if recordMaxOps < u32 (r.ops.length+length) then none
    else
      let (r, pos) ← decodeElems buf elem length r pos
      decodeOps buf ops r pos
  | .blob :: ops, r, pos => do
    let (length, pos) ← readVbr buf 6 pos
    let byteOff := align32 pos/8
    if buf.length < byteOff+length then none
    else
      let r := { r with blob := some (window buf byteOff length) }
      decodeOps buf ops r (align32 (align32 pos+8*length))
  | op :: ops, r, pos => do
    let (v, pos) ← decodeOneValue buf op pos
    if r.code.isSome ∧ recordMaxOps ≤ r.ops.length then none
    else decodeOps buf ops (r.push v) pos

def abbrevDecodeRecord (buf : List UInt8) (table : List Abbrev) (abbrevId pos : Nat) :
    Option (BsRecord × Nat) :=
  if abbrevId < 4 then none
  else do
    let ab ← table[abbrevId-4]?
    let (r, pos) ← decodeOps buf ab {} pos
    let code ← r.code
    some (⟨code, r.ops, r.blob⟩, pos)

structure BsBlock where
  abbrevWidth : Nat
  blockId : Nat
  endPos : Nat
  abbrevs : List Abbrev
deriving DecidableEq, Repr

/-- `per_block`, read below `blockinfoMaxBlockIds` only. -/
abbrev Blockinfo := Nat → List Abbrev

def readEnterSubblockPayload (buf : List UInt8) (pos : Nat) : Option (BsBlock × Nat) := do
  let (blockid, pos) ← readVbr buf 8 pos
  let (width, pos) ← readVbr buf 4 pos
  if width = 0 ∨ maxAbbrevWidth < width then none
  else
    let (words, pos) ← readBits buf 32 (align32 pos)
    some (⟨width, blockid, pos+words*32, []⟩, pos)

def blockEnter (buf : List UInt8) (parentWidth : Nat) (blockinfo : Option Blockinfo) (pos : Nat) :
    Option (BsBlock × Nat) := do
  let (code, pos) ← readBits buf parentWidth pos
  if code ≠ 1 then none
  else
    let (blk, pos) ← readEnterSubblockPayload buf pos
    match blockinfo with
    | none => some (blk, pos)
    | some info =>
      if blk.blockId < blockinfoMaxBlockIds then
        let abbrevs ← abbrevTableCopy blk.abbrevs (info blk.blockId)
        some ({ blk with abbrevs := abbrevs }, pos)
      else some (blk, pos)

def blockSkip (buf : List UInt8) (parentWidth pos : Nat) : Option Nat := do
  let (blk, _) ← blockEnter buf parentWidth none pos
  bsSeek buf blk.endPos

def readOps (buf : List UInt8) : Nat → Nat → Option (List Nat × Nat)
  | 0, pos => some ([], pos)
  | n+1, pos => do
    let (v, pos) ← readVbr64 buf 6 pos
    let (ops, pos) ← readOps buf n pos
    some (v::ops, pos)

inductive BsEvent where
  | stop
  | subblock (peekId : Nat)
  | define
  | record (r : BsRecord)
deriving DecidableEq, Repr

/-- The next item of a block. At a sub-block the cursor goes back before the code. -/
def blockNextRecord (buf : List UInt8) (blk : BsBlock) (pos : Nat) :
    Option (BsEvent × BsBlock × Nat) :=
  if blk.endPos ≤ pos then some (.stop, blk, pos)
  else do
    let (code, pos) ← readBits buf blk.abbrevWidth pos
    if code = 0 then some (.stop, blk, align32 pos)
    else if code = 1 then
      let (blockid, _) ← readVbr buf 8 pos
      let back ← bsSeek buf (pos-blk.abbrevWidth)
      some (.subblock blockid, blk, back)
    else if code = 2 then
      let (abbrevs, pos) ← abbrevTableDefine buf blk.abbrevs pos
      some (.define, { blk with abbrevs := abbrevs }, pos)
    else if code = 3 then
      let (recordCode, pos) ← readVbr buf 6 pos
      let (numOps, pos) ← readVbr buf 6 pos
      if recordMaxOps < numOps then none
      else
        let (ops, pos) ← readOps buf numOps pos
        some (.record ⟨recordCode, ops, none⟩, blk, pos)
    else
      let (r, pos) ← abbrevDecodeRecord buf blk.abbrevs code pos
      some (.record r, blk, pos)

/- What a walk sees: the items of a block in order, the sub-blocks with the positions
   of their first bit and of the first bit after them, and at the end of the block its
   abbreviation table. -/
inductive WalkItems where
  | stop (abbrevs : List Abbrev)
  | record (r : BsRecord) (rest : WalkItems)
  | define (ab : Abbrev) (rest : WalkItems)
  | block (id start stop : Nat) (body rest : WalkItems)
deriving DecidableEq, Repr

/-- What a record of BLOCKINFO does to `target_block_id`; outside of it, nothing. -/
def setTarget (target : Option Nat) (r : BsRecord) : Option Nat :=
  match target, r.ops with
  | some t, op::_ => if r.code = 1 then some (u32 op) else some t
  | t, _ => t

/-- Inside BLOCKINFO a DEFINE_ABBREV also goes to the table of the target block. -/
def installAbbrev (info : Blockinfo) (target : Option Nat) (ab : Abbrev) : Blockinfo :=
  match target with
  | none => info
  | some t =>
    if t < blockinfoMaxBlockIds ∧ (info t).length < abbrevMaxPerBlock
    then Function.update info t (info t ++ [ab]) else info

def noTarget : Nat := 0xFFFFFFFF

/-- The walk over a block from `pos` on. `target` is set inside BLOCKINFO, whose own
sub-blocks are skipped; every other sub-block is entered with what BLOCKINFO has
installed so far. -/
def walkItems (buf : List UInt8) :
    Nat → BsBlock → Blockinfo → Option Nat → Nat → Option (WalkItems × Blockinfo × Nat)
  | 0, _, _, _, _ => none
  | fuel+1, blk, info, target, pos =>
    match blockNextRecord buf blk pos with
    | none => none
    | some (.stop, blk, pos) => some (.stop blk.abbrevs, info, pos)
    | some (.record r, blk, pos) => do
      let (rest, info, stop) ← walkItems buf fuel blk info (setTarget target r) pos
      some (.record r rest, info, stop)
    | some (.define, blk, pos) => do
      let ab ← blk.abbrevs.getLast?
      let (rest, info, stop) ← walkItems buf fuel blk (installAbbrev info target ab) target pos
      some (.define ab rest, info, stop)
    | some (.subblock id, blk, pos) =>
      match target with
      | some _ => do
        let pos ← blockSkip buf blk.abbrevWidth pos
        walkItems buf fuel blk info target pos
      | none => do
        let (sub, first) ← blockEnter buf blk.abbrevWidth (if id = 0 then none else some info) pos
        let (body, info, next) ←
          walkItems buf fuel sub info (if id = 0 then some noTarget else none) first
        let (rest, info, stop) ← walkItems buf fuel blk info none next
        some (.block id pos next body rest, info, stop)

/-- The walk of one outermost block; every item takes at least one bit. -/
def walkTree (buf : List UInt8) (parentWidth pos : Nat) : Option (WalkItems × Nat) := do
  let (blk, first) ← blockEnter buf parentWidth (some fun _ => []) pos
  let (items, _, stop) ← walkItems buf (8*buf.length+1) blk (fun _ => [])
    (if blk.blockId = 0 then some noTarget else none) first
  some (items, stop)

end Lagfx
