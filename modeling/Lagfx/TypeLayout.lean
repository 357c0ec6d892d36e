import Lagfx.ValueNumbering

/-! The sizes and alignments that `translate_function.c` gives the types of a module. -/
namespace Lagfx
open Bits

/-- `lagfx_round_up`. -/
def roundUp (x a : Nat) : Nat := if a = 0 then x else u32 (x+a-1)/a*a

/-- A field of size and alignment `e` behind the fields before it. -/
def layoutField (acc e : Nat × Nat) : Nat × Nat := (u32 (roundUp acc.1 e.2+e.1), max acc.2 e.2)

/-- `air_type_size_align` to a depth of `fuel`: `none` is a type that contains itself, and
`some none` one that has no layout. -/
def airTypeSizeAlign (types : List XlateType) : Nat → Nat → Option (Option (Nat × Nat))
  | 0, _ => none
  | fuel+1, ty =>
    match types[ty]? with
    | none => some none
    | some t =>
      match t.kind with
      | .float => some (some (4, 4))
      | .half => some (some (2, 2))
      | .double => some (some (8, 8))
      | .integer =>
        let bytes := max (t.op.getD 0 32/8) 1
        some (some (bytes, bytes))
      | .vector =>
        let lanes := t.op.getD 0 4
        (airTypeSizeAlign types fuel (t.op.getD 1 0)).map <| Option.map fun e =>
          (u32 (e.1*lanes), if lanes = 2 then u32 (e.1*2) else u32 (e.1*4))
      | .array =>
        (airTypeSizeAlign types fuel (t.op.getD 1 0)).map <| Option.map fun e =>
          (u32 (roundUp e.1 e.2*t.op.getD 0 0), e.2)
      | .structAnon | .structNamed =>
        ((t.op.drop 1).foldlM
          (fun acc field => match acc with
            | none => some none
            | some a => (airTypeSizeAlign types fuel field).map (Option.map (layoutField a)))
          (some (0, 1))).map <| Option.map fun (a : Nat × Nat) => (roundUp a.1 a.2, a.2)
      | _ => some none

def AirTypeKind.isStruct : AirTypeKind → Bool
  | .structAnon | .structNamed => true
  | _ => false

/-- A kind of data that is no struct. -/
def AirTypeKind.isElement : AirTypeKind → Bool
  | .array | .vector | .float | .half | .double | .integer => true
  | _ => false

end Lagfx
