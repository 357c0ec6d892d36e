import Lagfx.BitcodeBody
import Lagfx.BitcodeEffects
import Lagfx.BitcodeMoves

/-! The two readers of CONSTANTS blocks, of a module and of a function body, against what the
records of a block denote. -/
namespace Lagfx
open ByteMemory Bits

/- The loops over the records of a block. -/

/-- The loop of the module; `none` is no memory. -/
def decodeConstants (env : ReaderEnv) :
    AirModule → ConstantsWalk → List BsRecord → Option (AirModule × ConstantsWalk)
  | m, w, [] => some (m, w)
  | m, w, r::rs =>
    match constantsRecord env m w r with
    | .go m w => decodeConstants env m w rs
    | .leave m w => some (m, w)
    | .oom => none

/-- The loop of a function body. -/
def decodeLocalConstants (env : ReaderEnv) :
    AirBody → ConstantsWalk → List BsRecord → AirBody × ConstantsWalk
  | b, w, [] => (b, w)
  | b, w, r::rs =>
    match localConstantsRecord env b w r with
    | none => (b, w)
    | some (b, w) => decodeLocalConstants env b w rs

/- Constants by their contents. -/

inductive ConstantPayload where
  | none
  | i64 (v : Int)
  | f64 (bits : Nat)
  | chars (bs : List UInt8)
  | words (ws : List Nat)
deriving DecidableEq, Repr

structure ConstantContent where
  kind : AirConstKind
  typeIndex : Nat
  payload : ConstantPayload
deriving DecidableEq, Repr

def Arena.payloadWords (a : Arena) (off len : Nat) : List Nat :=
  match a.cells off with
  | some (.words ws) => ws.take (len/4)
  | _ => []

def Arena.payloadChars (a : Arena) (off len : Nat) : List UInt8 :=
  match a.cells off with
  | some (.bytes bs) => bs.take len
  | _ => []

/-- A constant of a table, its payload read from the arena. -/
def AirConstant.content (a : Arena) (c : AirConstant) : ConstantContent where
  kind := c.kind
  typeIndex := c.typeIndex
  payload := match c.kind, c.payload with
    | .data, .bytes off len | .aggregate, .bytes off len => .words (a.payloadWords off len)
    | .string, .bytes off len => .chars (a.payloadChars off len)
    | _, .i64 v => .i64 v
    | _, .f64 bits => .f64 bits
    | _, _ => .none

/- What the records denote. -/

/-- The constant records, each with the operand of the last SETTYPE before it. -/
def typedRecords : Nat → List BsRecord → List (Nat × BsRecord)
  | _, [] => []
  | ty, r::rs =>
    if r.code = 1 then typedRecords (r.ops.headD ty) rs
    else (ty, r)::typedRecords ty rs

def constantKind (code : Nat) : AirConstKind :=
  match code with
  | 2 => .null
  | 3 => .undef
  | 4 => .integer
  | 6 => .float
  | 8 | 9 => .string
  | 22 => .data
  | 7 => .aggregate
  | _ => .unknown

/-- How LLVM writes an integer of 64 bits: the sign goes to the low bit. -/
def signRotate (x : Int) : Nat :=
  if 0 ≤ x then (2*x.toNat)%2^64 else (2*(-x).toNat)%2^64+1

/-- How LLVM reads it: minus zero stands for the least integer. -/
def signRotated (raw : Nat) : Int :=
  if raw = 1 then -2^63 else signedVbr raw

/-- The constant that a record denotes. -/
def constantDenoted (p : Nat × BsRecord) : ConstantContent where
  kind := constantKind p.2.code
  typeIndex := p.1
  payload := match constantKind p.2.code, p.2.ops with
    | .integer, raw::_ => .i64 (signRotated raw)
    | .float, bits::_ => .f64 bits
    | .string, ops => .chars (ops.map UInt8.ofNat)
    | .data, ops | .aggregate, ops => .words ops
    | _, _ => .none

/-- The integers written come back. -/
theorem signRotated_signRotate {x : Int} (hlo : -2^63 ≤ x) (hhi : x < 2^63) :
    signRotated (signRotate x) = x := by
  simp only [signRotate, signRotated, signedVbr]
  split_ifs <;> omega

/- What the readers keep of it. -/

/-- A reader without strings has no kind for them. -/
def kindKept (strings : Bool) (code : Nat) : AirConstKind :=
  if strings = false ∧ constantKind code = .string then .unknown else constantKind code

def payloadKept (kind : AirConstKind) (ops : List Nat) : ConstantPayload :=
  match kind, ops with
  | .integer, raw::_ => .i64 (signedVbr raw)
  | .float, bits::_ => .f64 bits
  | .string, ops => .chars (ops.map UInt8.ofNat)
  | .data, ops | .aggregate, ops => .words (ops.map u32)
  | _, _ => .none

/-- The constant that a reader makes of a record. -/
def constantKept (strings : Bool) (p : Nat × BsRecord) : ConstantContent :=
  ⟨kindKept strings p.2.code, u32 p.1, payloadKept (kindKept strings p.2.code) p.2.ops⟩

/-- Where the arena ends behind the payload of a record. -/
def recordEnd (strings : Bool) (used : Nat) (r : BsRecord) : Nat :=
  match constantKind r.code with
  | .data | .aggregate => align8 used+4*r.ops.length
  | .string => if strings = true then align8 used+(r.ops.length+1) else used
  | _ => used

def constantsEnd (strings : Bool) (used : Nat) (rs : List BsRecord) : Nat :=
  rs.foldl (recordEnd strings) used

section
variable {env : ReaderEnv} {r : BsRecord}

/- A record by its kind. -/

theorem constantsRecord_kind (env : ReaderEnv) (m : AirModule) {w : ConstantsWalk}
    (hroom : w.entries.length < maxConsts) (hcode : r.code ≠ 1) :
    constantsRecord env m w r =
      match constantKind r.code with
      | .string =>
        let s := arenaInternString env (m.store w.ptr) r.ops
        if s.1 = 0 then .oom else w.pushBytes .string s.1 r.ops.length s.2
      | .data =>
        let s := arenaInternU32Array env (m.store w.ptr) r.ops
        w.pushBytes .data s.1 (4*r.ops.length) s.2
      | .aggregate =>
        let s := arenaInternU32Array env (m.store w.ptr) r.ops
        w.pushBytes .aggregate s.1 (4*r.ops.length) s.2
      | kind => .go (m.store w.ptr) (w.push kind (inlinePayload kind r)) := by
  obtain ⟨code, ops, blob⟩ := r
  rw [constantsRecord, if_neg (not_le.2 hroom), if_neg hcode]
  simp only
  split
  case h_9 =>
    have hkind : constantKind code = .unknown := by
      unfold constantKind
      split <;> simp_all
    rw [hkind]
  all_goals rfl

theorem localConstantsRecord_kind (env : ReaderEnv) (b : AirBody) {w : ConstantsWalk}
    (hroom : w.entries.length < maxLocalConsts) (hcode : r.code ≠ 1) :
    localConstantsRecord env b w r =
      let b := b.store w.ptr
      let payload (kind : AirConstKind) : AirBody × ConstantsWalk :=
        let s := b.internU32Array env r.ops
        let b := s.2.refresh
        let ptr := b.arena.ptr w.off
        (b.store ptr, { w.push kind (.bytes s.1 (4*r.ops.length)) with ptr := ptr })
      match constantKind r.code with
      | .data => some (payload .data)
      | .aggregate => some (payload .aggregate)
      | .string => some (b, w.push .unknown (inlinePayload .unknown r))
      | kind => some (b, w.push kind (inlinePayload kind r)) := by
  obtain ⟨code, ops, blob⟩ := r
  rw [localConstantsRecord, if_neg (not_le.2 hroom), if_neg hcode]
  simp only
  split
  case h_7 =>
    have hkind : constantKind code = .unknown ∨ constantKind code = .string := by
      unfold constantKind
      split <;> simp_all
    rcases hkind with hkind | hkind <;> rw [hkind]
  all_goals rfl

/- The arena behind a payload. -/

theorem arenaReserve_granted (hgrants : ∀ k, env.grants k = true) (a : Arena) (n : Nat) :
    (arenaReserve env a n).1 = u32 (align8 a.used) ∧
      (arenaReserve env a n).2.used = align8 a.used+n ∧
      (arenaReserve env a n).2.cells = a.cells := by
  simp only [arenaReserve, hgrants, if_true]
  split_ifs <;> exact ⟨rfl, rfl, rfl⟩

/-- A reservation that is filled when it succeeds. -/
def internAt (env : ReaderEnv) (a : Arena) (n : Nat) (c : Cell) : Nat × Arena :=
  let s := arenaReserve env a n
  (s.1, if s.1 = 0 then s.2 else s.2.put s.1 c)

theorem intern_internAt (env : ReaderEnv) (m : AirModule) (n : Nat) (c : Cell) :
    m.intern env n c = ((internAt env m.arena n c).1,
      { m with arena := (internAt env m.arena n c).2 }) := by
  unfold AirModule.intern internAt
  by_cases h : (arenaReserve env m.arena n).1 = 0
  · exact Prod.ext rfl ((if_pos h).trans (congrArg (fun a => { m with arena := a }) (if_pos h).symm))
  · exact Prod.ext rfl ((if_neg h).trans (congrArg (fun a => { m with arena := a }) (if_neg h).symm))

theorem internU32Array_internAt (env : ReaderEnv) (b : AirBody) (ops : List Nat) :
    b.internU32Array env ops =
      ((internAt env b.arena (4*ops.length) (.words (ops.map u32))).1,
        { b with arena := (internAt env b.arena (4*ops.length) (.words (ops.map u32))).2 }) := by
  unfold AirBody.internU32Array internAt
  by_cases h : (arenaReserve env b.arena (4*ops.length)).1 = 0
  · exact Prod.ext rfl ((if_pos h).trans (congrArg (fun a => { b with arena := a }) (if_pos h).symm))
  · exact Prod.ext rfl ((if_neg h).trans (congrArg (fun a => { b with arena := a }) (if_neg h).symm))

/-- A cell put at the end of an arena. -/
theorem internAt_cells (hgrants : ∀ k, env.grants k = true) {a : Arena} (hpos : 0 < a.used)
    (n : Nat) (c : Cell) (hlimit : align8 a.used+n ≤ 2^32) :
    (internAt env a n c).2.used = align8 a.used+n ∧
      (∀ o < a.used, (internAt env a n c).2.cells o = a.cells o) ∧
      (0 < n → (internAt env a n c).1 ≠ 0 ∧ (internAt env a n c).1 < (internAt env a n c).2.used ∧
        (internAt env a n c).2.cells (internAt env a n c).1 = some c) := by
  obtain ⟨hoff, hused, hcells⟩ := arenaReserve_granted hgrants a n
  have hal := align8_le a.used
  simp only [internAt]
  generalize arenaReserve env a n = s at hoff hused hcells ⊢
  by_cases htop : align8 a.used = 2^32
  · have hzero : s.1 = 0 := by rw [hoff, htop, u32, Nat.mod_self]
    rw [if_pos hzero]
    refine ⟨hused, fun o _ => by rw [hcells], fun hn => ?_⟩
    omega
  · have hword : s.1 = align8 a.used := by rw [hoff, u32, Nat.mod_eq_of_lt (by omega)]
    rw [if_neg (by omega)]
    refine ⟨hused, fun o ho => ?_, fun hn => ⟨by omega, ?_, Function.update_self ..⟩⟩
    · rw [← hcells]
      exact Function.update_of_ne (by omega) _ _
    · change s.1 < s.2.used
      omega

/-- The words put at the end of an arena stand there in each arena that keeps this one. -/
theorem payloadWords_internAt (hgrants : ∀ k, env.grants k = true) {a : Arena} (hpos : 0 < a.used)
    (ws : List Nat) {n : Nat} (hn : n = 4*ws.length) (hlimit : align8 a.used+n ≤ 2^32)
    (a' : Arena) (hkept : ∀ o < (internAt env a n (.words ws)).2.used,
      a'.cells o = (internAt env a n (.words ws)).2.cells o) :
    a'.payloadWords (internAt env a n (.words ws)).1 n = ws := by
  subst hn
  cases ws with
  | nil =>
    rw [Arena.payloadWords]
    cases a'.cells _ with
    | none => rfl
    | some c => cases c <;> rfl
  | cons v ws =>
    obtain ⟨-, -, hcell⟩ := internAt_cells hgrants hpos (4*(v::ws).length) (.words (v::ws)) hlimit
    obtain ⟨-, hlt, hat⟩ := hcell (by simp)
    rw [Arena.payloadWords, hkept _ hlt, hat]
    simp

/-- Likewise for a string with its terminator. -/
theorem payloadChars_internAt (hgrants : ∀ k, env.grants k = true) {a : Arena} (hpos : 0 < a.used)
    (bs : List UInt8) {n : Nat} (hn : n = bs.length) (hlimit : align8 a.used+(n+1) ≤ 2^32)
    (a' : Arena) (hkept : ∀ o < (internAt env a (n+1) (.bytes (bs++[0]))).2.used,
      a'.cells o = (internAt env a (n+1) (.bytes (bs++[0]))).2.cells o) :
    a'.payloadChars (internAt env a (n+1) (.bytes (bs++[0]))).1 n = bs := by
  subst hn
  obtain ⟨-, -, hcell⟩ := internAt_cells hgrants hpos (bs.length+1) (.bytes (bs++[0])) hlimit
  obtain ⟨-, hlt, hat⟩ := hcell (by omega)
  rw [Arena.payloadChars, hkept _ hlt, hat]
  exact List.take_left ..

/- One record. -/

/-- The constant reads as `c` in each arena that keeps this one. -/
def ReadsAs (a : Arena) (entry : AirConstant) (c : ConstantContent) : Prop :=
  ∀ a' : Arena, (∀ o < a.used, a'.cells o = a.cells o) → entry.content a' = c

/-- A record adds one constant, and at most its payload to the arena. -/
structure AddsConstant (strings : Bool) (a a₁ : Arena) (w w₁ : ConstantsWalk) (r : BsRecord) :
    Prop where
  used : a₁.used = recordEnd strings a.used r
  kept : ∀ o < a.used, a₁.cells o = a.cells o
  typed : w₁.currentType = w.currentType
  entry : ∃ c, w₁.entries = w.entries++[c] ∧
    ∀ ty, w.currentType = u32 ty → ReadsAs a₁ c (constantKept strings (ty, r))

/-- A constant without payload in the arena. -/
theorem inline_content {kind : AirConstKind} (hdata : kind ≠ .data) (hagg : kind ≠ .aggregate)
    (hstring : kind ≠ .string) (r : BsRecord) (ty : Nat) (a : Arena) :
    (⟨kind, ty, inlinePayload kind r⟩ : AirConstant).content a =
      ⟨kind, ty, payloadKept kind r.ops⟩ := by
  obtain ⟨code, ops, blob⟩ := r
  cases kind with
  | data => exact absurd rfl hdata
  | aggregate => exact absurd rfl hagg
  | string => exact absurd rfl hstring
  | _ => cases ops <;> rfl

/-- A record whose constant has its payload inline. -/
theorem inline_adds {strings : Bool} {kind : AirConstKind}
    (hkind : kindKept strings r.code = kind) (hdata : kind ≠ .data) (hagg : kind ≠ .aggregate)
    (hstring : kind ≠ .string) (a : Arena) (w : ConstantsWalk) :
    AddsConstant strings a a w (w.push kind (inlinePayload kind r)) r := by
  refine ⟨?_, fun _ _ => rfl, rfl, _, rfl, fun ty hty a' _ => ?_⟩
  · rw [kindKept] at hkind
    rw [recordEnd]
    cases strings <;> cases hcode : constantKind r.code <;> rw [hcode] at hkind <;> simp_all
  · rw [inline_content hdata hagg hstring, constantKept, hkind, hty]

/-- A record whose constant has words. -/
theorem words_adds (hgrants : ∀ k, env.grants k = true) {strings : Bool} {kind : AirConstKind}
    (hkind : constantKind r.code = kind) (hword : kind = .data ∨ kind = .aggregate) {a : Arena}
    (hpos : 0 < a.used) (hlimit : recordEnd strings a.used r ≤ 2^32) {w w₁ : ConstantsWalk}
    (htyped : w₁.currentType = w.currentType)
    (hentries : w₁.entries = w.entries++[⟨kind, w.currentType,
      .bytes (internAt env a (4*r.ops.length) (.words (r.ops.map u32))).1 (4*r.ops.length)⟩]) :
    AddsConstant strings a (internAt env a (4*r.ops.length) (.words (r.ops.map u32))).2 w w₁ r := by
  have hkept : kindKept strings r.code = kind := by
    rw [kindKept, hkind]
    rcases hword with rfl | rfl <;> simp
  have hend : recordEnd strings a.used r = align8 a.used+4*r.ops.length := by
    rw [recordEnd, hkind]
    rcases hword with rfl | rfl <;> rfl
  rw [hend] at hlimit
  obtain ⟨hused, hbelow, -⟩ := internAt_cells hgrants hpos _ (.words (r.ops.map u32)) hlimit
  refine ⟨by rw [hused, hend], hbelow, htyped, _, hentries, fun ty hty a' hcells => ?_⟩
  have hat := payloadWords_internAt hgrants hpos (r.ops.map u32) (by rw [List.length_map]) hlimit a'
    hcells
  rw [constantKept, hkept, ← hty]
  rcases hword with rfl | rfl <;> simp only [AirConstant.content, payloadKept, hat]

theorem constantsRecord_adds (hgrants : ∀ k, env.grants k = true) {m : AirModule}
    {w : ConstantsWalk} (hpos : 0 < m.arena.used) (hroom : w.entries.length < maxConsts)
    (hcode : r.code ≠ 1) (hlimit : recordEnd true m.arena.used r ≤ 2^32) :
    ∃ m₁ w₁, constantsRecord env m w r = .go m₁ w₁ ∧
      AddsConstant true m.arena m₁.arena w w₁ r := by
  rw [constantsRecord_kind env m hroom hcode]
  have hkept : kindKept true r.code = constantKind r.code := by simp [kindKept]
  cases hkind : constantKind r.code with
  | string =>
    have hend : recordEnd true m.arena.used r = align8 m.arena.used+(r.ops.length+1) := by
      rw [recordEnd, hkind]
      rfl
    rw [hend] at hlimit
    obtain ⟨hused, hbelow, hcell⟩ := internAt_cells hgrants hpos (r.ops.length+1)
      (charCell r.ops) hlimit
    simp only [arenaInternString, intern_internAt]
    have hsome : (internAt env (m.store w.ptr).arena (r.ops.length+1) (charCell r.ops)).1 ≠ 0 :=
      (hcell (by omega)).1
    rw [if_neg hsome]
    refine ⟨_, _, rfl, by rw [hend]; exact hused, hbelow, rfl, _, rfl, fun ty hty a' hcells => ?_⟩
    have hat := payloadChars_internAt hgrants hpos (r.ops.map UInt8.ofNat)
      (by rw [List.length_map]) hlimit a' hcells
    rw [constantKept, hkept, hkind, ← hty]
    exact congrArg (ConstantContent.mk _ _ ∘ ConstantPayload.chars) hat
  | data =>
    simp only [arenaInternU32Array, intern_internAt]
    exact ⟨_, _, rfl, words_adds hgrants hkind (.inl rfl) hpos hlimit rfl rfl⟩
  | aggregate =>
    simp only [arenaInternU32Array, intern_internAt]
    exact ⟨_, _, rfl, words_adds hgrants hkind (.inr rfl) hpos hlimit rfl rfl⟩
  | _ =>
    exact ⟨_, _, rfl, inline_adds (hkept.trans hkind) (by simp) (by simp) (by simp) m.arena w⟩

theorem localConstantsRecord_adds (hgrants : ∀ k, env.grants k = true) {b : AirBody}
    {w : ConstantsWalk} (hpos : 0 < b.arena.used) (hroom : w.entries.length < maxLocalConsts)
    (hcode : r.code ≠ 1) (hlimit : recordEnd false b.arena.used r ≤ 2^32) :
    ∃ b₁ w₁, localConstantsRecord env b w r = some (b₁, w₁) ∧
      AddsConstant false b.arena b₁.arena w w₁ r := by
  rw [localConstantsRecord_kind env b hroom hcode]
  cases hkind : constantKind r.code with
  | string =>
    have hkept : kindKept false r.code = .unknown := by simp [kindKept, hkind]
    exact ⟨_, _, rfl, inline_adds hkept (by simp) (by simp) (by simp) b.arena w⟩
  | data =>
    simp only [internU32Array_internAt]
    exact ⟨_, _, rfl, words_adds hgrants hkind (.inl rfl) hpos hlimit rfl rfl⟩
  | aggregate =>
    simp only [internU32Array_internAt]
    exact ⟨_, _, rfl, words_adds hgrants hkind (.inr rfl) hpos hlimit rfl rfl⟩
  | _ =>
    have hkept : kindKept false r.code = constantKind r.code := by simp [kindKept, hkind]
    exact ⟨_, _, rfl, inline_adds (hkept.trans hkind) (by simp) (by simp) (by simp) b.arena w⟩

/- A run over the records of a block. -/

theorem le_recordEnd (strings : Bool) (used : Nat) (r : BsRecord) :
    used ≤ recordEnd strings used r := by
  have hal := align8_le used
  rw [recordEnd]
  split
  · omega
  · omega
  · split_ifs <;> omega
  · exact le_rfl

theorem le_constantsEnd (strings : Bool) (rs : List BsRecord) : ∀ used,
    used ≤ constantsEnd strings used rs := by
  induction rs with
  | nil => exact fun used => le_rfl
  | cons r rs ih => exact fun used => (le_recordEnd strings used r).trans (ih _)

/-- What the two loops have in common: a type, a constant, or the table is full. -/
inductive TableRun (strings : Bool) (cap : Nat) :
    Arena → ConstantsWalk → List BsRecord → Arena → ConstantsWalk → Prop
  | done (a : Arena) (w : ConstantsWalk) : TableRun strings cap a w [] a w
  | full {a : Arena} {w : ConstantsWalk} (r : BsRecord) (rs : List BsRecord)
      (h : cap ≤ w.entries.length) : TableRun strings cap a w (r::rs) a w
  | settype {a a₁ : Arena} {w w₁ : ConstantsWalk} {r : BsRecord} {rs : List BsRecord}
      (hcode : r.code = 1)
      (h : TableRun strings cap a
        { w with currentType := (r.ops.head?.map u32).getD w.currentType } rs a₁ w₁) :
      TableRun strings cap a w (r::rs) a₁ w₁
  | constant {a a' a₁ : Arena} {w w' w₁ : ConstantsWalk} {r : BsRecord} {rs : List BsRecord}
      (hroom : w.entries.length < cap) (hcode : r.code ≠ 1)
      (hadds : AddsConstant strings a a' w w' r) (h : TableRun strings cap a' w' rs a₁ w₁) :
      TableRun strings cap a w (r::rs) a₁ w₁

/-- The constants of a run: as many as there is room for, and the arena keeps their payloads. -/
theorem TableRun.reads {strings : Bool} {cap : Nat} {a a₁ : Arena} {w w₁ : ConstantsWalk}
    {rs : List BsRecord} (h : TableRun strings cap a w rs a₁ w₁) :
    ∀ ty, w.currentType = u32 ty →
      a.used ≤ a₁.used ∧ (∀ o < a.used, a₁.cells o = a.cells o) ∧
        ∃ added, w₁.entries = w.entries++added ∧ added.map (AirConstant.content a₁) =
          ((typedRecords ty rs).map (constantKept strings)).take (cap-w.entries.length) := by
  induction h with
  | done a w =>
    refine fun ty _ => ⟨le_rfl, fun _ _ => rfl, [], (List.append_nil _).symm, ?_⟩
    rw [typedRecords, List.map_nil, List.map_nil, List.take_nil]
  | full r rs hfull =>
    refine fun ty _ => ⟨le_rfl, fun _ _ => rfl, [], (List.append_nil _).symm, ?_⟩
    rw [Nat.sub_eq_zero_of_le hfull]
    rfl
  | @settype a a₁ w w₁ r rs hcode _ ih =>
    intro ty hty
    rw [typedRecords, if_pos hcode]
    refine ih (r.ops.headD ty) ?_
    cases r.ops with
    | nil => exact hty
    | cons op ops => rfl
  | @constant a a' a₁ w w' w₁ r rs hroom hcode hadds _ ih =>
    intro ty hty
    obtain ⟨c, hc, hreads⟩ := hadds.entry
    obtain ⟨hused, hkept, added, hadded, hcontents⟩ := ih ty (hadds.typed.trans hty)
    have hgrows : a.used ≤ a'.used := hadds.used ▸ le_recordEnd strings a.used r
    refine ⟨hgrows.trans hused, fun o ho => ?_, c::added, ?_, ?_⟩
    · rw [hkept o (lt_of_lt_of_le ho hgrows), hadds.kept o ho]
    · rw [hadded, hc, List.append_assoc]
      rfl
    · have hleft : cap-w.entries.length = cap-w'.entries.length+1 := by
        rw [hc, List.length_append, List.length_singleton]
        omega
      rw [typedRecords, if_neg hcode, List.map_cons, hcontents, hreads ty hty a₁ hkept, hleft]
      rfl

theorem decodeConstants_run (hgrants : ∀ k, env.grants k = true) (rs : List BsRecord) :
    ∀ (m : AirModule) (w : ConstantsWalk), 0 < m.arena.used →
      constantsEnd true m.arena.used rs ≤ 2^32 →
      ∃ m₁ w₁, decodeConstants env m w rs = some (m₁, w₁) ∧
        TableRun true maxConsts m.arena w rs m₁.arena w₁ := by
  induction rs with
  | nil => exact fun m w _ _ => ⟨m, w, rfl, .done _ _⟩
  | cons r rs ih =>
    intro m w hpos hlimit
    rw [decodeConstants]
    by_cases hfull : maxConsts ≤ w.entries.length
    · rw [constantsRecord, if_pos hfull]
      exact ⟨m, w, rfl, .full r rs hfull⟩
    · have hroom := not_le.1 hfull
      by_cases hcode : r.code = 1
      · have hsame : recordEnd true m.arena.used r = m.arena.used := by
          rw [recordEnd, hcode]
          rfl
        rw [constantsEnd, List.foldl_cons, hsame] at hlimit
        rw [constantsRecord, if_neg hfull, if_pos hcode]
        obtain ⟨m₁, w₁, heq, hrun⟩ := ih m
          { w with currentType := (r.ops.head?.map u32).getD w.currentType } hpos hlimit
        refine ⟨m₁, w₁, ?_, .settype hcode hrun⟩
        cases hops : r.ops with
        | nil =>
          rw [hops] at heq
          exact heq
        | cons op ops =>
          rw [hops] at heq
          exact heq
      · have hend : recordEnd true m.arena.used r ≤ 2^32 :=
          (le_constantsEnd true rs _).trans hlimit
        obtain ⟨m', w', heq, hadds⟩ := constantsRecord_adds hgrants hpos hroom hcode hend
        rw [constantsEnd, List.foldl_cons, ← hadds.used] at hlimit
        have hpos' : 0 < m'.arena.used :=
          lt_of_lt_of_le hpos (hadds.used ▸ le_recordEnd true m.arena.used r)
        obtain ⟨m₁, w₁, heq₁, hrun⟩ := ih m' w' hpos' hlimit
        rw [heq]
        exact ⟨m₁, w₁, heq₁, .constant hroom hcode hadds hrun⟩

theorem decodeLocalConstants_run (hgrants : ∀ k, env.grants k = true) (rs : List BsRecord) :
    ∀ (b : AirBody) (w : ConstantsWalk), 0 < b.arena.used →
      constantsEnd false b.arena.used rs ≤ 2^32 →
      TableRun false maxLocalConsts b.arena w rs (decodeLocalConstants env b w rs).1.arena
        (decodeLocalConstants env b w rs).2 := by
  induction rs with
  | nil => exact fun b w _ _ => .done _ _
  | cons r rs ih =>
    intro b w hpos hlimit
    rw [decodeLocalConstants]
    by_cases hfull : maxLocalConsts ≤ w.entries.length
    · rw [localConstantsRecord, if_pos hfull]
      exact .full r rs hfull
    · have hroom := not_le.1 hfull
      by_cases hcode : r.code = 1
      · have hsame : recordEnd false b.arena.used r = b.arena.used := by
          rw [recordEnd, hcode]
          rfl
        rw [constantsEnd, List.foldl_cons, hsame] at hlimit
        rw [localConstantsRecord, if_neg hfull, if_pos hcode]
        have hrun := ih b { w with currentType := (r.ops.head?.map u32).getD w.currentType }
          hpos hlimit
        refine .settype hcode ?_
        cases hops : r.ops with
        | nil =>
          rw [hops] at hrun
          exact hrun
        | cons op ops =>
          rw [hops] at hrun
          exact hrun
      · have hend : recordEnd false b.arena.used r ≤ 2^32 :=
          (le_constantsEnd false rs _).trans hlimit
        obtain ⟨b', w', heq, hadds⟩ := localConstantsRecord_adds hgrants hpos hroom hcode hend
        rw [constantsEnd, List.foldl_cons, ← hadds.used] at hlimit
        have hpos' : 0 < b'.arena.used :=
          lt_of_lt_of_le hpos (hadds.used ▸ le_recordEnd false b.arena.used r)
        rw [heq]
        exact .constant hroom hcode hadds (ih b' w' hpos' hlimit)

/- Where what is kept is what is denoted. -/

/-- A record with nothing that a reader cuts off or does not know. -/
def ConstantFits (strings : Bool) (p : Nat × BsRecord) : Prop :=
  p.1 < 2^32 ∧ match constantKind p.2.code with
    | .integer => p.2.ops.head? ≠ some 1
    | .data | .aggregate => ∀ op ∈ p.2.ops, op < 2^32
    | .string => strings = true
    | _ => True

theorem signedVbr_signRotated {raw : Nat} : signedVbr raw = signRotated raw ↔ raw ≠ 1 := by
  by_cases h : raw = 1
  · subst h
    exact iff_of_false (by decide) (by simp)
  · exact iff_of_true (if_neg h).symm h

theorem u32_eq_self {v : Nat} : u32 v = v ↔ v < 2^32 := by
  rw [u32]
  omega

theorem map_u32_eq_self {ops : List Nat} : ops.map u32 = ops ↔ ∀ op ∈ ops, op < 2^32 := by
  have hself : ops.map u32 = ops ↔ ops.map u32 = ops.map id := by rw [List.map_id]
  rw [hself, List.map_inj_left]
  exact forall₂_congr fun op _ => u32_eq_self

theorem constantKept_denoted (strings : Bool) (p : Nat × BsRecord) :
    constantKept strings p = constantDenoted p ↔ ConstantFits strings p := by
  obtain ⟨ty, code, ops, blob⟩ := p
  simp only [constantKept, constantDenoted, ConstantFits, kindKept, ConstantContent.mk.injEq,
    u32_eq_self]
  cases hkind : constantKind code with
  | integer => cases ops <;> simp [payloadKept, signedVbr_signRotated, and_comm]
  | string => cases strings <;> simp [payloadKept, and_comm]
  | data => simp [payloadKept, map_u32_eq_self]
  | aggregate => simp [payloadKept, map_u32_eq_self]
  | float => cases ops <;> simp [payloadKept]
  | _ => simp [payloadKept]

theorem take_map_eq_map {α β : Type} {f g : α → β} {n : Nat} {l : List α} :
    (l.map f).take n = l.map g ↔ l.length ≤ n ∧ ∀ x ∈ l, f x = g x := by
  constructor
  · intro h
    have hlen := congrArg List.length h
    rw [List.length_take, List.length_map, List.length_map, min_eq_right_iff] at hlen
    rw [List.take_of_length_le (by rwa [List.length_map])] at h
    exact ⟨hlen, List.map_inj_left.1 h⟩
  · rintro ⟨hlen, h⟩
    rw [List.take_of_length_le (by rwa [List.length_map])]
    exact List.map_congr_left h

/- The two readers. -/

/-- What a module gets for the records of a CONSTANTS block; `none` is an error. -/
def readModuleConstants (env : ReaderEnv) (m : AirModule) (off : Nat) (rs : List BsRecord) :
    Option (List ConstantContent) :=
  (decodeConstants env m ⟨off, m.arena.ptr off, [], 0⟩ rs).map fun s =>
    s.2.entries.map (AirConstant.content s.1.arena)

/-- What a function body gets. -/
def readLocalConstants (env : ReaderEnv) (b : AirBody) (off : Nat) (rs : List BsRecord) :
    List ConstantContent :=
  let s := decodeLocalConstants env b ⟨off, b.arena.ptr off, [], 0⟩ rs
  s.2.entries.map (AirConstant.content s.1.arena)

theorem readModuleConstants_eq (hgrants : ∀ k, env.grants k = true) (m : AirModule) (off : Nat)
    (rs : List BsRecord) (hpos : 0 < m.arena.used)
    (hlimit : constantsEnd true m.arena.used rs ≤ 2^32) :
    readModuleConstants env m off rs =
      some (((typedRecords 0 rs).map (constantKept true)).take maxConsts) := by
  obtain ⟨m₁, w₁, heq, hrun⟩ := decodeConstants_run hgrants rs m ⟨off, m.arena.ptr off, [], 0⟩
    hpos hlimit
  obtain ⟨-, -, added, hadded, hcontents⟩ := hrun.reads 0 rfl
  rw [List.nil_append] at hadded
  rw [readModuleConstants, heq, Option.map_some, hadded, hcontents]
  rfl

theorem readLocalConstants_eq (hgrants : ∀ k, env.grants k = true) (b : AirBody) (off : Nat)
    (rs : List BsRecord) (hpos : 0 < b.arena.used)
    (hlimit : constantsEnd false b.arena.used rs ≤ 2^32) :
    readLocalConstants env b off rs =
      ((typedRecords 0 rs).map (constantKept false)).take maxLocalConsts := by
  have hrun := decodeLocalConstants_run hgrants rs b ⟨off, b.arena.ptr off, [], 0⟩ hpos hlimit
  obtain ⟨-, -, added, hadded, hcontents⟩ := hrun.reads 0 rfl
  rw [List.nil_append] at hadded
  rw [readLocalConstants, hadded, hcontents]
  rfl

/-- Both readers come to what the records denote, and so to the same constants. -/
def ConstantsDecoded (env : ReaderEnv) (m : AirModule) (b : AirBody) (off off' : Nat)
    (rs : List BsRecord) : Prop :=
  readModuleConstants env m off rs = some ((typedRecords 0 rs).map constantDenoted) ∧
    readLocalConstants env b off' rs = (typedRecords 0 rs).map constantDenoted ∧
    readModuleConstants env m off rs = some (readLocalConstants env b off' rs)

theorem constants_decoded_iff (hgrants : ∀ k, env.grants k = true) (m : AirModule)
    (b : AirBody) (off off' : Nat) (rs : List BsRecord) (hm : 0 < m.arena.used)
    (hb : 0 < b.arena.used) (hmlimit : constantsEnd true m.arena.used rs ≤ 2^32)
    (hblimit : constantsEnd false b.arena.used rs ≤ 2^32) :
    ConstantsDecoded env m b off off' rs ↔
      (typedRecords 0 rs).length ≤ maxLocalConsts ∧
        ∀ p ∈ typedRecords 0 rs, ConstantFits false p := by
  have hmod := readModuleConstants_eq hgrants m off rs hm hmlimit
  have hloc := readLocalConstants_eq hgrants b off' rs hb hblimit
  have hcap : maxLocalConsts ≤ maxConsts := by decide
  simp only [ConstantsDecoded, hmod, hloc, Option.some.injEq]
  simp only [take_map_eq_map, constantKept_denoted]
  constructor
  · exact fun h => h.2.1
  · intro h
    have hfits : ∀ p ∈ typedRecords 0 rs, ConstantFits true p := by
      intro p hp
      obtain ⟨hty, hop⟩ := h.2 p hp
      refine ⟨hty, ?_⟩
      cases hkind : constantKind p.2.code <;> rw [hkind] at hop <;> simp_all
    have hmoded := take_map_eq_map.2 ⟨h.1.trans hcap, fun p hp =>
      (constantKept_denoted true p).2 (hfits p hp)⟩
    have hloced := take_map_eq_map.2 ⟨h.1, fun p hp => (constantKept_denoted false p).2 (h.2 p hp)⟩
    exact ⟨⟨h.1.trans hcap, hfits⟩, h, hmoded.trans hloced.symm⟩

end

/- A type, an integer, its null and a vector: `i32 -21, null, <i32 7, i32 8>`. -/
def threeConstants : List BsRecord :=
  [⟨1, [3], none⟩, ⟨4, [43], none⟩, ⟨2, [], none⟩, ⟨22, [7, 8], none⟩]

def smallModule : AirModule := { arena := Arena.init (16*1024) 2 }

def smallBody : AirBody := { arena := Arena.init (4*1024) 2, instsOff := 8, instsPtr := ⟨0, 8⟩ }

theorem three_constants_decoded :
    ConstantsDecoded allGranted smallModule smallBody 8 8 threeConstants :=
  (constants_decoded_iff (fun _ => rfl) smallModule smallBody 8 8 threeConstants (by decide)
    (by decide) (by decide) (by decide)).2 ⟨by decide, by
      simp [threeConstants, typedRecords, ConstantFits, constantKind]⟩

/-- The least integer of 64 bits is read as 0. -/
theorem least_integer_read_as_zero :
    signRotate (-2^63) = 1 ∧
      ¬ConstantsDecoded allGranted smallModule smallBody 8 8 [⟨1, [3], none⟩, ⟨4, [1], none⟩] := by
  refine ⟨by decide, fun h => ?_⟩
  have hread : readModuleConstants allGranted smallModule 8 [⟨1, [3], none⟩, ⟨4, [1], none⟩] =
      some [⟨.integer, 3, .i64 0⟩] := by decide
  have hsame := h.1.symm.trans hread
  revert hsame
  decide

/- The loops of the reader over a block. -/

/-- The records of a block from a cursor on, as the loops come to them. -/
inductive RecordsAt (buf : List UInt8) : BsBlock → Nat → List BsRecord → Prop
  | past {blk : BsBlock} {pos : Nat} (h : blk.endPos ≤ pos) : RecordsAt buf blk pos []
  | broken {blk : BsBlock} {pos : Nat} (hpos : ¬blk.endPos ≤ pos)
      (h : blockNextRecord buf blk pos = none) : RecordsAt buf blk pos []
  | stop {blk blk' : BsBlock} {pos pos' : Nat} (hpos : ¬blk.endPos ≤ pos)
      (h : blockNextRecord buf blk pos = some (.stop, blk', pos')) : RecordsAt buf blk pos []
  | subblock {blk blk' : BsBlock} {pos pos' id : Nat} {rs : List BsRecord}
      (hpos : ¬blk.endPos ≤ pos)
      (h : blockNextRecord buf blk pos = some (.subblock id, blk', pos'))
      (hrest : RecordsAt buf blk' (skipCursor buf blk'.abbrevWidth pos') rs) :
      RecordsAt buf blk pos rs
  | define {blk blk' : BsBlock} {pos pos' : Nat} {rs : List BsRecord} (hpos : ¬blk.endPos ≤ pos)
      (h : blockNextRecord buf blk pos = some (.define, blk', pos'))
      (hrest : RecordsAt buf blk' pos' rs) : RecordsAt buf blk pos rs
  | record {blk blk' : BsBlock} {pos pos' : Nat} {r : BsRecord} {rs : List BsRecord}
      (hpos : ¬blk.endPos ≤ pos)
      (h : blockNextRecord buf blk pos = some (.record r, blk', pos'))
      (hrest : RecordsAt buf blk' pos' rs) : RecordsAt buf blk pos (r::rs)

section
variable {env : ReaderEnv} {buf : List UInt8} {blk : BsBlock} {pos : Nat} {rs : List BsRecord}

/-- The loop of the module ends as the fold over its records does. -/
def LeavesConstants (env : ReaderEnv) (buf : List UInt8) (outer : Option ModuleWalk)
    (s : Reader) : Option (AirModule × ConstantsWalk) → Prop
  | none => Machine.Returns (readerStep env buf) s (.error .outOfMemory)
  | some (m₁, w₁) => ∃ pos₁, Machine.Reaches (readerStep env buf) s
      ⟨(Inner.constants w₁).close m₁, pos₁, outer, none⟩

theorem LeavesConstants.step {outer : Option ModuleWalk} {s t : Reader}
    {o : Option (AirModule × ConstantsWalk)} (h : readerStep env buf s = .inl t)
    (hleaves : LeavesConstants env buf outer t o) : LeavesConstants env buf outer s o := by
  cases o with
  | none => exact (Machine.reaches_step h).returns hleaves
  | some p =>
    obtain ⟨pos₁, hreach⟩ := hleaves
    exact ⟨pos₁, (Machine.reaches_step h).trans hreach⟩

theorem constants_block_loop (h : RecordsAt buf blk pos rs) (outer : Option ModuleWalk) :
    ∀ (m : AirModule) (w : ConstantsWalk),
      LeavesConstants env buf outer ⟨m, pos, outer, some ⟨blk, .constants w⟩⟩
        (decodeConstants env m w rs) := by
  induction h with
  | @past blk pos h =>
    refine fun m w => ⟨seekCursor buf blk.endPos pos, Machine.reaches_step ?_⟩
    simp only [readerStep, subStep, if_pos h, Inner.closeCursor]
  | @broken blk pos hpos h =>
    refine fun m w => ⟨seekCursor buf blk.endPos (nextRecordStop buf blk pos),
      Machine.reaches_step ?_⟩
    simp only [readerStep, subStep, if_neg hpos, h, Inner.closeCursor]
  | @stop blk blk' pos pos' hpos h =>
    refine fun m w => ⟨seekCursor buf blk.endPos pos', Machine.reaches_step ?_⟩
    simp only [readerStep, subStep, if_neg hpos, h, Inner.closeCursor]
  | subblock hpos h _ ih =>
    intro m w
    refine .step ?_ (ih m w)
    simp only [readerStep, subStep, if_neg hpos, h, Inner.subblock]
  | define hpos h _ ih =>
    intro m w
    refine .step ?_ (ih m w)
    simp only [readerStep, subStep, if_neg hpos, h, Inner.define]
  | @record blk blk' pos pos' r rs hpos h _ ih =>
    intro m w
    rw [decodeConstants]
    cases hr : constantsRecord env m w r with
    | go m' w' =>
      refine .step ?_ (ih m' w')
      simp only [readerStep, subStep, if_neg hpos, h, Inner.record, hr, Handled.map]
    | leave m' w' =>
      refine ⟨seekCursor buf blk.endPos pos', Machine.reaches_step ?_⟩
      simp only [readerStep, subStep, if_neg hpos, h, Inner.record, hr, Handled.map,
        Inner.closeCursor]
    | oom =>
      refine Machine.returns_step ?_
      simp only [readerStep, subStep, if_neg hpos, h, Inner.record, hr, Handled.map]

/-- The loop of a body likewise. -/
theorem local_constants_block_loop {info : Blockinfo} (h : RecordsAt buf blk pos rs)
    (outer : BsBlock) : ∀ (b : AirBody) (w : ConstantsWalk), ∃ pos₁,
      Machine.Reaches (bodyStep env info buf) ⟨b, pos, outer, some (blk, w)⟩
        ⟨{ (decodeLocalConstants env b w rs).1 with
            localConstantsOff := (decodeLocalConstants env b w rs).2.off
            localConstants := (decodeLocalConstants env b w rs).2.entries },
          pos₁, outer, none⟩ := by
  induction h with
  | @past blk pos h =>
    refine fun b w => ⟨seekCursor buf blk.endPos pos, Machine.reaches_step ?_⟩
    simp only [bodyStep, localConstantsStep, if_pos h, decodeLocalConstants]
  | @broken blk pos hpos h =>
    refine fun b w => ⟨seekCursor buf blk.endPos (nextRecordStop buf blk pos),
      Machine.reaches_step ?_⟩
    simp only [bodyStep, localConstantsStep, if_neg hpos, h, decodeLocalConstants]
  | @stop blk blk' pos pos' hpos h =>
    refine fun b w => ⟨seekCursor buf blk.endPos pos', Machine.reaches_step ?_⟩
    simp only [bodyStep, localConstantsStep, if_neg hpos, h, decodeLocalConstants]
  | subblock hpos h _ ih =>
    intro b w
    obtain ⟨pos₁, hreach⟩ := ih b w
    refine ⟨pos₁, (Machine.reaches_step ?_).trans hreach⟩
    simp only [bodyStep, localConstantsStep, if_neg hpos, h]
  | define hpos h _ ih =>
    intro b w
    obtain ⟨pos₁, hreach⟩ := ih b w
    refine ⟨pos₁, (Machine.reaches_step ?_).trans hreach⟩
    simp only [bodyStep, localConstantsStep, if_neg hpos, h]
  | @record blk blk' pos pos' r rs hpos h _ ih =>
    intro b w
    rw [decodeLocalConstants]
    cases hr : localConstantsRecord env b w r with
    | none =>
      refine ⟨seekCursor buf blk.endPos pos', Machine.reaches_step ?_⟩
      simp only [bodyStep, localConstantsStep, if_neg hpos, h, hr]
    | some s =>
      obtain ⟨b', w'⟩ := s
      obtain ⟨pos₁, hreach⟩ := ih b' w'
      refine ⟨pos₁, (Machine.reaches_step ?_).trans hreach⟩
      simp only [bodyStep, localConstantsStep, if_neg hpos, h, hr]

end

end Lagfx
