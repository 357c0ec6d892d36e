import Lagfx.ObjectResolver
import Lagfx.Lib.Concat

/-! A buffer object is the ranges of its placement descriptor, one behind the other; four
readers walk them. -/
namespace Lagfx
open Concat ByteMemory

def sub64 (a b : Nat) : Nat := (a+2^64-b)%2^64

def drawDsBufSz : Nat := 64*1024
def bigvertsBufSz : Nat := 16*1024*1024

/- The page loop: the bytes before the first page that is not mapped. As many rounds as
   bytes are always enough. -/
def besteffortChunks (s : State) (task : TaskEntry) : Nat → Nat → Nat → List UInt8
  | 0, _, _ => []
  | rounds+1, va, len =>
    if len = 0 then []
    else
      let chunk := min (pageBytes-va%pageBytes) len
      match taskReadVirtual s task va chunk with
      | none => []
      | some b => b++besteffortChunks s task rounds (u64 (va+chunk)) (len-chunk)

/-- `lagfx_read_virtual_besteffort`: what is read; the rest of the buffer is zero. -/
def readVirtualBesteffort (s : State) (task : TaskEntry) (va len : Nat) : Option (List UInt8) :=
  let b := besteffortChunks s task len va len
  if b = [] then none else some b

/-- `lagfx_read_resource_backing`: through the task's pages where the address has one. -/
def readResourceBacking (s : State) (task : TaskEntry) (gpa len : Nat) : Option (List UInt8) :=
  if (taskTranslate s task gpa).isSome then readVirtualBesteffort s task gpa len
  else (s.readMemory gpa len).or (readVirtualBesteffort s task gpa len)

/-- A `{u64 size, u32 pfn, u32 flags}` entry. -/
structure PlacementRange where
  size : Nat
  pfn : Nat
deriving DecidableEq, Repr

def PlacementRange.plausible (r : PlacementRange) : Bool :=
  decide (0x10 ≤ r.pfn ∧ r.pfn ≤ 0xfffff ∧ r.size ≠ 0)

/-- The entries that no walk skips. -/
def placementRanges (desc : List UInt8) : List PlacementRange :=
  ((List.range 4).map fun e => ⟨le64 desc (e*16), le64 desc (e*16+8)%2^32⟩).filter
    PlacementRange.plausible

/-- Bytes that a walk puts at `pos` of its buffer: it reads them `within` the range. -/
structure PlacementRead where
  pos : Nat
  range : Nat
  within : Nat
  bytes : List UInt8
deriving DecidableEq, Repr

def PlacementRange.addr (r : PlacementRange) (within : Nat) : Nat := u64 (r.pfn*2^12+within)

/-- The walk that reads all it wants from the first range found above the offset. -/
def readMatched (read : Nat → Nat → Option (List UInt8)) (off len : Nat) :
    List PlacementRange → Nat → Nat → List PlacementRead
  | [], _, _ => []
  | r::rs, e, acc =>
    if off < u64 (acc+r.size) then
      let within := sub64 off acc
      match read (r.addr within) len with
      | none => []
      | some b => [⟨0, e, within, b⟩]
    else readMatched read off len rs (e+1) (u64 (acc+r.size))

/-- The walk that goes on in the next range, until it has all it wants or a read fails. -/
def readGathered (read : Nat → Nat → Option (List UInt8)) (want : Nat) :
    List PlacementRange → Nat → Nat → Nat → Nat → List PlacementRead
  | [], _, _, _, _ => []
  | r::rs, e, acc, logical, filled =>
    if want ≤ filled then []
    else if logical < u64 (acc+r.size) then
      let within := sub64 logical acc
      let avail := sub64 r.size within
      let chunk := if avail < want-filled then u32 avail else want-filled
      match read (r.addr within) chunk with
      | none => []
      | some b => ⟨filled, e, within, b⟩ :: readGathered read want rs (e+1) (u64 (acc+r.size))
          (u64 (logical+chunk)) (filled+chunk)
    else readGathered read want rs (e+1) (u64 (acc+r.size)) logical filled

/-- `lagfx_read_binding_slot`, `lagfx_read_vtx_source` in placement mode, the gather of
`lagfx_upload_guest_vertex_buffer` and the walk of `lagfx_build_draw_descriptor_set`. -/
inductive PlacementReader where
  | bindingSlot (len : Nat)
  | vtxSource (mode want : Nat)
  | upload (bigverts : Bool)
  | descriptorSet
deriving DecidableEq, Repr

/-- What a reader takes from the object. -/
def PlacementReader.reads (s : State) (task : TaskEntry) (ranges : List PlacementRange)
    (off : Nat) : PlacementReader → List PlacementRead
  | .bindingSlot len => readMatched (readResourceBacking s task) off (u32 len) ranges 0 0
  | .vtxSource mode want =>
    readGathered (if mode = 1 then taskReadVirtual s task else readResourceBacking s task)
      (u32 want) ranges 0 0 off 0
  | .upload bigverts =>
    readGathered (readResourceBacking s task) (if bigverts then bigvertsBufSz else drawDsBufSz)
      ranges 0 0 off 0
  | .descriptorSet => readMatched (readResourceBacking s task) off drawDsBufSz ranges 0 0

/-- Position `i` of the buffer holds the byte `b`, taken from the place `c`. -/
def Delivers (reads : List PlacementRead) (i : Nat) (c : Nat × Nat) (b : UInt8) : Prop :=
  ∃ r ∈ reads, r.pos ≤ i ∧ c = (r.range, r.within+(i-r.pos)) ∧ r.bytes[i-r.pos]? = some b

/-- The sizes of the ranges: the object is their concatenation. -/
def placementSizes (ranges : List PlacementRange) : List Nat := ranges.map PlacementRange.size

/-- Readers that deliver logical bytes and agree. -/
structure WalksRight (s : State) (task : TaskEntry) (ranges : List PlacementRange) (off : Nat)
    (readers : List PlacementReader) : Prop where
  logical : ∀ reader ∈ readers, ∀ i c b, Delivers (reader.reads s task ranges off) i c b →
    locate (placementSizes ranges) (off+i) = some c
  agree : ∀ reader ∈ readers, ∀ reader' ∈ readers, ∀ i c c' b b',
    Delivers (reader.reads s task ranges off) i c b →
    Delivers (reader'.reads s task ranges off) i c' b' → b = b'

/-- What a reader of the matched range takes ends before the range does, and no sum of sizes
has wrapped on the way. -/
def MatchedFits (sizes : List Nat) (off len : Nat) : Prop :=
  len = 0 ∨ ∀ e < sizes.length, off < u64 (start 0 sizes (e+1)) →
    (∀ e' < e, u64 (start 0 sizes (e'+1)) ≤ off) →
    off+len ≤ start 0 sizes (e+1) ∧ start 0 sizes (e+1) < 2^64

/-- No range behind the one where the sum of the sizes wraps ends above the position that the
gather is stopped at, when it gets there. -/
def GatheredFits (base : Nat) (sizes : List Nat) (off want : Nat) : Prop :=
  ∀ c e, c < e → e < sizes.length → start base sizes c < 2^64 →
    2^64 ≤ start base sizes (c+1) → max off (start base sizes c) < off+want →
    u64 (start base sizes (e+1)) ≤ max off (start base sizes c)

def PlacementReader.Fits (sizes : List Nat) (off : Nat) : PlacementReader → Prop
  | .bindingSlot len => MatchedFits sizes off (u32 len)
  | .vtxSource _ want => GatheredFits 0 sizes off (u32 want)
  | .upload bigverts =>
    GatheredFits 0 sizes off (if bigverts then bigvertsBufSz else drawDsBufSz)
  | .descriptorSet => MatchedFits sizes off drawDsBufSz

instance (sizes : List Nat) (off len : Nat) : Decidable (MatchedFits sizes off len) :=
  inferInstanceAs (Decidable (_ ∨ _))

instance (base : Nat) (sizes : List Nat) (off want : Nat) :
    Decidable (GatheredFits base sizes off want) :=
  decidable_of_iff (∀ e < sizes.length, ∀ c < e, start base sizes c < 2^64 →
      2^64 ≤ start base sizes (c+1) → max off (start base sizes c) < off+want →
      u64 (start base sizes (e+1)) ≤ max off (start base sizes c))
    ⟨fun h c e hce he => h e he c hce, fun h e he c hce => h c e hce he⟩

instance (sizes : List Nat) (off : Nat) : (reader : PlacementReader) →
    Decidable (reader.Fits sizes off)
  | .bindingSlot len => inferInstanceAs (Decidable (MatchedFits sizes off (u32 len)))
  | .vtxSource _ want => inferInstanceAs (Decidable (GatheredFits 0 sizes off (u32 want)))
  | .upload bigverts => inferInstanceAs (Decidable (GatheredFits 0 sizes off
      (if bigverts then bigvertsBufSz else drawDsBufSz)))
  | .descriptorSet => inferInstanceAs (Decidable (MatchedFits sizes off drawDsBufSz))

/- The bytes that one read returns. -/

/-- The byte `j` behind an address: in the task's pages when the address has one, else at the
address itself. -/
def guestByte (s : State) (task : TaskEntry) (a j : Nat) : UInt8 :=
  match taskTranslate s task a with
  | none => s.mem (a+j)
  | some _ => s.mem ((taskTranslate s task (u64 (a+j))).getD 0)

/-- A read returns at most what it is asked for, and the bytes of its address. -/
structure BackingRead (s : State) (task : TaskEntry)
    (read : Nat → Nat → Option (List UInt8)) : Prop where
  length_le : ∀ {a n b}, a < 2^64 → read a n = some b → b.length ≤ n
  byte : ∀ {a n b}, a < 2^64 → read a n = some b → ∀ j < b.length,
    b[j]? = some (guestByte s task a j)

section
variable {s : State} {task : TaskEntry}

/-- Each byte is at its own translation. -/
def Paged (s : State) (task : TaskEntry) (va : Nat) (b : List UInt8) : Prop :=
  ∀ j < b.length, ∃ g, taskTranslate s task (u64 (va+j)) = some g ∧ b[j]? = some (s.mem g)

theorem paged_nil (va : Nat) : Paged s task va [] := fun j hj => absurd hj (Nat.not_lt_zero j)

theorem Paged.append {va : Nat} {first rest : List UInt8} (hfirst : Paged s task va first)
    (hrest : Paged s task (u64 (va+first.length)) rest) : Paged s task va (first++rest) := by
  intro j hj
  rw [List.length_append] at hj
  by_cases hin : j < first.length
  · obtain ⟨g, ht, hb⟩ := hfirst j hin
    exact ⟨g, ht, by rw [List.getElem?_append_left hin, hb]⟩
  · obtain ⟨g, ht, hb⟩ := hrest (j-first.length) (by omega)
    refine ⟨g, ?_, by rw [List.getElem?_append_right (Nat.le_of_not_lt hin), hb]⟩
    rw [← ht]
    congr 1
    simp only [u64]
    omega

theorem readMemory_paged {va g n : Nat} {b : List UInt8} (hva : va < 2^64)
    (hpage : va%pageBytes+n ≤ pageBytes) (ht : taskTranslate s task va = some g)
    (hr : s.readMemory g n = some b) : Paged s task va b := by
  intro j hj
  have hlen := readMemory_length hr
  have htj := taskTranslate_in_page s task hva (show va%pageBytes+j < pageBytes by omega)
  refine ⟨g+j, by rw [htj, ht]; rfl, ?_⟩
  rw [List.getElem?_eq_getElem hj]
  simp only [readMemory_some hr, read_getElem]

theorem readVirtualChunks_paged {rounds va n : Nat} {b : List UInt8} (hva : va < 2^64)
    (hn : n ≤ rounds) (h : readVirtualChunks s task rounds va n = some b) :
    b.length = n ∧ Paged s task va b := by
  induction rounds generalizing va n b with
  | zero =>
    obtain rfl := Option.some.inj h
    exact ⟨(Nat.le_zero.1 hn).symm, paged_nil va⟩
  | succ rounds ih =>
    rw [readVirtualChunks] at h
    split_ifs at h with hz
    · obtain rfl := Option.some.inj h
      exact ⟨hz.symm, paged_nil va⟩
    · cases ht : taskTranslate s task va with
      | none => simp [ht] at h
      | some g =>
        simp only [ht] at h
        cases hr : s.readMemory g (min (pageBytes-va%pageBytes) n) with
        | none => simp [hr] at h
        | some first =>
          simp only [hr] at h
          obtain ⟨rest, hrest, rfl⟩ := Option.map_eq_some_iff.1 h
          have hpage : va%pageBytes < pageBytes := Nat.mod_lt _ (by decide)
          have hfirst := readMemory_length hr
          obtain ⟨hlen, hpaged⟩ := ih (Nat.mod_lt _ (by decide)) (by omega) hrest
          refine ⟨by rw [List.length_append, hfirst, hlen]; omega, Paged.append ?_ ?_⟩
          · exact readMemory_paged hva (by omega) ht hr
          · rw [hfirst]
            exact hpaged

theorem besteffortChunks_paged {rounds va n : Nat} (hva : va < 2^64) :
    (besteffortChunks s task rounds va n).length ≤ n ∧
    Paged s task va (besteffortChunks s task rounds va n) := by
  induction rounds generalizing va n with
  | zero => exact ⟨Nat.zero_le _, paged_nil va⟩
  | succ rounds ih =>
    rw [besteffortChunks]
    split_ifs with hz
    · exact ⟨Nat.zero_le _, paged_nil va⟩
    · cases hr : taskReadVirtual s task va (min (pageBytes-va%pageBytes) n) with
      | none =>
        simp only [hr]
        exact ⟨Nat.zero_le _, paged_nil va⟩
      | some first =>
        simp only [hr]
        obtain ⟨hfirst, hpaged⟩ := readVirtualChunks_paged hva (Nat.le_refl _) hr
        obtain ⟨hlen, hrest⟩ := @ih (u64 (va+min (pageBytes-va%pageBytes) n))
          (n-min (pageBytes-va%pageBytes) n) (Nat.mod_lt _ (by decide))
        refine ⟨by rw [List.length_append, hfirst]; omega, hpaged.append ?_⟩
        rw [hfirst]
        exact hrest

/-- Once the first byte has a translation, all have. -/
theorem Paged.guestByte {a : Nat} {b : List UInt8} (ha : a < 2^64) (h : Paged s task a b) :
    ∀ j < b.length, b[j]? = some (guestByte s task a j) := by
  intro j hj
  obtain ⟨g₀, ht₀, -⟩ := h 0 (Nat.zero_lt_of_lt hj)
  obtain ⟨g, ht, hb⟩ := h j hj
  have hstart : taskTranslate s task a = some g₀ := by
    rw [← ht₀, Nat.add_zero, u64, Nat.mod_eq_of_lt ha]
  rw [hb, Lagfx.guestByte, hstart, ht]
  rfl

theorem readVirtualBesteffort_paged {a n : Nat} {b : List UInt8} (ha : a < 2^64)
    (h : readVirtualBesteffort s task a n = some b) : b.length ≤ n ∧ Paged s task a b := by
  rw [readVirtualBesteffort] at h
  split_ifs at h
  obtain rfl := Option.some.inj h
  exact besteffortChunks_paged ha

theorem taskReadVirtual_backing (s : State) (task : TaskEntry) :
    BackingRead s task (taskReadVirtual s task) where
  length_le ha h := (readVirtualChunks_paged ha (Nat.le_refl _) h).1.le
  byte ha h := (readVirtualChunks_paged ha (Nat.le_refl _) h).2.guestByte ha

theorem readResourceBacking_backing (s : State) (task : TaskEntry) :
    BackingRead s task (readResourceBacking s task) := by
  have hcases {a n : Nat} {b : List UInt8} (ha : a < 2^64)
      (h : readResourceBacking s task a n = some b) : b.length ≤ n ∧
      ∀ j < b.length, b[j]? = some (guestByte s task a j) := by
    rw [readResourceBacking] at h
    split_ifs at h with ht
    · obtain ⟨hlen, hpaged⟩ := readVirtualBesteffort_paged ha h
      exact ⟨hlen, hpaged.guestByte ha⟩
    · have hnone := Option.not_isSome_iff_eq_none.1 ht
      obtain hraw | ⟨-, hbest⟩ := Option.or_eq_some_iff.1 h
      · refine ⟨(readMemory_length hraw).le, fun j hj => ?_⟩
        rw [guestByte, hnone, List.getElem?_eq_getElem hj]
        simp only [readMemory_some hraw, read_getElem]
      · obtain ⟨hlen, hpaged⟩ := readVirtualBesteffort_paged ha hbest
        exact ⟨hlen, hpaged.guestByte ha⟩
  exact ⟨fun ha h => (hcases ha h).1, fun ha h => (hcases ha h).2⟩

end

/- The walks, from a range on that starts at `base`. -/

theorem sub64_of_le {a b : Nat} (hb : b ≤ a) (ha : a < 2^64) : sub64 a b = a-b := by
  rw [sub64]
  omega

/-- The first range above the offset, the sums wrapped. -/
def Matched (base : Nat) (sizes : List Nat) (off e : Nat) : Prop :=
  e < sizes.length ∧ off < u64 (start base sizes (e+1)) ∧
  ∀ e' < e, u64 (start base sizes (e'+1)) ≤ off

section
variable {read : Nat → Nat → Option (List UInt8)} {off len want : Nat}

theorem readMatched_some {ranges : List PlacementRange} {base e i : Nat} (hoff : off < 2^64)
    (hbase : u64 base ≤ off) (h : Matched base (placementSizes ranges) off i)
    {r : PlacementRange} (hr : ranges[i]? = some r) :
    readMatched read off len ranges e (u64 base) =
    match read (r.addr (off-u64 (start base (placementSizes ranges) i))) len with
    | none => []
    | some b => [⟨0, e+i, off-u64 (start base (placementSizes ranges) i), b⟩] := by
  induction ranges generalizing base e i with
  | nil => cases hr
  | cons q ranges ih =>
    obtain ⟨hlen, hin, hbelow⟩ := h
    have hsum : u64 (u64 base+q.size) = u64 (base+q.size) := by
      simp only [u64]
      omega
    rw [readMatched, hsum]
    cases i with
    | zero =>
      obtain rfl : q = r := Option.some.inj hr
      rw [placementSizes, List.map_cons, start_cons_succ, start_zero] at hin
      rw [if_pos hin, start_zero, sub64_of_le hbase hoff]
      rfl
    | succ i =>
      have hskip := hbelow 0 (Nat.succ_pos i)
      rw [placementSizes, List.map_cons] at hin hbelow hlen ⊢
      rw [placementSizes, List.map_cons, start_cons_succ, start_zero] at hskip
      rw [if_neg (Nat.not_lt_of_le hskip), start_cons_succ]
      have hrest : Matched (base+q.size) (placementSizes ranges) off i := by
        refine ⟨Nat.lt_of_succ_lt_succ hlen, ?_, fun e' he' => ?_⟩
        · rw [start_cons_succ] at hin
          exact hin
        · have := hbelow (e'+1) (Nat.succ_lt_succ he')
          rw [start_cons_succ] at this
          exact this
      rw [ih hskip hrest hr, placementSizes, Nat.add_assoc, Nat.add_comm 1 i]

theorem readMatched_none {ranges : List PlacementRange} {base e : Nat}
    (h : ∀ i < ranges.length, u64 (start base (placementSizes ranges) (i+1)) ≤ off) :
    readMatched read off len ranges e (u64 base) = [] := by
  induction ranges generalizing base e with
  | nil => rfl
  | cons q ranges ih =>
    have hsum : u64 (u64 base+q.size) = u64 (base+q.size) := by
      simp only [u64]
      omega
    have hskip := h 0 (Nat.succ_pos _)
    rw [placementSizes, List.map_cons, start_cons_succ, start_zero] at hskip
    rw [readMatched, hsum, if_neg (Nat.not_lt_of_le hskip)]
    refine ih fun i hi => ?_
    have := h (i+1) (Nat.succ_lt_succ hi)
    rw [placementSizes, List.map_cons, start_cons_succ] at this
    exact this

theorem readGathered_full {ranges : List PlacementRange} {e acc logical filled : Nat}
    (h : want ≤ filled) : readGathered read want ranges e acc logical filled = [] := by
  cases ranges with
  | nil => rfl
  | cons q ranges => rw [readGathered, if_pos h]

theorem readGathered_none {ranges : List PlacementRange} {base e logical filled : Nat}
    (h : ∀ i < ranges.length, u64 (start base (placementSizes ranges) (i+1)) ≤ logical) :
    readGathered read want ranges e (u64 base) logical filled = [] := by
  induction ranges generalizing base e with
  | nil => rfl
  | cons q ranges ih =>
    have hsum : u64 (u64 base+q.size) = u64 (base+q.size) := by
      simp only [u64]
      omega
    have hskip := h 0 (Nat.succ_pos _)
    rw [placementSizes, List.map_cons, start_cons_succ, start_zero] at hskip
    rw [readGathered, hsum, if_neg (Nat.not_lt_of_le hskip), ih fun i hi => ?_, ite_self]
    have := h (i+1) (Nat.succ_lt_succ hi)
    rw [placementSizes, List.map_cons, start_cons_succ] at this
    exact this

theorem GatheredFits.tail {base n : Nat} {sizes : List Nat}
    (h : GatheredFits base (n::sizes) off want) : GatheredFits (base+n) sizes off want := by
  intro c e hce he hlow hhigh hreach
  have := h (c+1) (e+1) (Nat.succ_lt_succ hce) (Nat.succ_lt_succ he)
  rw [start_cons_succ, start_cons_succ, start_cons_succ] at this
  exact this hlow hhigh hreach

/-- A range is used up before the gather is over: it goes on at the start of the next. -/
theorem readGathered_cons {q : PlacementRange} {ranges : List PlacementRange} {base e : Nat}
    (hoff : off < 2^64) (hwant : want < 2^32) (hcarry : base+q.size < 2^64)
    (hin : max off base < base+q.size) (hlast : base+q.size-off < want) :
    readGathered read want (q::ranges) e base (max off base) (max off base-off) =
    match read (q.addr (max off base-base)) (base+q.size-max off base) with
    | none => []
    | some b => ⟨max off base-off, e, max off base-base, b⟩ ::
        readGathered read want ranges (e+1) (base+q.size) (max off (base+q.size))
          (max off (base+q.size)-off) := by
  have hu : u64 (base+q.size) = base+q.size := Nat.mod_eq_of_lt hcarry
  have hwithin : sub64 (max off base) base = max off base-base :=
    sub64_of_le (Nat.le_max_right off base) (by omega)
  have havail : sub64 q.size (max off base-base) = base+q.size-max off base := by
    rw [sub64_of_le (by omega) (by omega)]
    omega
  have havail32 : u32 (base+q.size-max off base) = base+q.size-max off base :=
    Nat.mod_eq_of_lt (by omega)
  have hlogical : u64 (max off base+(base+q.size-max off base)) = max off (base+q.size) := by
    rw [u64]
    omega
  have hfilled : max off base-off+(base+q.size-max off base) = max off (base+q.size)-off := by
    omega
  rw [readGathered, if_neg (by omega), hu, if_pos hin]
  simp only [hwithin, havail]
  rw [if_pos (by omega), havail32, hlogical, hfilled]

/-- The read of a gather from one of the ranges: at the offset or at the range's start, and
not past its end. -/
def GatherRead (read : Nat → Nat → Option (List UInt8)) (off base e : Nat)
    (ranges : List PlacementRange) (seg : PlacementRead) : Prop :=
  ∃ i r n, ranges[i]? = some r ∧ seg.range = e+i ∧
    seg.pos = max off (start base (placementSizes ranges) i)-off ∧
    seg.within = max off (start base (placementSizes ranges) i)-
      start base (placementSizes ranges) i ∧
    read (r.addr seg.within) n = some seg.bytes ∧ seg.within+n ≤ r.size

theorem GatherRead.cons {q : PlacementRange} {ranges : List PlacementRange} {base e : Nat}
    {seg : PlacementRead} (h : GatherRead read off (base+q.size) (e+1) ranges seg) :
    GatherRead read off base e (q::ranges) seg := by
  obtain ⟨i, r, n, hr, hrange, hpos, hwithin, hread, hroom⟩ := h
  refine ⟨i+1, r, n, hr, by omega, ?_, ?_, hread, hroom⟩
  · rw [placementSizes, List.map_cons, start_cons_succ]
    exact hpos
  · rw [placementSizes, List.map_cons, start_cons_succ]
    exact hwithin

/-- Unless the sums wrap below a later range, every read of a gather is in its range. -/
theorem readGathered_sound {ranges : List PlacementRange} {base e : Nat} (hoff : off < 2^64)
    (hwant : want < 2^32) (hbase : base < 2^64) (hsizes : ∀ r ∈ ranges, r.size < 2^64)
    (hfits : GatheredFits base (placementSizes ranges) off want) :
    ∀ seg ∈ readGathered read want ranges e base (max off base) (max off base-off),
      GatherRead read off base e ranges seg := by
  induction ranges generalizing base e with
  | nil => exact fun seg hseg => absurd hseg List.not_mem_nil
  | cons q ranges ih =>
    have hq := hsizes q List.mem_cons_self
    have hrest := fun r hr => hsizes r (List.mem_cons_of_mem q hr)
    by_cases hdone : want ≤ max off base-off
    · rw [readGathered_full hdone]
      exact fun seg hseg => absurd hseg List.not_mem_nil
    by_cases hcarry : base+q.size < 2^64
    · have hu : u64 (base+q.size) = base+q.size := Nat.mod_eq_of_lt hcarry
      by_cases hin : max off base < base+q.size
      · have hhere {n : Nat} {b : List UInt8} (hn : n ≤ base+q.size-max off base)
            (hb : read (q.addr (max off base-base)) n = some b) : GatherRead read off base e
            (q::ranges) ⟨max off base-off, e, max off base-base, b⟩ :=
          ⟨0, q, n, rfl, rfl, rfl, rfl, hb, by simp only; omega⟩
        by_cases hlast : base+q.size-off < want
        · rw [readGathered_cons hoff hwant hcarry hin hlast]
          cases hb : read (q.addr (max off base-base)) (base+q.size-max off base) with
          | none => exact fun seg hseg => absurd hseg List.not_mem_nil
          | some b =>
            intro seg hseg
            obtain rfl | hseg := List.mem_cons.1 hseg
            · exact hhere (Nat.le_refl _) hb
            · exact (ih hcarry hrest hfits.tail seg hseg).cons
        · have hwithin : sub64 (max off base) base = max off base-base :=
            sub64_of_le (Nat.le_max_right off base) (by omega)
          have havail : sub64 q.size (max off base-base) = base+q.size-max off base := by
            rw [sub64_of_le (by omega) hq]
            omega
          rw [readGathered, if_neg hdone, hu, if_pos hin]
          simp only [hwithin, havail]
          rw [if_neg (by omega)]
          cases hb : read (q.addr (max off base-base)) (want-(max off base-off)) with
          | none => exact fun seg hseg => absurd hseg List.not_mem_nil
          | some b =>
            intro seg hseg
            obtain rfl | hseg := List.mem_cons.1 hseg
            · exact hhere (by omega) hb
            · rw [readGathered_full (by omega)] at hseg
              exact absurd hseg List.not_mem_nil
      · have hnext : max off base = max off (base+q.size) := by omega
        rw [readGathered, if_neg hdone, hu, if_neg hin, hnext]
        exact fun seg hseg => (ih hcarry hrest hfits.tail seg hseg).cons
    · have hwrap : ∀ i < ranges.length,
          u64 (start (base+q.size) (placementSizes ranges) (i+1)) ≤ max off base := by
        intro i hi
        have := hfits 0 (i+1) (Nat.succ_pos i)
        rw [placementSizes, List.map_cons, start_cons_succ, start_cons_succ, start_zero,
          start_zero] at this
        exact this (Nat.succ_lt_succ (by rw [List.length_map]; exact hi)) hbase
          (Nat.le_of_not_lt hcarry) (by omega)
      have hskip : ¬max off base < u64 (base+q.size) := by
        rw [u64]
        omega
      rw [readGathered, if_neg hdone, if_neg hskip, readGathered_none hwrap]
      exact fun seg hseg => absurd hseg List.not_mem_nil

/-- Reads that return all they are asked for. -/
def FullRead (read : Nat → Nat → Option (List UInt8)) : Prop :=
  ∀ a n, a < 2^64 → 0 < n → ∃ b, read a n = some b ∧ b.length = n

theorem addr_lt (r : PlacementRange) (within : Nat) : r.addr within < 2^64 :=
  Nat.mod_lt _ (by decide)

theorem readGathered_takes (hfull : FullRead read) {ranges : List PlacementRange}
    {base e logical filled i : Nat} (hwant : want < 2^32) (hfilled : filled < want)
    (hsizes : ∀ r ∈ ranges, r.size < 2^64) (hacc : u64 base ≤ logical)
    (hlogical : logical < 2^64) (hi : i < ranges.length)
    (h : logical < u64 (start base (placementSizes ranges) (i+1))) :
    ∃ seg ∈ readGathered read want ranges e (u64 base) logical filled,
      seg.pos = filled ∧ seg.bytes ≠ [] ∧ ∃ k < ranges.length, seg.range = e+k := by
  induction ranges generalizing base e i with
  | nil => exact absurd hi (Nat.not_lt_zero i)
  | cons q ranges ih =>
    have hq := hsizes q List.mem_cons_self
    have hsum : u64 (u64 base+q.size) = u64 (base+q.size) := by
      simp only [u64]
      omega
    rw [readGathered, if_neg (Nat.not_le_of_lt hfilled), hsum]
    by_cases hin : logical < u64 (base+q.size)
    · have hwithin : sub64 logical (u64 base) = logical-u64 base := sub64_of_le hacc hlogical
      have hend : u64 (base+q.size) = u64 base+q.size := by
        simp only [u64] at hin hacc ⊢
        omega
      have havail : sub64 q.size (logical-u64 base) = u64 base+q.size-logical := by
        rw [sub64_of_le (by omega) hq]
        omega
      rw [if_pos hin]
      simp only [hwithin, havail]
      generalize hchunk : (if u64 base+q.size-logical < want-filled then
        u32 (u64 base+q.size-logical) else want-filled) = chunk
      have hpos : 0 < chunk := by
        rw [← hchunk]
        split_ifs with hlast
        · rw [u32, Nat.mod_eq_of_lt (by omega)]
          omega
        · omega
      obtain ⟨b, hb, hlen⟩ := hfull _ chunk (addr_lt q (logical-u64 base)) hpos
      rw [hb]
      refine ⟨_, List.mem_cons_self, rfl, ?_, 0, Nat.succ_pos _, rfl⟩
      exact List.length_pos_iff.1 (hlen.symm ▸ hpos)
    · rw [if_neg hin]
      cases i with
      | zero =>
        rw [placementSizes, List.map_cons, start_cons_succ, start_zero] at h
        exact absurd h hin
      | succ i =>
        rw [placementSizes, List.map_cons, start_cons_succ] at h
        obtain ⟨seg, hseg, hpos, hne, k, hk, hrange⟩ := @ih (base+q.size) (e+1) i
          (fun r hr => hsizes r (List.mem_cons_of_mem q hr)) (Nat.le_of_not_lt hin)
          (Nat.lt_of_succ_lt_succ hi) h
        exact ⟨seg, hseg, hpos, hne, k+1, Nat.succ_lt_succ hk, by omega⟩

/-- When everything can be read, a range that ends above the position, behind the one where
the sums wrap, is read from. -/
theorem readGathered_wrong (hfull : FullRead read) {ranges : List PlacementRange}
    {base e c k : Nat} (hoff : off < 2^64) (hwant : want < 2^32) (hbase : base < 2^64)
    (hsizes : ∀ r ∈ ranges, r.size < 2^64) (hck : c < k) (hk : k < ranges.length)
    (hlow : start base (placementSizes ranges) c < 2^64)
    (hhigh : 2^64 ≤ start base (placementSizes ranges) (c+1))
    (hreach : max off (start base (placementSizes ranges) c) < off+want)
    (h : max off (start base (placementSizes ranges) c) <
      u64 (start base (placementSizes ranges) (k+1))) :
    ∃ seg ∈ readGathered read want ranges e base (max off base) (max off base-off),
      off+seg.pos < 2^64 ∧ seg.bytes ≠ [] ∧
      ∃ i < ranges.length, seg.range = e+i ∧ 2^64 ≤ start base (placementSizes ranges) i := by
  induction ranges generalizing base e c k with
  | nil => exact absurd hk (Nat.not_lt_zero k)
  | cons q ranges ih =>
    have hq := hsizes q List.mem_cons_self
    have hrest := fun r hr => hsizes r (List.mem_cons_of_mem q hr)
    obtain ⟨k, rfl⟩ : ∃ k', k = k'+1 := ⟨k-1, by omega⟩
    rw [placementSizes, List.map_cons] at hlow hhigh hreach h ⊢
    rw [start_cons_succ] at h hhigh
    have hmax := Nat.le_max_right off base
    cases c with
    | zero =>
      rw [start_zero] at hlow hhigh hreach h
      have hskip : ¬max off base < u64 (base+q.size) := by
        rw [u64]
        omega
      rw [readGathered, if_neg (by omega), if_neg hskip]
      obtain ⟨seg, hseg, hpos, hne, i, hi, hrange⟩ := @readGathered_takes _ want hfull ranges
        (base+q.size) (e+1) (max off base) (max off base-off) k hwant (by omega) hrest
        (Nat.le_of_not_lt hskip) (by omega) (Nat.lt_of_succ_lt_succ hk) h
      refine ⟨seg, hseg, by omega, hne, i+1, Nat.succ_lt_succ hi, by omega, ?_⟩
      rw [start_cons_succ]
      exact hhigh.trans (base_le_start _ _ _)
    | succ c =>
      rw [start_cons_succ] at hlow hreach h
      have hle := base_le_start (base+q.size) (List.map PlacementRange.size ranges) c
      have hu : u64 (base+q.size) = base+q.size := Nat.mod_eq_of_lt (by omega)
      obtain ⟨seg, hseg, hpos, hne, i, hi, hrange, hstart⟩ := @ih (base+q.size) (e+1) c k
        (by omega) hrest (Nat.lt_of_succ_lt_succ hck) (Nat.lt_of_succ_lt_succ hk) hlow hhigh
        hreach h
      refine ⟨seg, ?_, hpos, hne, i+1, Nat.succ_lt_succ hi, by omega, ?_⟩
      · by_cases hin : max off base < base+q.size
        · obtain ⟨b, hb, -⟩ := hfull _ (base+q.size-max off base)
            (addr_lt q (max off base-base)) (Nat.sub_pos_of_lt hin)
          rw [readGathered_cons hoff hwant (by omega) hin (by omega), hb]
          exact List.mem_cons_of_mem _ hseg
        · have hnext : max off base = max off (base+q.size) := by omega
          rw [readGathered, if_neg (by omega), hu, if_neg hin, hnext]
          exact hseg
      · rw [start_cons_succ]
        exact hstart

end

/- The readers. -/

section
variable {s : State} {task : TaskEntry} {ranges : List PlacementRange} {off : Nat}

theorem placementRanges_size (desc : List UInt8) : ∀ r ∈ placementRanges desc, r.size < 2^64 := by
  intro r hr
  obtain ⟨e, -, rfl⟩ := List.mem_map.1 (List.mem_filter.1 hr).1
  have hlen : (window desc (e*16) 8).length ≤ 8 := List.length_take_le ..
  exact Nat.lt_of_lt_of_le (leNat_lt _) (Nat.pow_le_pow_right (by decide) hlen)

theorem matched_of_lt {base i : Nat} {sizes : List Nat} (hi : i < sizes.length)
    (h : off < u64 (start base sizes (i+1))) : ∃ e, Matched base sizes off e := by
  classical
  have hex : ∃ e, e < sizes.length ∧ off < u64 (start base sizes (e+1)) := ⟨i, hi, h⟩
  refine ⟨Nat.find hex, (Nat.find_spec hex).1, (Nat.find_spec hex).2, fun e' he' => ?_⟩
  have hmin := Nat.find_min hex he'
  have hlen := Nat.lt_trans he' (Nat.find_spec hex).1
  exact Nat.le_of_not_lt fun hlt => hmin ⟨hlen, hlt⟩

theorem size_getElem? {i : Nat} {r : PlacementRange} (hr : ranges[i]? = some r) :
    (placementSizes ranges)[i]? = some r.size := by
  rw [placementSizes, List.getElem?_map, hr]
  rfl

/-- A matched range whose end has not wrapped starts below the offset. -/
theorem Matched.start_le {e : Nat} {sizes : List Nat} (h : Matched 0 sizes off e)
    (hend : start 0 sizes (e+1) < 2^64) : start 0 sizes e ≤ off := by
  cases e with
  | zero => exact Nat.zero_le _
  | succ e =>
    have hbelow := h.2.2 e (Nat.lt_succ_self e)
    have hle := start_le_succ 0 sizes (e+1)
    rw [u64, Nat.mod_eq_of_lt (by omega)] at hbelow
    exact hbelow

/-- The read of a matched range is one that a gather would begin with. -/
theorem readMatched_sound {read : Nat → Nat → Option (List UInt8)} {len : Nat}
    (hread : BackingRead s task read) (hoff : off < 2^64)
    (hfits : MatchedFits (placementSizes ranges) off len) :
    ∀ seg ∈ readMatched read off len ranges 0 0, seg.bytes ≠ [] →
      GatherRead read off 0 0 ranges seg := by
  intro seg hseg hne
  change seg ∈ readMatched read off len ranges 0 (u64 0) at hseg
  by_cases hmatch : ∃ e, Matched 0 (placementSizes ranges) off e
  · obtain ⟨e, he⟩ := hmatch
    have hlen : e < ranges.length := by
      have := he.1
      rw [placementSizes, List.length_map] at this
      exact this
    have hr := List.getElem?_eq_getElem hlen
    rw [readMatched_some hoff (Nat.zero_le _) he hr] at hseg
    split at hseg
    · exact absurd hseg List.not_mem_nil
    · rename_i b hb
      obtain rfl := List.mem_singleton.1 hseg
      obtain hz | hfits := hfits
      · have hle := hread.length_le (addr_lt _ _) hb
        exact absurd (List.length_eq_zero_iff.1 (Nat.le_zero.1 (hz ▸ hle))) hne
      · obtain ⟨hroom, hend⟩ := hfits e he.1 he.2.1 he.2.2
        have hstart := he.start_le hend
        have hu : u64 (start 0 (placementSizes ranges) e) = start 0 (placementSizes ranges) e :=
          Nat.mod_eq_of_lt (by omega)
        have hnext : start 0 (placementSizes ranges) (e+1) =
            start 0 (placementSizes ranges) e+ranges[e].size := start_succ (size_getElem? hr)
        rw [hu] at hb ⊢
        refine ⟨e, ranges[e], len, hr, rfl, ?_, ?_, hb, ?_⟩
        · simp only
          omega
        · simp only
          omega
        · simp only
          omega
  · rw [readMatched_none fun i hi => Nat.le_of_not_lt fun hlt => hmatch
      (matched_of_lt (by rw [placementSizes, List.length_map]; exact hi) hlt)] at hseg
    exact absurd hseg List.not_mem_nil

/-- The reads of a reader that fits. -/
theorem PlacementReader.Fits.sound {reader : PlacementReader} (hoff : off < 2^64)
    (hsizes : ∀ r ∈ ranges, r.size < 2^64) (hfits : reader.Fits (placementSizes ranges) off) :
    ∀ seg ∈ reader.reads s task ranges off, seg.bytes ≠ [] →
      ∃ read, BackingRead s task read ∧ GatherRead read off 0 0 ranges seg := by
  have hmax : max off 0 = off := Nat.max_eq_left (Nat.zero_le off)
  intro seg hseg hne
  cases reader with
  | bindingSlot len =>
    exact ⟨_, readResourceBacking_backing s task,
      readMatched_sound (readResourceBacking_backing s task) hoff hfits seg hseg hne⟩
  | descriptorSet =>
    exact ⟨_, readResourceBacking_backing s task,
      readMatched_sound (readResourceBacking_backing s task) hoff hfits seg hseg hne⟩
  | vtxSource mode want =>
    have hread : BackingRead s task
        (if mode = 1 then taskReadVirtual s task else readResourceBacking s task) := by
      split_ifs
      · exact taskReadVirtual_backing s task
      · exact readResourceBacking_backing s task
    have hsound := @readGathered_sound (if mode = 1 then taskReadVirtual s task
      else readResourceBacking s task) off (u32 want) ranges 0 0 hoff
      (Nat.mod_lt want (by decide)) (by decide) hsizes hfits
    rw [hmax, Nat.sub_self] at hsound
    exact ⟨_, hread, hsound seg hseg⟩
  | upload bigverts =>
    have hwant : (if bigverts then bigvertsBufSz else drawDsBufSz) < 2^32 := by
      cases bigverts with
      | true => decide
      | false => decide
    have hsound := @readGathered_sound (readResourceBacking s task) off
      (if bigverts then bigvertsBufSz else drawDsBufSz) ranges 0 0 hoff hwant (by decide) hsizes
      hfits
    rw [hmax, Nat.sub_self] at hsound
    exact ⟨_, readResourceBacking_backing s task, hsound seg hseg⟩

/-- Where a read of a gather is in the whole object. -/
theorem GatherRead.locate {read : Nat → Nat → Option (List UInt8)}
    (hread : BackingRead s task read) {seg : PlacementRead}
    (h : GatherRead read off 0 0 ranges seg) {j : Nat} (hj : j < seg.bytes.length) :
    locate (placementSizes ranges) (off+(seg.pos+j)) = some (seg.range, seg.within+j) := by
  obtain ⟨i, r, n, hr, hrange, hpos, hwithin, hb, hroom⟩ := h
  have hle := hread.length_le (addr_lt _ _) hb
  refine locate_eq_some_iff.2 ⟨⟨r.size, ?_, by omega⟩, ?_⟩
  · rw [hrange, Nat.zero_add]
    exact size_getElem? hr
  · rw [hrange, Nat.zero_add]
    omega

/-- Two such reads that meet in the buffer start at one address. -/
theorem GatherRead.same {read read' : Nat → Nat → Option (List UInt8)}
    (hread : BackingRead s task read) (hread' : BackingRead s task read')
    {seg seg' : PlacementRead} (h : GatherRead read off 0 0 ranges seg)
    (h' : GatherRead read' off 0 0 ranges seg') (hrange : seg.range = seg'.range) {j : Nat}
    (hj : j < seg.bytes.length) (hj' : j < seg'.bytes.length) :
    seg.pos = seg'.pos ∧ seg.bytes[j]? = seg'.bytes[j]? := by
  obtain ⟨i, r, n, hr, hi, hpos, hwithin, hb, -⟩ := h
  obtain ⟨i', r', n', hr', hi', hpos', hwithin', hb', -⟩ := h'
  obtain rfl : i = i' := by omega
  obtain rfl := Option.some.inj (hr.symm.trans hr')
  have hsame : seg.within = seg'.within := hwithin.trans hwithin'.symm
  refine ⟨hpos.trans hpos'.symm, ?_⟩
  rw [hread.byte (addr_lt _ _) hb j hj, hread'.byte (addr_lt _ _) hb' j hj', hsame]

/-- Readers that fit are right in every memory. -/
theorem walksRight_of_fits {readers : List PlacementReader} (hoff : off < 2^64)
    (hsizes : ∀ r ∈ ranges, r.size < 2^64)
    (hfits : ∀ reader ∈ readers, reader.Fits (placementSizes ranges) off) :
    WalksRight s task ranges off readers := by
  have hlogical : ∀ reader ∈ readers, ∀ i c b,
      Delivers (reader.reads s task ranges off) i c b →
      locate (placementSizes ranges) (off+i) = some c := by
    intro reader hreader i c b hdel
    obtain ⟨seg, hseg, hpos, rfl, hb⟩ := hdel
    have hj := (List.getElem?_eq_some_iff.1 hb).1
    obtain ⟨read, hread, hgather⟩ := (hfits reader hreader).sound hoff hsizes seg hseg
      (List.ne_nil_of_length_pos (Nat.zero_lt_of_lt hj))
    have := hgather.locate hread hj
    rw [Nat.add_sub_of_le hpos] at this
    exact this
  refine ⟨hlogical, ?_⟩
  intro reader hreader reader' hreader' i c c' b b' hdel hdel'
  have hcell : c = c' := Option.some.inj
    ((hlogical reader hreader i c b hdel).symm.trans (hlogical reader' hreader' i c' b' hdel'))
  obtain ⟨seg, hseg, hpos, rfl, hb⟩ := hdel
  obtain ⟨seg', hseg', hpos', rfl, hb'⟩ := hdel'
  have hj := (List.getElem?_eq_some_iff.1 hb).1
  have hj' := (List.getElem?_eq_some_iff.1 hb').1
  obtain ⟨read, hread, hgather⟩ := (hfits reader hreader).sound hoff hsizes seg hseg
    (List.ne_nil_of_length_pos (Nat.zero_lt_of_lt hj))
  obtain ⟨read', hread', hgather'⟩ := (hfits reader' hreader').sound hoff hsizes seg' hseg'
    (List.ne_nil_of_length_pos (Nat.zero_lt_of_lt hj'))
  have hrange : seg.range = seg'.range := congrArg Prod.fst hcell
  have hstart := (hgather.same hread hread' hgather' hrange
    (Nat.zero_lt_of_lt hj) (Nat.zero_lt_of_lt hj')).1
  rw [hstart] at hb hj
  exact Option.some.inj (hb.symm.trans
    ((hgather.same hread hread' hgather' hrange hj hj').2.trans hb'))

end

/-- Every address has a translation, and every read of the memory succeeds. -/
structure AllMapped (s : State) (task : TaskEntry) : Prop where
  translates : ∀ a, (taskTranslate s task a).isSome
  readable : ∀ gpa len, s.readOk gpa len = true

section
variable {s : State} {task : TaskEntry}

theorem AllMapped.readVirtualChunks (h : AllMapped s task) {rounds : Nat} (va n : Nat) :
    ∃ b, readVirtualChunks s task rounds va n = some b := by
  induction rounds generalizing va n with
  | zero => exact ⟨[], rfl⟩
  | succ rounds ih =>
    obtain ⟨g, hg⟩ := Option.isSome_iff_exists.1 (h.translates va)
    obtain ⟨rest, hrest⟩ := ih (u64 (va+min (pageBytes-va%pageBytes) n))
      (n-min (pageBytes-va%pageBytes) n)
    have hread : s.readMemory g (min (pageBytes-va%pageBytes) n) =
        some (read s.mem g (min (pageBytes-va%pageBytes) n)) := if_pos (h.readable _ _)
    rw [Lagfx.readVirtualChunks, hg]
    simp only [hread, hrest, Option.map_some]
    split_ifs
    · exact ⟨[], rfl⟩
    · exact ⟨_, rfl⟩

theorem AllMapped.taskReadVirtual (h : AllMapped s task) {a : Nat} (ha : a < 2^64) (n : Nat) :
    ∃ b, taskReadVirtual s task a n = some b ∧ b.length = n := by
  obtain ⟨b, hb⟩ := @AllMapped.readVirtualChunks s task h n a n
  exact ⟨b, hb, (readVirtualChunks_paged ha (Nat.le_refl n) hb).1⟩

theorem AllMapped.besteffortChunks (h : AllMapped s task) {rounds va n : Nat} (hva : va < 2^64)
    (hn : n ≤ rounds) : (besteffortChunks s task rounds va n).length = n := by
  induction rounds generalizing va n with
  | zero => exact (Nat.le_zero.1 hn).symm
  | succ rounds ih =>
    rw [Lagfx.besteffortChunks]
    split_ifs with hz
    · exact hz.symm
    · obtain ⟨b, hb, hlen⟩ := h.taskReadVirtual hva (min (pageBytes-va%pageBytes) n)
      have hpage : va%pageBytes < pageBytes := Nat.mod_lt _ (by decide)
      have hrest := @ih (u64 (va+min (pageBytes-va%pageBytes) n))
        (n-min (pageBytes-va%pageBytes) n) (Nat.mod_lt _ (by decide)) (by omega)
      simp only [hb, List.length_append, hlen, hrest]
      omega

theorem AllMapped.readResourceBacking (h : AllMapped s task) :
    FullRead (readResourceBacking s task) := by
  intro a n ha hn
  have hlen := h.besteffortChunks ha (Nat.le_refl n)
  refine ⟨Lagfx.besteffortChunks s task n a n, ?_, hlen⟩
  rw [Lagfx.readResourceBacking, if_pos (h.translates a), readVirtualBesteffort,
    if_neg (List.length_pos_iff.1 (hlen.symm ▸ hn))]

end

/- Such a memory: the root at page 1 has two levels, and all entries cover what is below
   them. -/

def openState : State :=
  { mem := fun a => if a = 4100 then 2 else if 4100 < a ∧ a < 4104 then 0 else 0x80 }

def openTask : TaskEntry := { rootPagePfn := 1 }

theorem openState_entry {a : Nat} (ha : 4104 ≤ a) :
    openState.readMemory a 4 = some [0x80, 0x80, 0x80, 0x80] := by
  have hbyte : ∀ i, openState.mem (a+i) = 0x80 := by
    intro i
    rw [openState]
    simp only
    rw [if_neg (by omega), if_neg (by omega)]
  change some ((List.range 4).map fun i => openState.mem (a+i)) = _
  simp only [hbyte]
  rfl

theorem openState_mapped : AllMapped openState openTask where
  translates a := by
    have hheader : openState.readMemory (openTask.rootPagePfn*2^12) 8 =
        some [0x80, 0x80, 0x80, 0x80, 2, 0, 0, 0] := by decide
    have hfirst : le32 [0x80, 0x80, 0x80, 0x80, 2, 0, 0, 0] 0 = 0x80808080 := by decide
    have hlevels : le32 [0x80, 0x80, 0x80, 0x80, 2, 0, 0, 0] 4 = 2 := by decide
    have hpte : le32 [0x80, 0x80, 0x80, 0x80] 0 = 0x80808080 := by decide
    rw [taskTranslate, if_neg (by decide), hheader]
    simp only [hfirst, hlevels]
    rw [if_neg (by decide), radixWalk, openState_entry (by omega)]
    simp only [hpte]
    rfl
  readable _ _ := rfl

/- What does not fit goes wrong there. -/

section
variable {ranges : List PlacementRange} {off : Nat}

theorem delivers_of_mem {reads : List PlacementRead} {seg : PlacementRead} (hseg : seg ∈ reads)
    {j : Nat} (hj : j < seg.bytes.length) :
    Delivers reads (seg.pos+j) (seg.range, seg.within+j) seg.bytes[j] :=
  ⟨seg, hseg, Nat.le_add_right _ _, by rw [Nat.add_sub_cancel_left],
    by rw [Nat.add_sub_cancel_left]; exact List.getElem?_eq_getElem hj⟩

theorem matchedFits_of_right {read : Nat → Nat → Option (List UInt8)} {len : Nat}
    (hfull : FullRead read) (hoff : off < 2^64) (hsizes : ∀ r ∈ ranges, r.size < 2^64)
    (h : ∀ i c b, Delivers (readMatched read off len ranges 0 0) i c b →
      locate (placementSizes ranges) (off+i) = some c) :
    MatchedFits (placementSizes ranges) off len := by
  by_cases hz : len = 0
  · exact .inl hz
  refine .inr fun e he hin hbelow => ?_
  have hlen : e < ranges.length := by
    rw [placementSizes, List.length_map] at he
    exact he
  have hr := List.getElem?_eq_getElem hlen
  have hsize := hsizes _ (List.getElem_mem hlen)
  have hmatch : Matched 0 (placementSizes ranges) off e := ⟨he, hin, hbelow⟩
  have hnext : start 0 (placementSizes ranges) (e+1) =
      start 0 (placementSizes ranges) e+ranges[e].size := start_succ (size_getElem? hr)
  obtain ⟨b, hb, hblen⟩ := hfull _ len
    (addr_lt ranges[e] (off-u64 (start 0 (placementSizes ranges) e))) (Nat.pos_of_ne_zero hz)
  have hreads : readMatched read off len ranges 0 0 =
      [⟨0, 0+e, off-u64 (start 0 (placementSizes ranges) e), b⟩] := by
    change readMatched read off len ranges 0 (u64 0) = _
    rw [readMatched_some hoff (Nat.zero_le _) hmatch hr, hb]
  have hplace : ∀ j < len, off-u64 (start 0 (placementSizes ranges) e)+j < ranges[e].size ∧
      off+j = start 0 (placementSizes ranges) e+
        (off-u64 (start 0 (placementSizes ranges) e)+j) := by
    intro j hj
    have hdel := delivers_of_mem (hreads ▸ List.mem_singleton.2 rfl) (hblen.symm ▸ hj)
    obtain ⟨⟨n, hn, hroom⟩, hsum⟩ := locate_eq_some_iff.1 (h _ _ _ hdel)
    rw [Nat.zero_add, size_getElem? hr] at hn
    obtain rfl := Option.some.inj hn
    rw [Nat.zero_add, Nat.zero_add] at hsum
    exact ⟨hroom, hsum⟩
  obtain ⟨-, hfirst⟩ := hplace 0 (Nat.pos_of_ne_zero hz)
  obtain ⟨hroom, hlast⟩ := hplace (len-1) (by omega)
  have hend : start 0 (placementSizes ranges) (e+1) < 2^64 := by
    rw [u64] at hin
    omega
  exact ⟨by omega, hend⟩

theorem gatheredFits_of_right {read : Nat → Nat → Option (List UInt8)} {want : Nat}
    (hfull : FullRead read) (hoff : off < 2^64) (hwant : want < 2^32)
    (hsizes : ∀ r ∈ ranges, r.size < 2^64)
    (h : ∀ i c b, Delivers (readGathered read want ranges 0 0 off 0) i c b →
      locate (placementSizes ranges) (off+i) = some c) :
    GatheredFits 0 (placementSizes ranges) off want := by
  intro c k hck hk hlow hhigh hreach
  refine Nat.le_of_not_lt fun hlt => ?_
  rw [placementSizes, List.length_map] at hk
  obtain ⟨seg, hseg, hpos, hne, i, hi, hrange, hstart⟩ := @readGathered_wrong _ off want hfull
    ranges 0 0 c k hoff hwant (by decide) hsizes hck hk hlow hhigh hreach hlt
  rw [Nat.max_eq_left (Nat.zero_le off), Nat.sub_self] at hseg
  -- The byte is taken from a range that starts past 2^64.
  have hdel := delivers_of_mem hseg (List.length_pos_iff.2 hne)
  obtain ⟨-, hsum⟩ := locate_eq_some_iff.1 (h _ _ _ hdel)
  rw [hrange, Nat.zero_add] at hsum
  omega

theorem PlacementReader.fits_of_right {reader : PlacementReader} (hoff : off < 2^64)
    (hsizes : ∀ r ∈ ranges, r.size < 2^64)
    (h : ∀ i c b, Delivers (reader.reads openState openTask ranges off) i c b →
      locate (placementSizes ranges) (off+i) = some c) :
    reader.Fits (placementSizes ranges) off := by
  have hbacking := openState_mapped.readResourceBacking
  cases reader with
  | bindingSlot len => exact matchedFits_of_right hbacking hoff hsizes h
  | descriptorSet => exact matchedFits_of_right hbacking hoff hsizes h
  | vtxSource mode want =>
    have hread : FullRead (if mode = 1 then taskReadVirtual openState openTask
        else readResourceBacking openState openTask) := by
      split_ifs
      · exact fun a n ha _ => openState_mapped.taskReadVirtual ha n
      · exact hbacking
    exact gatheredFits_of_right hread hoff (Nat.mod_lt want (by decide)) hsizes h
  | upload bigverts =>
    have hwant : (if bigverts then bigvertsBufSz else drawDsBufSz) < 2^32 := by
      cases bigverts with
      | true => decide
      | false => decide
    exact gatheredFits_of_right hbacking hoff hwant hsizes h

end

/-- The readers of a descriptor are right in every memory exactly when what each takes fits:
the matched range has all of it, and no gather goes on behind sizes that wrap. -/
theorem walksRight_iff (desc : List UInt8) {off : Nat} (hoff : off < 2^64)
    (readers : List PlacementReader) :
    (∀ s task, WalksRight s task (placementRanges desc) off readers) ↔
    ∀ reader ∈ readers, reader.Fits (placementSizes (placementRanges desc)) off := by
  constructor
  · intro h reader hreader
    exact PlacementReader.fits_of_right hoff (placementRanges_size desc)
      ((h openState openTask).logical reader hreader)
  · intro h s task
    exact walksRight_of_fits hoff (placementRanges_size desc) h

/- A page at 0x20 and a page at 0x40. -/
def twoPages : List UInt8 :=
  putLe 8 4096++putLe 8 0x20++(putLe 8 4096++putLe 8 0x40)++List.replicate 32 0

/-- 32 bytes that end with the first page, and a gather across both. -/
theorem twoPages_right : WalksRight openState openTask (placementRanges twoPages) 4064
    [.bindingSlot 32, .vtxSource 1 32, .vtxSource 0 8192, .upload false] :=
  (walksRight_iff twoPages (by decide) _).2 (by decide) openState openTask

/-- The descriptor set's reader goes on behind the first page. -/
theorem twoPages_wrong : ¬∀ s task, WalksRight s task (placementRanges twoPages) 0
    [.bindingSlot 64, .vtxSource 0 65536, .upload false, .descriptorSet] := by
  intro h
  have hfits : PlacementReader.descriptorSet.Fits (placementSizes (placementRanges twoPages)) 0 :=
    PlacementReader.fits_of_right (by decide) (placementRanges_size twoPages)
      ((h openState openTask).logical .descriptorSet (by decide))
  exact absurd hfits (by decide)

end Lagfx
