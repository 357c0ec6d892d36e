import Mathlib.Data.List.TakeWhile
import Lagfx.EntrySelection
import Lagfx.Lib.Leftmost

/-! Retargeting of a bitcode blob: every AIR target triple is replaced by the SPIR-V one, in
place where each is long enough for it, else spliced into a larger buffer. -/
namespace Lagfx
open Leftmost

def kLlvmBitcodeWrapperMagic : List UInt8 := [0xDE, 0xC0, 0x17, 0x0B]
def kAirPrefix : List UInt8 := cstr "air64"
def kAppleInfix : List UInt8 := cstr "apple-macosx"
def bitcodeSpirvTriple : List UInt8 := cstr "spir64-unknown-vulkan1.3"

def isTripleTailChar (c : UInt8) : Bool := decide (0x30 ≤ c ∧ c ≤ 0x39) || decide (c = 0x2e)

def isGapChar (c : UInt8) : Bool :=
  decide (0x61 ≤ c ∧ c ≤ 0x7a) || decide (0x30 ≤ c ∧ c ≤ 0x39) || decide (c = 0x2d) ||
    decide (c = 0x5f)

def bitcodeHasMagic (buf : List UInt8) : Bool :=
  decide (4 ≤ buf.length) && decide (buf.take 4 = kLlvmBitcodeWrapperMagic)

/- The matcher on the bytes from `buf + i` on. -/

/-- Gap lengths from `g` on, `n` of them; a byte that is no gap character ends the search. -/
def findGap (s : List UInt8) : Nat → Nat → Option Nat
  | 0, _ => none
  | n+1, g =>
    if s.length < 5+g+12 then none
    else if ((s.drop 5).take g).all isGapChar = false then none
    else if (s.drop (5+g)).take 12 = kAppleInfix then some g
    else findGap s n (g+1)

/-- The length of the triple that starts here, with all its version characters. -/
def tripleLength (s : List UInt8) : Option Nat :=
  if s.take 5 ≠ kAirPrefix then none
  else (findGap s 8 1).map fun g =>
    5+g+12+((s.drop (5+g+12)).takeWhile isTripleTailChar).length

/-- The first start and the length of the triple there. -/
def findTriple : List UInt8 → Option (Nat × Nat)
  | [] => none
  | c::s =>
    if (c::s).length < 18 then none
    else
      match tripleLength (c::s) with
      | some n => some (0, n)
      | none => (findTriple s).map fun h => (h.1+1, h.2)

def findNextAirTriple (buf : List UInt8) (start : Nat) : Option (Nat × Nat) :=
  if buf.length < 18 then none
  else (findTriple (buf.drop start)).map fun h => (start+h.1, start+h.1+h.2)

/- The four passes. -/

/-- The spans that a pass over the input finds from `pos` on. -/
def airSpans (buf : List UInt8) : Nat → Nat → List (Nat × Nat)
  | 0, _ => []
  | fuel+1, pos =>
    match findNextAirTriple buf pos with
    | none => []
    | some (start, stop) => (start, stop)::airSpans buf fuel stop

inductive RetargetStatus where
  | invalidArg
  | protocol
  | outOfMemory
deriving DecidableEq, Repr

/-- A buffer handed to the caller: its size, its bytes, and the end of the farthest write. -/
structure Retargeted where
  allocated : Nat
  bytes : List UInt8
  written : Nat
deriving DecidableEq, Repr

def patch (buf : List UInt8) (pos : Nat) (bs : List UInt8) : List UInt8 :=
  buf.take pos++(bs++buf.drop (pos+bs.length))

/-- Tier 1, over the copy that it changes: each span is overwritten and padded with NUL. -/
def rewriteInPlace : Nat → List UInt8 → Nat → Nat → List UInt8 × Nat
  | 0, copy, _, written => (copy, written)
  | fuel+1, copy, pos, written =>
    match findNextAirTriple copy pos with
    | none => (copy, written)
    | some (start, stop) =>
      let span := stop-start
      let copy := patch copy start bitcodeSpirvTriple
      let written := max written (start+bitcodeSpirvTriple.length)
      if bitcodeSpirvTriple.length < span then
        rewriteInPlace fuel
          (patch copy (start+bitcodeSpirvTriple.length)
            (List.replicate (span-bitcodeSpirvTriple.length) 0)) stop (max written stop)
      else rewriteInPlace fuel copy stop written

/-- Tier 2: what is copied so far, and where the input is read next. -/
def spliceSpans (buf : List UInt8) (spans : List (Nat × Nat)) : List UInt8 × Nat :=
  spans.foldl (fun (dst, srcPos) (start, stop) =>
    (dst++(buf.drop srcPos).take (start-srcPos)++bitcodeSpirvTriple, stop)) ([], 0)

/-- Shorter spans make room, longer ones give none back. -/
def spanGrowth (spans : List (Nat × Nat)) : Nat :=
  (spans.map fun x => bitcodeSpirvTriple.length-(x.2-x.1)).sum

/-- lagfx_bitcode_retarget_to_spirv; `malloc` tells whether a buffer of a size is granted. -/
def bitcodeRetargetToSpirv (malloc : Nat → Bool) (inBuf : List UInt8) :
    Except RetargetStatus Retargeted :=
  if bitcodeHasMagic inBuf = false then .error .invalidArg
  else
    let spans := airSpans inBuf (inBuf.length+1) 0
    if spans = [] then .error .protocol
    else if ∀ x ∈ spans, bitcodeSpirvTriple.length ≤ x.2-x.1 then
      if malloc inBuf.length = false then .error .outOfMemory
      else
        let r := rewriteInPlace (inBuf.length+1) inBuf 0 inBuf.length
        .ok ⟨inBuf.length, r.1, r.2⟩
    else
      let newLen := inBuf.length+spanGrowth spans
      if malloc newLen = false then .error .outOfMemory
      else
        let r := spliceSpans inBuf spans
        let dst := r.1++inBuf.drop r.2
        .ok ⟨newLen, dst, dst.length⟩

/- What a triple is, and what the blob is to become. -/

/-- `s` begins with the AIR triple `t`; its version is a longest run. -/
def BeginsTriple (s t : List UInt8) : Prop :=
  ∃ gap tail rest, t = kAirPrefix++(gap++(kAppleInfix++tail)) ∧ s = t++rest ∧
    1 ≤ gap.length ∧ gap.length ≤ 8 ∧ (∀ c ∈ gap, isGapChar c = true) ∧
    (∀ c ∈ tail, isTripleTailChar c = true) ∧ ∀ c ∈ rest.head?, isTripleTailChar c = false

/-- The triple with NUL up to the length of what it replaces. -/
def nulPadded (t : List UInt8) : List UInt8 :=
  bitcodeSpirvTriple++List.replicate (t.length-bitcodeSpirvTriple.length) 0

/-- The replacement keeps the length where all occurrences are long enough. -/
def replacement (ps : List (Piece UInt8)) (t : List UInt8) : List UInt8 :=
  if ∀ x ∈ ps, bitcodeSpirvTriple.length ≤ x.hit.length then nulPadded t else bitcodeSpirvTriple

/- The matcher finds the triples. -/

@[simp] theorem kAirPrefix_length : kAirPrefix.length = 5 := by decide
@[simp] theorem kAppleInfix_length : kAppleInfix.length = 12 := by decide
@[simp] theorem bitcodeSpirvTriple_length : bitcodeSpirvTriple.length = 24 := by decide

/-- The infix behind a gap of `g` characters. -/
structure GapAt (s : List UInt8) (g : Nat) : Prop where
  room : 5+g+12 ≤ s.length
  chars : ∀ c ∈ (s.drop 5).take g, isGapChar c = true
  macosx : (s.drop (5+g)).take 12 = kAppleInfix

/-- The infix does not overlap itself. -/
theorem GapAt.unique {s : List UInt8} {g h : Nat} (hg : GapAt s g) (hh : GapAt s h) (hle : g ≤ h)
    (hlt : h < g+12) : g = h := by
  obtain ⟨d, rfl⟩ := Nat.exists_eq_add_of_le hle
  have hshift : ∀ d < 12, kAppleInfix.drop d = kAppleInfix.take (12-d) → d = 0 := by decide
  have hd := hshift d (by omega) (by
    calc kAppleInfix.drop d = ((s.drop (5+g)).take 12).drop d := by rw [hg.macosx]
      _ = (s.drop (5+(g+d))).take (12-d) := by
        rw [List.drop_take, List.drop_drop, Nat.add_assoc]
      _ = ((s.drop (5+(g+d))).take 12).take (12-d) := by
        rw [List.take_take, min_eq_left (Nat.sub_le 12 d)]
      _ = kAppleInfix.take (12-d) := by rw [hh.macosx])
  omega

theorem findGap_some {s : List UInt8} {n g h : Nat} (hs : findGap s n g = some h) :
    g ≤ h ∧ h < g+n ∧ GapAt s h := by
  induction n generalizing g with
  | zero => cases hs
  | succ n ih =>
    rw [findGap] at hs
    split_ifs at hs with hroom hchars hmac
    · obtain rfl := Option.some.inj hs
      refine ⟨le_rfl, by omega, ⟨Nat.not_lt.1 hroom, ?_, hmac⟩⟩
      simpa using hchars
    · obtain ⟨hle, hlt, hgap⟩ := ih hs
      exact ⟨by omega, by omega, hgap⟩

theorem findGap_of_gap {s : List UInt8} {n g h : Nat} (hgap : GapAt s h) (hle : g ≤ h)
    (hlt : h < g+n) (hn : n ≤ 12) : findGap s n g = some h := by
  induction n generalizing g with
  | zero => omega
  | succ n ih =>
    have hroom := hgap.room
    have hchars : ((s.drop 5).take g).all isGapChar = true := by
      rw [List.all_eq_true]
      intro c hc
      refine hgap.chars c ?_
      rw [← Nat.min_eq_left hle, ← List.take_take] at hc
      exact List.mem_of_mem_take hc
    rw [findGap, if_neg (by omega), if_neg (by rw [hchars]; decide)]
    by_cases hmac : (s.drop (5+g)).take 12 = kAppleInfix
    · have hg : GapAt s g := ⟨by omega, List.all_eq_true.1 hchars, hmac⟩
      rw [if_pos hmac, hg.unique hgap hle (by omega)]
    · have hne : g ≠ h := fun heq => hmac (heq ▸ hgap.macosx)
      rw [if_neg hmac]
      exact ih (by omega) (by omega) (by omega)

/-- The version behind a gap of `g` characters. -/
def versionLength (s : List UInt8) (g : Nat) : Nat :=
  ((s.drop (5+g+12)).takeWhile isTripleTailChar).length

/-- A triple by its parts, read off where it begins. -/
theorem beginsTriple_iff {s t : List UInt8} : BeginsTriple s t ↔ s.take 5 = kAirPrefix ∧
    ∃ g, 1 ≤ g ∧ g ≤ 8 ∧ GapAt s g ∧ t = s.take (5+g+12+versionLength s g) := by
  constructor
  · intro h
    obtain ⟨gap, tail, rest, rfl, rfl, hpos, hle, hgap, htail, hrest⟩ := h
    have hs : kAirPrefix++(gap++(kAppleInfix++tail))++rest =
        kAirPrefix++(gap++(kAppleInfix++(tail++rest))) := by simp only [List.append_assoc]
    have hgap5 : (kAirPrefix++(gap++(kAppleInfix++tail))++rest).drop 5 =
        gap++(kAppleInfix++(tail++rest)) := by rw [hs, List.drop_left' kAirPrefix_length]
    have hmac : (kAirPrefix++(gap++(kAppleInfix++tail))++rest).drop (5+gap.length) =
        kAppleInfix++(tail++rest) := by rw [← List.drop_drop, hgap5, List.drop_left]
    have htail12 : (kAirPrefix++(gap++(kAppleInfix++tail))++rest).drop (5+gap.length+12) =
        tail++rest := by rw [← List.drop_drop, hmac, List.drop_left' kAppleInfix_length]
    have hversion : versionLength (kAirPrefix++(gap++(kAppleInfix++tail))++rest) gap.length =
        tail.length := by
      have hstop : rest.takeWhile isTripleTailChar = [] := by
        cases rest with
        | nil => rfl
        | cons c rest =>
          have hc := hrest c rfl
          rw [List.takeWhile_cons_of_neg (by rw [hc]; decide)]
      rw [versionLength, htail12, List.takeWhile_append_of_pos htail, hstop, List.append_nil]
    refine ⟨?_, gap.length, hpos, hle, ⟨?_, ?_, ?_⟩, ?_⟩
    · rw [hs, List.take_left' kAirPrefix_length]
    · simp only [List.length_append, kAirPrefix_length, kAppleInfix_length]
      omega
    · rw [hgap5, List.take_left]
      exact hgap
    · rw [hmac, List.take_left' kAppleInfix_length]
    · rw [hversion, List.take_left']
      simp only [List.length_append, kAirPrefix_length, kAppleInfix_length]
      omega
  · intro h
    obtain ⟨hair, g, hpos, hle, hgap, rfl⟩ := h
    have hroom := hgap.room
    have hparts : s = kAirPrefix++((s.drop 5).take g++(kAppleInfix++
        ((s.drop (5+g+12)).takeWhile isTripleTailChar)))++
          (s.drop (5+g+12)).dropWhile isTripleTailChar := by
      have hmac : kAppleInfix++s.drop (5+g+12) = s.drop (5+g) := by
        have hdrop : s.drop (5+g+12) = (s.drop (5+g)).drop 12 := List.drop_drop.symm
        rw [hdrop, ← hgap.macosx, List.take_append_drop]
      simp only [List.append_assoc, List.takeWhile_append_dropWhile]
      rw [hmac, ← hair, ← List.drop_drop, List.take_append_drop, List.take_append_drop]
    have hgaplen : ((s.drop 5).take g).length = g := by
      rw [List.length_take, List.length_drop]
      omega
    have htake := (congrArg (List.take (5+g+12+versionLength s g)) hparts).trans
      (List.take_left' (by
        simp only [List.length_append, kAirPrefix_length, kAppleInfix_length, hgaplen,
          versionLength]
        omega))
    refine ⟨(s.drop 5).take g, (s.drop (5+g+12)).takeWhile isTripleTailChar,
      (s.drop (5+g+12)).dropWhile isTripleTailChar, htake, ?_, ?_, ?_, hgap.chars, ?_, ?_⟩
    · rw [htake]
      exact hparts
    · exact hgaplen.symm ▸ hpos
    · exact hgaplen.symm ▸ hle
    · exact fun c hc => List.mem_takeWhile_imp hc
    · intro c hc
      have hstop := List.head?_dropWhile_not isTripleTailChar (s.drop (5+g+12))
      rw [hc] at hstop
      exact hstop

/-- The matcher finds the triple that begins here. -/
theorem tripleLength_of_begins {s t : List UInt8} (h : BeginsTriple s t) :
    tripleLength s = some t.length := by
  obtain ⟨hair, g, hpos, hle, hgap, rfl⟩ := beginsTriple_iff.1 h
  have hlen : versionLength s g ≤ s.length-(5+g+12) := by
    rw [versionLength, ← List.length_drop]
    exact (List.takeWhile_sublist _).length_le
  have hroom := hgap.room
  rw [tripleLength, if_neg (not_not.2 hair), findGap_of_gap hgap hpos (by omega) (by decide),
    Option.map_some, List.length_take, min_eq_left (by omega)]
  rfl

theorem begins_of_tripleLength {s : List UInt8} {n : Nat} (h : tripleLength s = some n) :
    ∃ t, BeginsTriple s t := by
  rw [tripleLength] at h
  split_ifs at h with hair
  obtain ⟨g, hg, -⟩ := Option.map_eq_some_iff.1 h
  obtain ⟨hpos, hlt, hgap⟩ := findGap_some hg
  exact ⟨_, beginsTriple_iff.2 ⟨not_not.1 hair, g, hpos, by omega, hgap, rfl⟩⟩

/-- Without a triple the matcher fails. -/
theorem tripleLength_none {s : List UInt8} (h : ∀ t, ¬BeginsTriple s t) :
    tripleLength s = none := by
  cases hn : tripleLength s with
  | none => rfl
  | some n =>
    obtain ⟨t, ht⟩ := begins_of_tripleLength hn
    exact absurd ht (h t)

theorem begins_length {s t : List UInt8} (h : BeginsTriple s t) : 18 ≤ t.length := by
  obtain ⟨gap, tail, rest, rfl, -, hpos, -⟩ := h
  simp only [List.length_append, kAirPrefix_length, kAppleInfix_length]
  omega

theorem begins_part {s t : List UInt8} (h : BeginsTriple s t) : t ≠ [] ∧ t <+: s := by
  have hlen := begins_length h
  obtain ⟨gap, tail, rest, -, hs, -⟩ := h
  exact ⟨List.ne_nil_of_length_pos (by omega), rest, hs.symm⟩

/-- The scan passes what no triple begins in. -/
theorem findTriple_gap {t s : List UInt8} (h : BeginsTriple (t++s) t) :
    ∀ p : List UInt8, (∀ i < p.length, ∀ u, ¬BeginsTriple ((p++(t++s)).drop i) u) →
      findTriple (p++(t++s)) = some (p.length, t.length) := by
  have hlen := begins_length h
  intro p
  induction p with
  | nil =>
    intro _
    obtain ⟨c, t', rfl⟩ := List.exists_cons_of_ne_nil (begins_part h).1
    rw [List.nil_append, List.cons_append, findTriple, ← List.cons_append,
      tripleLength_of_begins h, if_neg]
    · rfl
    · rw [List.length_append]
      omega
  | cons c p ih =>
    intro hno
    have hrest := ih fun i hi => hno (i+1) (Nat.succ_lt_succ hi)
    have hhead := tripleLength_none (hno 0 (Nat.succ_pos _))
    rw [List.drop_zero, List.cons_append] at hhead
    rw [List.cons_append, findTriple, hhead, hrest, if_neg]
    · rfl
    · rw [List.length_cons, List.length_append, List.length_append]
      omega

theorem findTriple_none {s : List UInt8} (h : Free BeginsTriple s) : findTriple s = none := by
  induction s with
  | nil => rfl
  | cons c s ih =>
    have hhead : ∀ t, ¬BeginsTriple (c::s) t := h 0
    have hrest := ih fun i => h (i+1)
    rw [findTriple, tripleLength_none hhead, hrest]
    split_ifs <;> rfl

theorem findNext_gap {buf p t s : List UInt8} {pos : Nat} (hbuf : buf.drop pos = p++(t++s))
    (hfirst : ∀ i < p.length, ∀ u, ¬BeginsTriple ((p++(t++s)).drop i) u)
    (hhit : BeginsTriple (t++s) t) :
    findNextAirTriple buf pos = some (pos+p.length, pos+p.length+t.length) := by
  have hlen := begins_length hhit
  have hsize := congrArg List.length hbuf
  simp only [List.length_drop, List.length_append] at hsize
  rw [findNextAirTriple, if_neg (by omega), hbuf, findTriple_gap hhit p hfirst]
  rfl

theorem findNext_none {buf : List UInt8} {pos : Nat} (h : Free BeginsTriple (buf.drop pos)) :
    findNextAirTriple buf pos = none := by
  rw [findNextAirTriple, findTriple_none h]
  split_ifs <;> rfl

/- The passes follow the cut. -/

/-- Where the occurrences of a cut lie. -/
def spansOf : List (Piece UInt8) → Nat → List (Nat × Nat)
  | [], _ => []
  | x::ps, pos => (pos+x.gap.length, pos+x.gap.length+x.hit.length)::
      spansOf ps (pos+x.gap.length+x.hit.length)

theorem drop_piece {buf p t s : List UInt8} {pos : Nat} (h : buf.drop pos = p++(t++s)) :
    buf.drop (pos+p.length+t.length) = s := by
  rw [Nat.add_assoc, ← List.drop_drop, h, ← List.drop_drop, List.drop_left, List.drop_left]

theorem airSpans_cut {buf s last : List UInt8} {ps : List (Piece UInt8)}
    (h : Cut BeginsTriple s ps last) : ∀ pos fuel, buf.drop pos = s → ps.length < fuel →
      airSpans buf fuel pos = spansOf ps pos := by
  induction h with
  | done hfree =>
    intro pos fuel hbuf hfuel
    obtain ⟨n, rfl⟩ := Nat.exists_eq_add_of_lt hfuel
    rw [airSpans, findNext_none (hbuf ▸ hfree)]
    rfl
  | @hit p t s last ps hfirst hhit hrest ih =>
    intro pos fuel hbuf hfuel
    obtain ⟨n, rfl⟩ := Nat.exists_eq_add_of_lt hfuel
    rw [airSpans, findNext_gap hbuf hfirst hhit]
    simp only [spansOf]
    rw [ih _ _ (drop_piece hbuf) (by rw [List.length_cons]; omega)]

/-- Each occurrence has eighteen bytes at least. -/
theorem pieces_length {s last : List UInt8} {ps : List (Piece UInt8)}
    (h : Cut BeginsTriple s ps last) : 18*ps.length ≤ s.length := by
  induction h with
  | done => exact Nat.zero_le _
  | hit _ hhit _ ih =>
    have hlen := begins_length hhit
    simp only [List.length_cons, List.length_append]
    omega

theorem patch_middle {a b c bs : List UInt8} {n : Nat} (hn : n = a.length)
    (hlen : bs.length = b.length) : patch (a++(b++c)) n bs = a++(bs++c) := by
  rw [patch, hn, List.take_left, hlen, ← List.drop_drop, List.drop_left, List.drop_left]

theorem nulPadded_length {t : List UInt8} (h : 24 ≤ t.length) :
    (nulPadded t).length = t.length := by
  rw [nulPadded, List.length_append, List.length_replicate, bitcodeSpirvTriple_length]
  omega

/-- Tier 1 leaves what is before `pos` and pads each occurrence behind it. -/
theorem rewriteInPlace_cut {s last : List UInt8} {ps : List (Piece UInt8)}
    (h : Cut BeginsTriple s ps last) (hlong : ∀ x ∈ ps, 24 ≤ x.hit.length) :
    ∀ (before : List UInt8) fuel written, ps.length < fuel → written ≤ before.length+s.length →
      ∃ written', rewriteInPlace fuel (before++s) before.length written =
        (before++substitute nulPadded ps last, written') ∧ written' ≤ before.length+s.length := by
  induction h with
  | @done s hfree =>
    intro before fuel written hfuel hw
    obtain ⟨n, rfl⟩ := Nat.exists_eq_add_of_lt hfuel
    refine ⟨written, ?_, hw⟩
    rw [rewriteInPlace, findNext_none (by rw [List.drop_left]; exact hfree)]
    rfl
  | @hit p t s last ps hfirst hhit hrest ih =>
    intro before fuel written hfuel hw
    obtain ⟨hhead, hps⟩ := List.forall_mem_cons.1 hlong
    have ht : 24 ≤ t.length := hhead
    obtain ⟨n, rfl⟩ := Nat.exists_eq_add_of_lt hfuel
    have hrest' : (before++(p++(t++s))).drop before.length = p++(t++s) := List.drop_left
    have hfind := findNext_gap hrest' hfirst hhit
    have hpatch : patch (before++(p++(t++s))) (before.length+p.length) bitcodeSpirvTriple =
        (before++p)++(bitcodeSpirvTriple++(t.drop 24++s)) := by
      have hcopy : before++(p++(t++s)) = (before++p)++(t.take 24++(t.drop 24++s)) := by
        rw [List.append_assoc, ← List.append_assoc (t.take 24), List.take_append_drop]
      rw [hcopy]
      have hold : (t.take 24).length = 24 := by rw [List.length_take, min_eq_left ht]
      exact patch_middle List.length_append.symm hold.symm
    have hbefore : (before++(p++nulPadded t)).length = before.length+p.length+t.length := by
      rw [List.length_append, List.length_append, nulPadded_length ht, Nat.add_assoc]
    have hnext := ih hps (before++(p++nulPadded t)) (ps.length+n+1)
    rw [hbefore] at hnext
    simp only [List.length_append] at hw ⊢
    rw [show (⟨p, t⟩::ps : List (Piece UInt8)).length+n+1 = ps.length+n+1+1 by
      rw [List.length_cons]; omega, rewriteInPlace, hfind, substitute_cons]
    simp only [Nat.add_sub_cancel_left, bitcodeSpirvTriple_length, hpatch]
    by_cases hlt : 24 < t.length
    · have hpad : patch ((before++p)++(bitcodeSpirvTriple++(t.drop 24++s)))
          (before.length+p.length+24) (List.replicate (t.length-24) 0) =
            before++(p++nulPadded t)++s := by
        rw [← List.append_assoc (before++p), patch_middle]
        · simp only [nulPadded, List.append_assoc, bitcodeSpirvTriple_length]
        · simp only [List.length_append, bitcodeSpirvTriple_length]
        · rw [List.length_replicate, List.length_drop]
      obtain ⟨w, hrun, hle⟩ := hnext _ (by omega)
        (show max (max written (before.length+p.length+24)) (before.length+p.length+t.length) ≤ _ by
          omega)
      refine ⟨w, ?_, by omega⟩
      rw [if_pos hlt, hpad, hrun]
      simp only [List.append_assoc]
    · have hsame : t.drop 24 = [] := List.drop_eq_nil_of_le (Nat.not_lt.1 hlt)
      have hpadded : nulPadded t = bitcodeSpirvTriple := by
        rw [nulPadded, bitcodeSpirvTriple_length, Nat.sub_eq_zero_of_le (Nat.not_lt.1 hlt),
          List.replicate_zero, List.append_nil]
      obtain ⟨w, hrun, hle⟩ := hnext _ (by omega)
        (show max written (before.length+p.length+24) ≤ _ by omega)
      refine ⟨w, ?_, by omega⟩
      rw [hpadded] at hrun ⊢
      rw [if_neg hlt, hsame, List.nil_append]
      simp only [List.append_assoc] at hrun ⊢
      exact hrun

/-- Tier 2 copies what is between the occurrences. -/
theorem spliceSpans_cut {buf s last : List UInt8} {ps : List (Piece UInt8)}
    (h : Cut BeginsTriple s ps last) : ∀ pos dst, buf.drop pos = s → ∃ q,
      (spansOf ps pos).foldl (fun (dst, srcPos) (start, stop) =>
        (dst++(buf.drop srcPos).take (start-srcPos)++bitcodeSpirvTriple, stop)) (dst, pos) =
          (dst++ps.flatMap (fun x => x.gap++bitcodeSpirvTriple), q) ∧ buf.drop q = last := by
  induction h with
  | done =>
    intro pos dst hbuf
    exact ⟨pos, by rw [List.flatMap_nil, List.append_nil]; rfl, hbuf⟩
  | @hit p t s last ps hfirst hhit hrest ih =>
    intro pos dst hbuf
    obtain ⟨q, hq, hlast⟩ := ih (pos+p.length+t.length) (dst++p++bitcodeSpirvTriple)
      (drop_piece hbuf)
    refine ⟨q, ?_, hlast⟩
    rw [spansOf, List.foldl_cons, List.flatMap_cons]
    simp only [hbuf, Nat.add_sub_cancel_left, List.take_left]
    rw [hq]
    simp only [List.append_assoc]

/-- The growth makes room for what is spliced, and is a third of the input at most. -/
theorem spliced_length {s last : List UInt8} {ps : List (Piece UInt8)}
    (h : Cut BeginsTriple s ps last) : ∀ pos,
      (substitute (fun _ => bitcodeSpirvTriple) ps last).length ≤
        s.length+spanGrowth (spansOf ps pos) ∧ 3*spanGrowth (spansOf ps pos) ≤ s.length := by
  induction h with
  | done => exact fun _ => ⟨le_rfl, Nat.zero_le _⟩
  | @hit p t s last ps hfirst hhit hrest ih =>
    intro pos
    have hlen := begins_length hhit
    obtain ⟨hroom, hthird⟩ := ih (pos+p.length+t.length)
    have hgrow : spanGrowth (spansOf (⟨p, t⟩::ps) pos) =
        24-t.length+spanGrowth (spansOf ps (pos+p.length+t.length)) := by
      simp only [spanGrowth, spansOf, List.map_cons, List.sum_cons, bitcodeSpirvTriple_length,
        Nat.add_sub_cancel_left]
    rw [hgrow, substitute_cons]
    simp only [List.length_append, bitcodeSpirvTriple_length]
    omega

/- No triple is left. -/

theorem spirvTriple_apart : (∀ j < 24, ¬kAirPrefix <+: bitcodeSpirvTriple.drop j ∧
    ¬bitcodeSpirvTriple.drop j <+: kAirPrefix) ∧
    ∀ m < 25, m ≠ 0 → ¬kAppleInfix <:+ bitcodeSpirvTriple.take m ∧
      ¬bitcodeSpirvTriple.take m <:+ kAppleInfix := by
  decide

/-- A triple in front of `x` is one in front of `y` when its parts before the version are. -/
theorem begins_congr {q x y : List UInt8} {g : Nat} (hair : (q++x).take 5 = kAirPrefix)
    (hpos : 1 ≤ g) (hle : g ≤ 8) (hgap : GapAt (q++x) g) (hq : 5+g+12 ≤ q.length) :
    ∃ u, BeginsTriple (q++y) u := by
  refine ⟨_, beginsTriple_iff.2 ⟨?_, g, hpos, hle, ⟨?_, ?_, ?_⟩, rfl⟩⟩
  · rw [List.take_append_of_le_length (by omega)] at hair ⊢
    exact hair
  · rw [List.length_append]
    omega
  · have hchars := hgap.chars
    rw [List.drop_append_of_le_length (by omega),
      List.take_append_of_le_length (by rw [List.length_drop]; omega)] at hchars ⊢
    exact hchars
  · have hmac := hgap.macosx
    rw [List.drop_append_of_le_length (by omega),
      List.take_append_of_le_length (by rw [List.length_drop]; omega)] at hmac ⊢
    exact hmac

/-- The SPIR-V triple, with NUL behind it or not, takes part in no AIR triple. -/
theorem triple_inert {f : List UInt8 → List UInt8}
    (hf : ∀ t, ∃ n, f t = bitcodeSpirvTriple++List.replicate n 0) : Inert BeginsTriple f where
  before := by
    intro q t s out hq hhit hno u hu
    obtain ⟨n, hn⟩ := hf t
    rw [hn, List.append_assoc] at hu
    obtain ⟨hair, g, hpos, hle, hgap, -⟩ := beginsTriple_iff.1 hu
    have hlen := List.length_pos_iff.2 hq
    by_cases hin : 5+g+12 ≤ q.length
    · obtain ⟨v, hv⟩ := begins_congr (y := t++s) hair hpos hle hgap hin
      exact hno v hv
    · -- the infix and a part of the replacement end at the same place
      have hcore : (q++(bitcodeSpirvTriple++(List.replicate n 0++out))).take (5+g+12) =
          q++bitcodeSpirvTriple.take (5+g+12-q.length) := by
        rw [List.take_append, List.take_of_length_le (by omega), List.take_append_of_le_length]
        rw [bitcodeSpirvTriple_length]
        omega
      have hmac : kAppleInfix <:+
          (q++(bitcodeSpirvTriple++(List.replicate n 0++out))).take (5+g+12) := by
        rw [← hgap.macosx, List.take_drop]
        exact List.drop_suffix _ _
      rw [hcore] at hmac
      obtain ⟨hno, hno'⟩ := spirvTriple_apart.2 (5+g+12-q.length) (by omega) (by omega)
      obtain h | h := List.suffix_or_suffix_of_suffix hmac (List.suffix_append q _)
      · exact hno h
      · exact hno' h
  inside := by
    intro s t out j hhit hj u hu
    obtain ⟨n, hn⟩ := hf t
    obtain ⟨hair, -⟩ := beginsTriple_iff.1 hu
    rw [hn] at hair hj
    have hstart : kAirPrefix <+: (bitcodeSpirvTriple++List.replicate n 0).drop j++out :=
      hair ▸ List.take_prefix _ _
    by_cases htriple : j < 24
    · rw [List.drop_append_of_le_length (by rw [bitcodeSpirvTriple_length]; omega),
        List.append_assoc] at hstart
      obtain ⟨hno, hno'⟩ := spirvTriple_apart.1 j htriple
      obtain h | h := List.prefix_or_prefix_of_prefix hstart (List.prefix_append _ _)
      · exact hno h
      · exact hno' h
    · -- NUL begins no triple
      obtain ⟨k, rfl⟩ := Nat.exists_eq_add_of_le (Nat.not_lt.1 htriple)
      rw [List.length_append, bitcodeSpirvTriple_length, List.length_replicate] at hj
      obtain ⟨m, hm⟩ := Nat.exists_eq_add_of_lt (show k < n by omega)
      rw [← bitcodeSpirvTriple_length, List.drop_length_add_append, List.drop_replicate,
        show n-k = m+1 by omega, List.replicate_succ, List.cons_append] at hstart
      obtain ⟨rest, hrest⟩ := hstart
      have hhead := congrArg List.head? hrest
      exact absurd hhead (by simp [kAirPrefix, cstr])

/- The magic stays. -/

theorem hasMagic_iff {buf : List UInt8} :
    bitcodeHasMagic buf = true ↔ buf.take 4 = kLlvmBitcodeWrapperMagic := by
  rw [bitcodeHasMagic, Bool.and_eq_true, decide_eq_true_eq, decide_eq_true_eq]
  refine and_iff_right_of_imp fun h => ?_
  have hlen := congrArg List.length h
  rw [List.length_take, show kLlvmBitcodeWrapperMagic.length = 4 from rfl] at hlen
  omega

/-- A triple begins behind the magic. -/
theorem magic_before {p t s : List UInt8} (hhit : BeginsTriple (t++s) t)
    (h : (p++(t++s)).take 4 = kLlvmBitcodeWrapperMagic) : 4 ≤ p.length := by
  by_contra hlt
  obtain ⟨gap, tail, rest, ht, -⟩ := hhit
  have hhead : (p++(t++s))[p.length]? = some 97 := by
    rw [List.getElem?_append_right le_rfl, Nat.sub_self, ht, List.append_assoc]
    rfl
  rw [← List.getElem?_take_of_lt (Nat.not_le.1 hlt), h] at hhead
  have hno : ∀ i < 4, kLlvmBitcodeWrapperMagic[i]? ≠ some 97 := by decide
  exact hno _ (Nat.not_le.1 hlt) hhead

theorem magic_substitute {f : List UInt8 → List UInt8} {buf last : List UInt8}
    {ps : List (Piece UInt8)} (h : Cut BeginsTriple buf ps last)
    (hmagic : bitcodeHasMagic buf = true) :
    bitcodeHasMagic (substitute f ps last) = true := by
  cases h with
  | done => exact hmagic
  | @hit p t s _ ps hfirst hhit hrest =>
    rw [hasMagic_iff] at hmagic ⊢
    have hlen := magic_before hhit hmagic
    rw [substitute_cons, List.take_append_of_le_length hlen]
    rwa [List.take_append_of_le_length hlen] at hmagic

/- The whole call. -/

theorem replacement_nul (ps : List (Piece UInt8)) (t : List UInt8) :
    ∃ n, replacement ps t = bitcodeSpirvTriple++List.replicate n 0 := by
  rw [replacement]
  split_ifs
  · exact ⟨_, rfl⟩
  · exact ⟨0, (List.append_nil _).symm⟩

theorem spansOf_nil_iff {ps : List (Piece UInt8)} {pos : Nat} : spansOf ps pos = [] ↔ ps = [] := by
  cases ps with
  | nil => exact iff_of_true rfl rfl
  | cons x ps => exact iff_of_false (List.cons_ne_nil _ _) (List.cons_ne_nil _ _)

theorem spansOf_long {ps : List (Piece UInt8)} {pos : Nat} :
    (∀ x ∈ spansOf ps pos, bitcodeSpirvTriple.length ≤ x.2-x.1) ↔
      ∀ x ∈ ps, bitcodeSpirvTriple.length ≤ x.hit.length := by
  induction ps generalizing pos with
  | nil => simp [spansOf]
  | cons x ps ih =>
    rw [spansOf, List.forall_mem_cons, List.forall_mem_cons, ih]
    simp only [Nat.add_sub_cancel_left]

/-- What the call returns for a blob that is cut: nothing is found, or the pieces with the
replacement, written within the buffer. -/
theorem retarget_cut {malloc : Nat → Bool} (hgranted : ∀ n, malloc n = true)
    {buf last : List UInt8} {ps : List (Piece UInt8)} (hmagic : bitcodeHasMagic buf = true)
    (h : Cut BeginsTriple buf ps last) :
    (ps = [] → bitcodeRetargetToSpirv malloc buf = .error .protocol) ∧
    (ps ≠ [] → ∃ r, bitcodeRetargetToSpirv malloc buf = .ok r ∧
      r.bytes = substitute (replacement ps) ps last ∧ r.written ≤ r.allocated ∧
      3*r.allocated ≤ 4*buf.length) := by
  have hlen := pieces_length h
  have hspans : airSpans buf (buf.length+1) 0 = spansOf ps 0 :=
    airSpans_cut h 0 _ List.drop_zero (by omega)
  constructor
  · intro hps
    rw [bitcodeRetargetToSpirv, hmagic, hspans]
    simp only [Bool.true_eq_false, if_false, spansOf_nil_iff.2 hps, if_true]
  · intro hps
    rw [bitcodeRetargetToSpirv, hmagic, hspans]
    simp only [Bool.true_eq_false, if_false, spansOf_nil_iff, hps, hgranted, spansOf_long]
    by_cases hlong : ∀ x ∈ ps, bitcodeSpirvTriple.length ≤ x.hit.length
    · have hreplace : replacement ps = nulPadded := funext fun t => if_pos hlong
      obtain ⟨w, hrun, hle⟩ := rewriteInPlace_cut h (by simpa using hlong) [] (buf.length+1)
        buf.length (by omega) (by simp)
      simp only [List.nil_append, List.length_nil, Nat.zero_add] at hrun hle
      refine ⟨_, if_pos hlong, ?_, ?_, ?_⟩
      · rw [hreplace]
        exact congrArg Prod.fst hrun
      · exact (congrArg Prod.snd hrun).trans_le hle
      · simp only
        omega
    · have hreplace : replacement ps = fun _ => bitcodeSpirvTriple := funext fun t => if_neg hlong
      obtain ⟨q, hq, hlast⟩ := spliceSpans_cut h 0 [] List.drop_zero
      obtain ⟨hroom, hthird⟩ := spliced_length h 0
      have hbytes : (spliceSpans buf (spansOf ps 0)).1++
          buf.drop (spliceSpans buf (spansOf ps 0)).2 =
            substitute (fun _ => bitcodeSpirvTriple) ps last := by
        rw [spliceSpans, hq, hlast, List.nil_append, substitute]
      refine ⟨_, if_neg hlong, ?_, ?_, ?_⟩
      · rw [hreplace]
        exact hbytes
      · rw [hbytes]
        exact hroom
      · simp only
        omega

theorem nulPadded_substitute {s last : List UInt8} {ps : List (Piece UInt8)}
    (h : Cut BeginsTriple s ps last) (hlong : ∀ x ∈ ps, 24 ≤ x.hit.length) :
    (substitute nulPadded ps last).length = s.length := by
  induction h with
  | done => rfl
  | @hit p t s last ps _ _ _ ih =>
    obtain ⟨hhead, hps⟩ := List.forall_mem_cons.1 hlong
    rw [substitute_cons, List.length_append, List.length_append, nulPadded_length hhead, ih hps,
      List.length_append, List.length_append]

/-- What retargeting a blob is to do. -/
structure RetargetsExactly (malloc : Nat → Bool) (buf : List UInt8) : Prop where
  succeeds : (∃ r, bitcodeRetargetToSpirv malloc buf = .ok r) ↔ ∃ i t, BeginsTriple (buf.drop i) t
  output : ∀ r, bitcodeRetargetToSpirv malloc buf = .ok r →
    ∃ ps last, Cut BeginsTriple buf ps last ∧
      r.bytes = substitute (replacement ps) ps last ∧
      ((∀ x ∈ ps, bitcodeSpirvTriple.length ≤ x.hit.length) → r.bytes.length = buf.length)
  within : ∀ r, bitcodeRetargetToSpirv malloc buf = .ok r →
    r.written ≤ r.allocated ∧ 3*r.allocated ≤ 4*buf.length
  noneLeft : ∀ r, bitcodeRetargetToSpirv malloc buf = .ok r →
    Free BeginsTriple r.bytes ∧ bitcodeRetargetToSpirv malloc r.bytes = .error .protocol

/-- Where buffers are granted, every blob with the magic is retargeted exactly: each leftmost
triple is replaced, what is written fits the buffer, which is a third larger than the blob at
most, and a second call finds nothing. -/
theorem retarget_exact {malloc : Nat → Bool} (hgranted : ∀ n, malloc n = true) (buf : List UInt8)
    (hmagic : bitcodeHasMagic buf = true) : RetargetsExactly malloc buf := by
  obtain ⟨ps, last, hcut⟩ := exists_cut (fun _ _ => begins_part) buf
  obtain ⟨hnone, hsome⟩ := retarget_cut hgranted hmagic hcut
  have hok : ∀ r, bitcodeRetargetToSpirv malloc buf = .ok r → ps ≠ [] := by
    intro r hr hps
    rw [hnone hps] at hr
    cases hr
  constructor
  · rw [← not_iff_not]
    have hfree : (¬∃ i t, BeginsTriple (buf.drop i) t) ↔ ps = [] := by
      rw [hcut.nil_iff]
      exact ⟨fun h i t ht => h ⟨i, t, ht⟩, fun h hex => by
        obtain ⟨i, t, ht⟩ := hex
        exact h i t ht⟩
    rw [hfree]
    constructor
    · intro h
      by_contra hps
      obtain ⟨r, hr, -⟩ := hsome hps
      exact h ⟨r, hr⟩
    · intro hps h
      obtain ⟨r, hr⟩ := h
      exact hok r hr hps
  · intro r hr
    obtain ⟨r', hr', hbytes, -⟩ := hsome (hok r hr)
    obtain rfl := Except.ok.inj (hr.symm.trans hr')
    refine ⟨ps, last, hcut, hbytes, fun hlong => ?_⟩
    rw [hbytes, show replacement ps = nulPadded from funext fun t => if_pos hlong]
    exact nulPadded_substitute hcut (by simpa using hlong)
  · intro r hr
    obtain ⟨r', hr', -, hfits⟩ := hsome (hok r hr)
    obtain rfl := Except.ok.inj (hr.symm.trans hr')
    exact hfits
  · intro r hr
    obtain ⟨r', hr', hbytes, -⟩ := hsome (hok r hr)
    obtain rfl := Except.ok.inj (hr.symm.trans hr')
    have hfree := hcut.free (triple_inert (replacement_nul ps))
    rw [← hbytes] at hfree
    have hagain : bitcodeHasMagic r.bytes = true := hbytes ▸ magic_substitute hcut hmagic
    exact ⟨hfree, (retarget_cut hgranted hagain (.done hfree)).1 rfl⟩

/-- A short triple and a long one behind it. -/
def mixedBlob : List UInt8 := kLlvmBitcodeWrapperMagic++
  cstr "air64-apple-macosx1.air64_v28-apple-macosx14.0.0"

theorem mixedBlob_exact : RetargetsExactly (fun _ => true) mixedBlob :=
  retarget_exact (fun _ => rfl) mixedBlob (by decide)

example : (bitcodeRetargetToSpirv (fun _ => true) mixedBlob).toOption =
    some ⟨56, kLlvmBitcodeWrapperMagic++bitcodeSpirvTriple++bitcodeSpirvTriple, 52⟩ := by
  decide

end Lagfx
