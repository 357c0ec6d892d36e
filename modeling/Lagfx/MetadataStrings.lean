import Lagfx.BitcodeEffects
import Lagfx.BitstreamVbr

/-! The batches of METADATA_STRINGS: the packing of strings, and what the reader takes of any
record. -/
namespace Lagfx
open ByteMemory Bits

/-- What a packing denotes: strings from `sd` by the sizes in `st`, until `n` are taken, the
table ends, a size has more than 32 bits, or a string would leave the data. -/
def Unpacks (st : List UInt8) : Nat → Nat → List UInt8 → List (List UInt8) → Prop
  | 0, _, _, strs => strs = []
  | n+1, bit, sd, strs =>
    (∃ ds, ChunksAt st 6 ds bit ∧ vbrValue 6 ds < 2^32 ∧ vbrValue 6 ds ≤ sd.length ∧
      ∃ rest, strs = sd.take (vbrValue 6 ds)::rest ∧
        Unpacks st n (bit+6*ds.length) (sd.drop (vbrValue 6 ds)) rest) ∨
    (strs = [] ∧ ∀ ds, ChunksAt st 6 ds bit →
      2^32 ≤ vbrValue 6 ds ∨ sd.length < vbrValue 6 ds)

/-- The count, the size of the table, and the table with the data behind it. -/
def UnpacksRecord (r : BsRecord) (room : Nat) (strs : List (List UInt8)) : Prop :=
  match r.ops, r.blob with
  | batch::size::_, some blob =>
    if blob.length < u32 size then strs = []
    else Unpacks (blob.take (u32 size)) (min (u32 batch) room) 0 (blob.drop (u32 size)) strs
  | _, _ => strs = []

/-- A record that packs `strs`: the sizes in VBR6, padded to bytes, then the bytes. -/
def Packs (r : BsRecord) (strs : List (List UInt8)) : Prop :=
  ∃ table, r.ops = [strs.length, table.length] ∧ r.blob = some (table++strs.flatten) ∧
    BitsAt table 0 (strs.flatMap fun s => putVbr 6 s.length) ∧
    strs.length < 2^32 ∧ table.length < 2^32 ∧ ∀ s ∈ strs, s.length < 2^32

/-- Where the arena ends behind `strs` and their terminators. -/
def arenaBehind (used : Nat) (strs : List (List UInt8)) : Nat :=
  strs.foldl (fun used s => align8 used+(s.length+1)) used

/-- The strings have the next metadata ids, and stand at their offsets while these have 32
bits. -/
def StringsStored (m m' : AirModule) (w w' : MetadataWalk) (strs : List (List UInt8)) : Prop :=
  ∃ ids, w' = { w with strings := w.strings++ids } ∧ ids.length = strs.length ∧
    (arenaBehind m.arena.used strs ≤ 2^32 →
      ∀ p ∈ ids.zip strs, m'.arena.cells p.1 = some (.bytes (p.2++[0])))

/-- The strings taken are those of the packing; and those packed come back unless memory ends. -/
structure StringsDecoded (env : ReaderEnv) (m : AirModule) (w : MetadataWalk) (r : BsRecord) :
    Prop where
  unpacks : ∀ m' w', metadataStringsRecord env m w r = .go m' w' →
    ∃ strs, UnpacksRecord r (maxMdStrings-w.strings.length) strs ∧ StringsStored m m' w w' strs
  packed : ∀ strs, Packs r strs → w.strings.length+strs.length ≤ maxMdStrings →
    (∀ m' w', metadataStringsRecord env m w r = .go m' w' → StringsStored m m' w w' strs) ∧
    ((∀ k, env.grants k = true) → 0 < m.arena.used → arenaBehind m.arena.used strs ≤ 2^32 →
      ∃ m' w', metadataStringsRecord env m w r = .go m' w')

/-- No size that is reached has 2^32 or more with low bits that pass for a size. -/
def SizesBounded (st : List UInt8) : Nat → Nat → List UInt8 → Prop
  | 0, _, _ => True
  | n+1, bit, sd => ∀ ds, ChunksAt st 6 ds bit →
    (2^32 ≤ vbrValue 6 ds → sd.length < vbrValue 6 ds%2^32) ∧
    (vbrValue 6 ds < 2^32 → vbrValue 6 ds ≤ sd.length →
      SizesBounded st n (bit+6*ds.length) (sd.drop (vbrValue 6 ds)))

def RecordSizesBounded (r : BsRecord) (room : Nat) : Prop :=
  match r.ops, r.blob with
  | batch::size::_, some blob => blob.length < u32 size ∨
    SizesBounded (blob.take (u32 size)) (min (u32 batch) room) 0 (blob.drop (u32 size))
  | _, _ => True

/- Chunks. -/

section
variable {buf : List UInt8}

theorem chunksAt_end {n : Nat} {ds : List Nat} {pos : Nat} (h : ChunksAt buf n ds pos) :
    pos+n*ds.length ≤ 8*buf.length := by
  induction ds generalizing pos with
  | nil => cases h
  | cons d ds ih =>
    cases ds with
    | nil =>
      have hend := h.2.1
      rw [putBits_length] at hend
      simpa using hend
    | cons e ds =>
      have hend := ih h.2.2
      rw [List.length_cons, Nat.mul_succ]
      omega

/-- There is one word at a position. -/
theorem chunksAt_unique {n : Nat} (hn : 2 ≤ n) (h32 : n ≤ 32) {ds ds' : List Nat} {pos : Nat}
    (h : ChunksAt buf n ds pos) (h' : ChunksAt buf n ds' pos) : ds = ds' := by
  induction ds generalizing ds' pos with
  | nil => cases h
  | cons d ds ih =>
    cases ds' with
    | nil => cases h'
    | cons d' ds' =>
      have hread : ∀ {e : Nat}, e < 2^n → BitsAt buf pos (putBits n e) →
          readBits buf n pos = some (e, pos+n) := fun he hat =>
        readBits_lt_at hat (by omega) h32 he
      have hsame : ∀ {e e' : Nat}, e < 2^n → e' < 2^n → BitsAt buf pos (putBits n e) →
          BitsAt buf pos (putBits n e') → e = e' := fun he he' hat hat' =>
        (Prod.mk.inj (Option.some.inj ((hread he hat).symm.trans (hread he' hat')))).1
      by_cases hne : ds = []
      · subst hne
        obtain ⟨hd, hat⟩ := h
        by_cases hne' : ds' = []
        · subst hne'
          rw [hsame (chunk_fits hn hd).1 (chunk_fits hn h'.1).1 hat h'.2]
        · obtain ⟨hd', hat', -⟩ := (chunksAt_cons ds' hne' d' pos).1 h'
          have heq := hsame (chunk_fits hn hd).1 (chunk_fits hn hd').2 hat hat'
          omega
      · obtain ⟨hd, hat, hrest⟩ := (chunksAt_cons ds hne d pos).1 h
        by_cases hne' : ds' = []
        · subst hne'
          have heq := hsame (chunk_fits hn hd).2 (chunk_fits hn h'.1).1 hat h'.2
          have hd' := h'.1
          omega
        · obtain ⟨hd', hat', hrest'⟩ := (chunksAt_cons ds' hne' d' pos).1 h'
          have heq := hsame (chunk_fits hn hd).2 (chunk_fits hn hd').2 hat hat'
          rw [ih hrest hrest', show d = d' by omega]

/-- What the writer puts out are the chunks of the value. -/
theorem putVbr_chunks {n : Nat} (hn : 2 ≤ n) (v : Nat) {pos : Nat}
    (h : BitsAt buf pos (putVbr n v)) : ∃ ds, ChunksAt buf n ds pos ∧ vbrValue n ds = v ∧
      (putVbr n v).length = n*ds.length := by
  induction v using Nat.strongRecOn generalizing pos with
  | ind v ih =>
    by_cases hlast : v < 2^(n-1)
    · rw [putVbr_last hlast] at h ⊢
      refine ⟨[v], ⟨hlast, h⟩, ?_, by simp⟩
      simp [vbrValue]
    · have hle : 2^(n-1) ≤ v := not_lt.1 hlast
      have h2 : 2^1 ≤ 2^(n-1) := Nat.pow_le_pow_right (by omega) (by omega)
      rw [putVbr_more hn hle] at h ⊢
      obtain ⟨hchunk, hrest⟩ := bitsAt_append.1 h
      rw [putBits_length] at hrest
      obtain ⟨ds, hds, hval, hlen⟩ := ih (v/2^(n-1)) (Nat.div_lt_self (by omega) (by omega)) hrest
      have hne : ds ≠ [] := by
        rintro rfl
        cases hds
      refine ⟨v%2^(n-1)::ds, (chunksAt_cons ds hne _ pos).2
        ⟨Nat.mod_lt _ (Nat.two_pow_pos _), hchunk, hds⟩, ?_, ?_⟩
      · have hcons : vbrValue n (v%2^(n-1)::ds) = v%2^(n-1)+2^(n-1)*vbrValue n ds :=
          Nat.ofDigits_cons ..
        rw [hcons, hval, Nat.mod_add_div]
      · rw [List.length_append, putBits_length, hlen, List.length_cons, Nat.mul_succ, Nat.add_comm]

end

/- One size. -/

section
variable {st : List UInt8}

/-- The accumulator takes the next chunk: the low 32 bits of the value so far. -/
theorem or_low_chunk {p shift : Nat} (hp : p < 2^shift) (d : Nat) :
    p%2^32 ||| u32 (d <<< shift) = (p+2^shift*d)%2^32 := by
  rw [u32, ← Nat.or_mod_two_pow, Nat.shiftLeft_eq, Nat.mul_comm, Nat.or_comm,
    ← Nat.two_pow_add_eq_or_of_lt hp, Nat.add_comm]

/-- A size is read modulo 32 bits. -/
theorem mdStringSize_chunks {ds : List Nat} {fuel p shift bit : Nat} (h : ChunksAt st 6 ds bit)
    (hfuel : ds.length ≤ fuel) (hp : p < 2^shift) :
    mdStringSize st fuel (p%2^32) shift bit =
      some ((p+2^shift*vbrValue 6 ds)%2^32, bit+6*ds.length) := by
  induction ds generalizing fuel p shift bit with
  | nil => cases h
  | cons d ds ih =>
    rw [List.length_cons] at hfuel
    obtain ⟨fuel, rfl⟩ : ∃ k, fuel = k+1 := ⟨fuel-1, by omega⟩
    by_cases hne : ds = []
    · subst hne
      obtain ⟨hd, hat⟩ := h
      have hd32 : d < 32 := hd
      rw [mdStringSize, readBits_lt_at hat (by decide) (by decide) (by omega)]
      simp only [Nat.mod_eq_of_lt hd32, if_pos hd32, or_low_chunk hp]
      simp [vbrValue]
    · obtain ⟨hd, hat, hrest⟩ := (chunksAt_cons ds hne d bit).1 h
      have hd32 : d < 32 := hd
      have hp' : p+2^shift*d < 2^(shift+5) := by
        have hmul : 2^shift*(d+1) ≤ 2^shift*2^5 := Nat.mul_le_mul_left _ hd
        rw [pow_add]
        rw [Nat.mul_succ] at hmul
        omega
      rw [mdStringSize, readBits_lt_at hat (by decide) (by decide) (by omega)]
      simp only [show (d+2^(6-1))%32 = d by omega, or_low_chunk hp]
      rw [if_neg (by omega), ih hrest (by omega) hp']
      have hcons : vbrValue 6 (d::ds) = d+2^5*vbrValue 6 ds := Nat.ofDigits_cons ..
      rw [hcons, List.length_cons, Nat.mul_succ]
      simp only [Option.some.injEq, Prod.mk.injEq]
      constructor
      · congr 1
        rw [pow_add]
        ring
      · omega

theorem mdStringSize_some {fuel v shift bit : Nat} {r : Nat × Nat}
    (h : mdStringSize st fuel v shift bit = some r) : ∃ ds, ChunksAt st 6 ds bit := by
  induction fuel generalizing v shift bit with
  | zero => cases h
  | succ fuel ih =>
    rw [mdStringSize] at h
    cases hread : readBits st 6 bit with
    | none =>
      rw [hread] at h
      cases h
    | some c =>
      obtain ⟨c, next⟩ := c
      obtain ⟨hat, hlt, rfl⟩ := readBits_some hread
      rw [hread] at h
      rcases chunk_cases (by decide) hlt with hd | ⟨d, hd, rfl⟩
      · exact ⟨[c], hd, hat⟩
      · have hd32 : d < 32 := hd
        simp only at h
        rw [if_neg (by omega)] at h
        obtain ⟨ds, hds⟩ := ih h
        have hne : ds ≠ [] := by
          rintro rfl
          cases hds
        exact ⟨d::ds, (chunksAt_cons ds hne d bit).2 ⟨hd, hat, hds⟩⟩

/-- The size at a bit of the table. -/
def sizeAt (st : List UInt8) (bit : Nat) : Option (Nat × Nat) :=
  mdStringSize st (2*st.length+1) 0 0 bit

theorem sizeAt_chunks {ds : List Nat} {bit : Nat} (h : ChunksAt st 6 ds bit) :
    sizeAt st bit = some (vbrValue 6 ds%2^32, bit+6*ds.length) := by
  have hend := chunksAt_end h
  have hsize : mdStringSize st (2*st.length+1) (0%2^32) 0 bit = _ :=
    mdStringSize_chunks h (by omega) (by decide)
  simpa [sizeAt] using hsize

theorem sizeAt_cases (st : List UInt8) (bit : Nat) :
    (∃ ds, ChunksAt st 6 ds bit ∧ sizeAt st bit = some (vbrValue 6 ds%2^32, bit+6*ds.length)) ∨
      (sizeAt st bit = none ∧ ∀ ds, ¬ChunksAt st 6 ds bit) := by
  cases hsize : sizeAt st bit with
  | none =>
    refine .inr ⟨rfl, fun ds hds => ?_⟩
    cases hsize.symm.trans (sizeAt_chunks hds)
  | some r =>
    obtain ⟨ds, hds⟩ := mdStringSize_some hsize
    exact .inl ⟨ds, hds, by rw [← hsize, sizeAt_chunks hds]⟩

/- The strings taken. -/

/-- The bytes of the strings that a batch takes, up to `n`. -/
def mdTaken (st : List UInt8) : Nat → Nat → List UInt8 → List (List UInt8)
  | 0, _, _ => []
  | n+1, bit, sd =>
    match sizeAt st bit with
    | none => []
    | some (slen, bit) =>
      if sd.length < slen then []
      else sd.take slen::mdTaken st n bit (sd.drop slen)

theorem unpacks_none {n bit : Nat} {sd : List UInt8} {strs : List (List UInt8)}
    (hno : ∀ ds, ¬ChunksAt st 6 ds bit) : Unpacks st (n+1) bit sd strs ↔ strs = [] := by
  constructor
  · rintro (⟨ds, hds, -⟩ | ⟨hnil, -⟩)
    · exact absurd hds (hno ds)
    · exact hnil
  · exact fun hnil => .inr ⟨hnil, fun ds hds => absurd hds (hno ds)⟩

/-- The packing at a size. -/
theorem unpacks_size {n bit : Nat} {sd : List UInt8} {strs : List (List UInt8)} {ds : List Nat}
    (hds : ChunksAt st 6 ds bit) : Unpacks st (n+1) bit sd strs ↔
      (vbrValue 6 ds < 2^32 ∧ vbrValue 6 ds ≤ sd.length ∧
        ∃ rest, strs = sd.take (vbrValue 6 ds)::rest ∧
          Unpacks st n (bit+6*ds.length) (sd.drop (vbrValue 6 ds)) rest) ∨
      (strs = [] ∧ (2^32 ≤ vbrValue 6 ds ∨ sd.length < vbrValue 6 ds)) := by
  constructor
  · rintro (⟨ds', hds', h⟩ | ⟨hnil, hlong⟩)
    · obtain rfl := chunksAt_unique (by decide) (by decide) hds' hds
      exact .inl h
    · exact .inr ⟨hnil, hlong ds hds⟩
  · rintro (h | ⟨hnil, hlong⟩)
    · exact .inl ⟨ds, hds, h⟩
    · refine .inr ⟨hnil, fun ds' hds' => ?_⟩
      rwa [chunksAt_unique (by decide) (by decide) hds' hds]

theorem sizesBounded_size {n bit : Nat} {sd : List UInt8} {ds : List Nat}
    (hds : ChunksAt st 6 ds bit) : SizesBounded st (n+1) bit sd ↔
      (2^32 ≤ vbrValue 6 ds → sd.length < vbrValue 6 ds%2^32) ∧
      (vbrValue 6 ds < 2^32 → vbrValue 6 ds ≤ sd.length →
        SizesBounded st n (bit+6*ds.length) (sd.drop (vbrValue 6 ds))) := by
  constructor
  · exact fun h => h ds hds
  · intro h ds' hds'
    rwa [chunksAt_unique (by decide) (by decide) hds' hds]

/-- With bounded sizes the packing is what is taken; else less than is taken. -/
theorem unpacks_cases {n bit : Nat} {sd : List UInt8} {strs : List (List UInt8)}
    (h : Unpacks st n bit sd strs) :
    (SizesBounded st n bit sd ∧ strs = mdTaken st n bit sd) ∨
      (¬SizesBounded st n bit sd ∧ strs.length < (mdTaken st n bit sd).length) := by
  induction n generalizing bit sd strs with
  | zero => exact .inl ⟨trivial, h⟩
  | succ n ih =>
    rw [mdTaken]
    rcases sizeAt_cases st bit with ⟨ds, hds, hsize⟩ | ⟨hnone, hno⟩
    · rw [hsize, sizesBounded_size hds]
      rw [unpacks_size hds] at h
      simp only
      by_cases hbig : 2^32 ≤ vbrValue 6 ds
      · obtain rfl : strs = [] := by
          rcases h with ⟨hlt, -⟩ | ⟨hnil, -⟩
          · omega
          · exact hnil
        by_cases hshort : sd.length < vbrValue 6 ds%2^32
        · rw [if_pos hshort]
          exact .inl ⟨⟨fun _ => hshort, fun hlt => by omega⟩, rfl⟩
        · rw [if_neg hshort]
          exact .inr ⟨fun hb => hshort (hb.1 hbig), by simp⟩
      · have hlt := not_le.1 hbig
        rw [Nat.mod_eq_of_lt hlt]
        rcases h with ⟨-, hle, rest, rfl, hrest⟩ | ⟨rfl, hlong⟩
        · rw [if_neg (not_lt.2 hle)]
          rcases ih hrest with ⟨hb, rfl⟩ | ⟨hb, hless⟩
          · exact .inl ⟨⟨fun h => absurd h hbig, fun _ _ => hb⟩, rfl⟩
          · exact .inr ⟨fun h => hb (h.2 hlt hle), Nat.succ_lt_succ hless⟩
        · have hshort := hlong.resolve_left hbig
          rw [if_pos hshort]
          exact .inl ⟨⟨fun h => absurd h hbig, fun _ hle => by omega⟩, rfl⟩
    · rw [hnone]
      rw [unpacks_none hno] at h
      exact .inl ⟨fun ds hds => absurd hds (hno ds), h⟩

theorem mdTaken_unpacks {n bit : Nat} {sd : List UInt8} (h : SizesBounded st n bit sd) :
    Unpacks st n bit sd (mdTaken st n bit sd) := by
  induction n generalizing bit sd with
  | zero => rfl
  | succ n ih =>
    rw [mdTaken]
    rcases sizeAt_cases st bit with ⟨ds, hds, hsize⟩ | ⟨hnone, hno⟩
    · obtain ⟨hbig, hrest⟩ := h ds hds
      rw [hsize, unpacks_size hds]
      simp only
      by_cases hfit : 2^32 ≤ vbrValue 6 ds
      · rw [if_pos (hbig hfit)]
        exact .inr ⟨rfl, .inl hfit⟩
      · have hlt := not_le.1 hfit
        rw [Nat.mod_eq_of_lt hlt]
        split_ifs with hshort
        · exact .inr ⟨rfl, .inr hshort⟩
        · exact .inl ⟨hlt, not_lt.1 hshort, _, rfl, ih (hrest hlt (not_lt.1 hshort))⟩
    · rw [hnone, unpacks_none hno]

/-- Strings packed are denoted, and their sizes are bounded. -/
theorem packed_unpacks {strs : List (List UInt8)} {bit : Nat}
    (hat : BitsAt st bit (strs.flatMap fun s => putVbr 6 s.length))
    (hlen : ∀ s ∈ strs, s.length < 2^32) :
    SizesBounded st strs.length bit strs.flatten ∧
      mdTaken st strs.length bit strs.flatten = strs := by
  induction strs generalizing bit with
  | nil => exact ⟨trivial, rfl⟩
  | cons s strs ih =>
    rw [List.flatMap_cons] at hat
    obtain ⟨hs, hrest⟩ := bitsAt_append.1 hat
    obtain ⟨ds, hds, hval, hend⟩ := putVbr_chunks (by decide) s.length hs
    obtain ⟨hlt, hlen⟩ := List.forall_mem_cons.1 hlen
    rw [hend] at hrest
    obtain ⟨hb, htaken⟩ := ih hrest hlen
    rw [List.length_cons, List.flatten_cons, sizesBounded_size hds, mdTaken, sizeAt_chunks hds]
    simp only [hval, Nat.mod_eq_of_lt hlt, List.length_append, List.take_left, List.drop_left]
    refine ⟨⟨fun h => by omega, fun _ _ => hb⟩, ?_⟩
    rw [if_neg (by omega), htaken]

end

/- The run over the arena. -/

section
variable {env : ReaderEnv} {st : List UInt8}

theorem arenaBehind_ge (used : Nat) (strs : List (List UInt8)) :
    used ≤ arenaBehind used strs := by
  induction strs generalizing used with
  | nil => exact le_refl _
  | cons s strs ih =>
    have hal := align8_le used
    have hrest := ih (align8 used+(s.length+1))
    simp only [arenaBehind, List.foldl_cons] at hrest ⊢
    omega

theorem intern_end {m : AirModule} {n : Nat} {c : Cell} (h : (m.intern env n c).1 ≠ 0) :
    (m.intern env n c).2.arena.used = align8 m.arena.used+n := by
  rw [intern_used]
  rcases (arenaReserve_cases env m.arena n).1 with ⟨h0, -⟩ | ⟨-, hused⟩
  · exact absurd h0 h
  · exact hused

/-- The ids of a run are new offsets, one for each string taken, which stands there. -/
theorem mdStrings_stored {n : Nat} {m m' : AirModule} {strings strings' : List Nat}
    {sd : List UInt8} {bit : Nat}
    (h : mdStrings env st n m strings sd bit = some (m', strings')) :
    ∃ ids, strings' = strings++ids ∧
      ids.length = (mdTaken st (min n (maxMdStrings-strings.length)) bit sd).length ∧
      (arenaBehind m.arena.used
          (mdTaken st (min n (maxMdStrings-strings.length)) bit sd) ≤ 2^32 →
        (∀ o < m.arena.used, m'.arena.cells o = m.arena.cells o) ∧
        ∀ p ∈ ids.zip (mdTaken st (min n (maxMdStrings-strings.length)) bit sd),
          m'.arena.cells p.1 = some (.bytes (p.2++[0]))) := by
  induction n generalizing m strings sd bit with
  | zero =>
    cases h
    refine ⟨[], by simp, by simp [mdTaken], fun _ => ⟨fun o _ => rfl, fun p hp => ?_⟩⟩
    simp at hp
  | succ n ih =>
    have hstop : mdTaken st (min (n+1) (maxMdStrings-strings.length)) bit sd = [] →
        (m, strings) = (m', strings') → ∃ ids, strings' = strings++ids ∧ ids.length =
          (mdTaken st (min (n+1) (maxMdStrings-strings.length)) bit sd).length ∧
        (arenaBehind m.arena.used
            (mdTaken st (min (n+1) (maxMdStrings-strings.length)) bit sd) ≤ 2^32 →
          (∀ o < m.arena.used, m'.arena.cells o = m.arena.cells o) ∧
          ∀ p ∈ ids.zip (mdTaken st (min (n+1) (maxMdStrings-strings.length)) bit sd),
            m'.arena.cells p.1 = some (.bytes (p.2++[0]))) := by
      intro hnil heq
      obtain ⟨rfl, rfl⟩ := Prod.mk.inj heq
      rw [hnil]
      exact ⟨[], by simp, rfl, fun _ => ⟨fun _ _ => rfl, fun p hp => by simp at hp⟩⟩
    rw [mdStrings] at h
    split_ifs at h with hfull
    · refine hstop ?_ (Option.some.inj h)
      rw [Nat.sub_eq_zero_of_le hfull, Nat.min_zero]
      rfl
    · have hroom : min (n+1) (maxMdStrings-strings.length) =
          min n (maxMdStrings-(strings.length+1))+1 := by omega
      change (match sizeAt st bit with
        | none => some (m, strings)
        | some (slen, bit) => _) = _ at h
      cases hsize : sizeAt st bit with
      | none =>
        rw [hsize] at h
        refine hstop ?_ (Option.some.inj h)
        rw [hroom, mdTaken, hsize]
      | some r =>
        obtain ⟨slen, next⟩ := r
        rw [hsize] at h
        simp only at h
        split_ifs at h with hshort hoom
        · refine hstop ?_ (Option.some.inj h)
          rw [hroom, mdTaken, hsize]
          exact if_pos hshort
        · have hend := intern_end hoom
          have hal := align8_le m.arena.used
          obtain ⟨ids, rfl, hnum, hcells⟩ := ih h
          rw [List.length_append, List.length_singleton] at hnum hcells
          have htaken : mdTaken st (min (n+1) (maxMdStrings-strings.length)) bit sd =
              sd.take slen::mdTaken st (min n (maxMdStrings-(strings.length+1))) next
                (sd.drop slen) := by
            rw [hroom, mdTaken, hsize]
            exact if_neg hshort
          rw [htaken]
          refine ⟨_::ids, by rw [List.append_assoc]; rfl, by rw [List.length_cons, hnum]; rfl,
            fun hlimit => ?_⟩
          have hlen : (sd.take slen).length = slen := List.length_take_of_le (not_lt.1 hshort)
          have hlimit' : arenaBehind (m.intern env (slen+1) (.bytes (sd.take slen++[0]))).2.arena.used
              (mdTaken st (min n (maxMdStrings-(strings.length+1))) next (sd.drop slen)) ≤
                2^32 := by
            rw [hend]
            simpa only [arenaBehind, List.foldl_cons, hlen] using hlimit
          have hused := le_trans (arenaBehind_ge _ _) hlimit'
          obtain ⟨hoff, -, hput⟩ := intern_cells hoom hused
          obtain ⟨hbelow, hids⟩ := hcells hlimit'
          rw [hend] at hbelow
          constructor
          · intro o ho
            rw [hbelow o (by omega), hput, Function.update_of_ne (by omega)]
          · intro p hp
            rw [List.zip_cons_cons, List.mem_cons] at hp
            rcases hp with rfl | hp
            · simp only
              rw [hoff, hbelow _ (by omega), hput, Function.update_self]
            · exact hids p hp

theorem intern_granted (hgrants : ∀ k, env.grants k = true) {m : AirModule} {n : Nat} {c : Cell}
    (hpos : 0 < m.arena.used) (hn : 0 < n) (hlimit : align8 m.arena.used+n ≤ 2^32) :
    (m.intern env n c).1 ≠ 0 := by
  have hal := align8_le m.arena.used
  have hoff : (arenaReserve env m.arena n).1 = u32 (align8 m.arena.used) := by
    simp only [arenaReserve, hgrants, if_true]
    split_ifs <;> rfl
  have hword : u32 (align8 m.arena.used) = align8 m.arena.used := Nat.mod_eq_of_lt (by omega)
  change (arenaReserve env m.arena n).1 ≠ 0
  rw [hoff, hword]
  omega

/-- While memory is granted the run goes to its end. -/
theorem mdStrings_granted (hgrants : ∀ k, env.grants k = true) {n : Nat} {m : AirModule}
    {strings : List Nat} {sd : List UInt8} {bit : Nat} (hpos : 0 < m.arena.used)
    (hlimit : arenaBehind m.arena.used
      (mdTaken st (min n (maxMdStrings-strings.length)) bit sd) ≤ 2^32) :
    ∃ r, mdStrings env st n m strings sd bit = some r := by
  induction n generalizing m strings sd bit with
  | zero => exact ⟨_, rfl⟩
  | succ n ih =>
    rw [mdStrings]
    split_ifs with hfull
    · exact ⟨_, rfl⟩
    · have hroom : min (n+1) (maxMdStrings-strings.length) =
          min n (maxMdStrings-(strings.length+1))+1 := by omega
      change ∃ r, (match sizeAt st bit with
        | none => some (m, strings)
        | some (slen, bit) => _) = some r
      rw [hroom, mdTaken] at hlimit
      cases hsize : sizeAt st bit with
      | none => exact ⟨_, rfl⟩
      | some r =>
        obtain ⟨slen, next⟩ := r
        rw [hsize] at hlimit
        simp only at hlimit ⊢
        split_ifs with hshort hoom
        · exact ⟨_, rfl⟩
        · rw [if_neg hshort] at hlimit
          have hlen : (sd.take slen).length = slen := List.length_take_of_le (not_lt.1 hshort)
          simp only [arenaBehind, List.foldl_cons, hlen] at hlimit
          have hge := arenaBehind_ge (align8 m.arena.used+(slen+1))
            (mdTaken st (min n (maxMdStrings-(strings.length+1))) next (sd.drop slen))
          exact absurd hoom (intern_granted hgrants hpos (by omega) (le_trans hge hlimit))
        · rw [if_neg hshort] at hlimit
          have hlen : (sd.take slen).length = slen := List.length_take_of_le (not_lt.1 hshort)
          have hend := intern_end hoom
          refine ih (by omega) ?_
          rw [List.length_append, List.length_singleton, hend]
          simpa only [arenaBehind, List.foldl_cons, hlen] using hlimit

/- Records. -/

theorem metadataStringsRecord_eq {m : AirModule} {w : MetadataWalk} {r : BsRecord}
    {batch size : Nat} {ops : List Nat} {blob : List UInt8} (hops : r.ops = batch::size::ops)
    (hblob : r.blob = some blob) (hsize : ¬blob.length < u32 size) (hne : blob ≠ [])
    (hgrant : env.grants m.arena.calls = true) : metadataStringsRecord env m w r =
      match mdStrings env (blob.take (u32 size)) (u32 batch) m.called w.strings
        (blob.drop (u32 size)) 0 with
      | none => .oom
      | some (m, strings) => .go m { w with strings := strings } := by
  rw [metadataStringsRecord, hops, hblob]
  simp only
  rw [if_neg (by simp [hne, hsize])]
  exact if_neg (by simp [hgrant])

theorem strings_kept (m : AirModule) (w : MetadataWalk) : StringsStored m m w w [] :=
  ⟨[], by simp, rfl, fun _ p hp => by simp at hp⟩

/-- The strings that the reader takes of a record. -/
def recordTaken (r : BsRecord) (room : Nat) : List (List UInt8) :=
  match r.ops, r.blob with
  | batch::size::_, some blob =>
    if blob.length < u32 size then []
    else mdTaken (blob.take (u32 size)) (min (u32 batch) room) 0 (blob.drop (u32 size))
  | _, _ => []

theorem mdTaken_nil (n bit : Nat) (sd : List UInt8) : mdTaken [] n bit sd = [] := by
  cases n with
  | zero => rfl
  | succ n =>
    rw [mdTaken]
    rcases sizeAt_cases [] bit with ⟨ds, hds, -⟩ | ⟨hnone, -⟩
    · have hend := chunksAt_end hds
      obtain ⟨init, d, rfl, -⟩ := chunksAt_snoc hds
      simp at hend
    · rw [hnone]

/-- A batch that is not run takes nothing. -/
theorem record_skipped {m : AirModule} {w : MetadataWalk} {r : BsRecord}
    (h : metadataStringsRecord env m w r = .go m w)
    (hnil : ∀ room, recordTaken r room = []) {m' : AirModule} {w' : MetadataWalk}
    (hgo : metadataStringsRecord env m w r = .go m' w') (room : Nat) :
    StringsStored m m' w w' (recordTaken r room) := by
  obtain ⟨rfl, rfl⟩ := Handled.go.inj (h.symm.trans hgo)
  rw [hnil]
  exact strings_kept m w

theorem record_cases (env : ReaderEnv) (m : AirModule) (w : MetadataWalk) (r : BsRecord) :
    (metadataStringsRecord env m w r = .go m w ∧ ∀ room, recordTaken r room = []) ∨
      ∃ batch size ops blob, r.ops = batch::size::ops ∧ r.blob = some blob ∧
        ¬blob.length < u32 size ∧ blob ≠ [] := by
  cases hblob : r.blob with
  | none =>
    refine .inl ⟨?_, fun room => ?_⟩
    · rw [metadataStringsRecord, hblob]
      rcases r.ops with - | ⟨a, - | ⟨b, ops⟩⟩ <;> rfl
    · rw [recordTaken, hblob]
      rcases r.ops with - | ⟨a, - | ⟨b, ops⟩⟩ <;> rfl
  | some blob =>
    rcases hops : r.ops with - | ⟨batch, - | ⟨size, ops⟩⟩
    · refine .inl ⟨?_, fun room => ?_⟩
      · rw [metadataStringsRecord, hops]
      · rw [recordTaken, hops]
    · refine .inl ⟨?_, fun room => ?_⟩
      · rw [metadataStringsRecord, hops]
      · rw [recordTaken, hops]
    · by_cases hbad : blob = [] ∨ blob.length < u32 size
      · refine .inl ⟨?_, fun room => ?_⟩
        · rw [metadataStringsRecord, hops, hblob]
          exact if_pos hbad
        · rw [recordTaken, hops, hblob]
          simp only
          split_ifs with hsize
          · rfl
          · rw [hbad.resolve_right hsize, List.take_nil, mdTaken_nil]
      · exact .inr ⟨batch, size, ops, blob, rfl, rfl, fun h => hbad (.inr h),
          fun h => hbad (.inl h)⟩

theorem recordTaken_eq {r : BsRecord} {batch size : Nat} {ops : List Nat} {blob : List UInt8}
    (hops : r.ops = batch::size::ops) (hblob : r.blob = some blob)
    (hsize : ¬blob.length < u32 size) (room : Nat) : recordTaken r room =
      mdTaken (blob.take (u32 size)) (min (u32 batch) room) 0 (blob.drop (u32 size)) := by
  rw [recordTaken, hops, hblob]
  exact if_neg hsize

/-- What a record does is to store the strings taken. -/
theorem record_stored {m m' : AirModule} {w w' : MetadataWalk} {r : BsRecord}
    (hgo : metadataStringsRecord env m w r = .go m' w') :
    StringsStored m m' w w' (recordTaken r (maxMdStrings-w.strings.length)) := by
  rcases record_cases env m w r with
    ⟨hskip, hnil⟩ | ⟨batch, size, ops, blob, hops, hblob, hsize, hne⟩
  · exact record_skipped hskip hnil hgo _
  · by_cases hgrant : env.grants m.arena.calls = true
    · rw [metadataStringsRecord_eq hops hblob hsize hne hgrant] at hgo
      cases hrun : mdStrings env (blob.take (u32 size)) (u32 batch) m.called w.strings
          (blob.drop (u32 size)) 0 with
      | none =>
        rw [hrun] at hgo
        cases hgo
      | some s =>
        rw [hrun] at hgo
        obtain ⟨hm, hw⟩ := Handled.go.inj hgo
        obtain ⟨ids, hids, hnum, hcells⟩ := mdStrings_stored hrun
        rw [recordTaken_eq hops hblob hsize]
        refine ⟨ids, ?_, hnum, fun hlimit => ?_⟩
        · rw [← hw, hids]
        · rw [← hm]
          exact (hcells hlimit).2
    · have hoom : metadataStringsRecord env m w r = .oom := by
        rw [metadataStringsRecord, hops, hblob]
        simp only
        rw [if_neg (by simp [hne, hsize]), if_pos (by simpa using hgrant)]
      cases hoom.symm.trans hgo

/-- A record either runs out of memory or goes on. -/
theorem record_ends (m : AirModule) (w : MetadataWalk) (r : BsRecord) :
    metadataStringsRecord env m w r = .oom ∨
      ∃ m' w', metadataStringsRecord env m w r = .go m' w' := by
  rcases record_cases env m w r with
    ⟨hskip, -⟩ | ⟨batch, size, ops, blob, hops, hblob, hsize, hne⟩
  · exact .inr ⟨m, w, hskip⟩
  · by_cases hgrant : env.grants m.arena.calls = true
    · rw [metadataStringsRecord_eq hops hblob hsize hne hgrant]
      cases mdStrings env (blob.take (u32 size)) (u32 batch) m.called w.strings
          (blob.drop (u32 size)) 0 with
      | none => exact .inl rfl
      | some s => exact .inr ⟨_, _, rfl⟩
    · refine .inl ?_
      rw [metadataStringsRecord, hops, hblob]
      simp only
      rw [if_neg (by simp [hne, hsize]), if_pos (by simpa using hgrant)]

theorem record_granted (hgrants : ∀ k, env.grants k = true) {m : AirModule} {w : MetadataWalk}
    {r : BsRecord} (hpos : 0 < m.arena.used)
    (hlimit : arenaBehind m.arena.used (recordTaken r (maxMdStrings-w.strings.length)) ≤ 2^32) :
    ∃ m' w', metadataStringsRecord env m w r = .go m' w' := by
  rcases record_cases env m w r with
    ⟨hskip, -⟩ | ⟨batch, size, ops, blob, hops, hblob, hsize, hne⟩
  · exact ⟨m, w, hskip⟩
  · rw [recordTaken_eq hops hblob hsize] at hlimit
    rw [metadataStringsRecord_eq hops hblob hsize hne (hgrants _)]
    obtain ⟨s, hs⟩ := mdStrings_granted hgrants (m := m.called) hpos hlimit
    rw [hs]
    exact ⟨_, _, rfl⟩

/- The packing of a record. -/

/-- Records that are a batch, and others. -/
theorem record_shape (r : BsRecord) :
    (∃ batch size ops blob, r.ops = batch::size::ops ∧ r.blob = some blob) ∨
      ((∀ room strs, UnpacksRecord r room strs ↔ strs = []) ∧
        ∀ room, RecordSizesBounded r room ∧ recordTaken r room = []) := by
  obtain ⟨code, ops, blob⟩ := r
  rcases ops with - | ⟨batch, - | ⟨size, ops⟩⟩
  · exact .inr ⟨fun _ _ => Iff.rfl, fun _ => ⟨trivial, rfl⟩⟩
  · exact .inr ⟨fun _ _ => Iff.rfl, fun _ => ⟨trivial, rfl⟩⟩
  · cases blob with
    | none => exact .inr ⟨fun _ _ => Iff.rfl, fun _ => ⟨trivial, rfl⟩⟩
    | some blob => exact .inl ⟨batch, size, ops, blob, rfl, rfl⟩

theorem record_unpacks_cases {r : BsRecord} {room : Nat} {strs : List (List UInt8)}
    (h : UnpacksRecord r room strs) : RecordSizesBounded r room ∨
      strs.length < (recordTaken r room).length := by
  rcases record_shape r with ⟨batch, size, ops, blob, hops, hblob⟩ | ⟨-, hother⟩
  · rw [RecordSizesBounded, recordTaken, hops, hblob]
    rw [UnpacksRecord, hops, hblob] at h
    simp only at h ⊢
    by_cases hsize : blob.length < u32 size
    · exact .inl (.inl hsize)
    · rw [if_neg hsize] at h ⊢
      exact (unpacks_cases h).imp (fun hb => .inr hb.1) (fun hs => hs.2)
  · exact .inl (hother room).1

theorem record_unpacks {r : BsRecord} {room : Nat} (h : RecordSizesBounded r room) :
    UnpacksRecord r room (recordTaken r room) := by
  rcases record_shape r with ⟨batch, size, ops, blob, hops, hblob⟩ | ⟨hunpacks, hother⟩
  · rw [UnpacksRecord, recordTaken, hops, hblob]
    rw [RecordSizesBounded, hops, hblob] at h
    simp only at h ⊢
    by_cases hsize : blob.length < u32 size
    · rw [if_pos hsize, if_pos hsize]
    · rw [if_neg hsize, if_neg hsize]
      exact mdTaken_unpacks (h.resolve_left hsize)
  · exact (hunpacks room _).2 (hother room).2

/-- Of a record that packs strings, these are taken. -/
theorem packs_taken {r : BsRecord} {strs : List (List UInt8)} (h : Packs r strs) {room : Nat}
    (hroom : strs.length ≤ room) : recordTaken r room = strs := by
  obtain ⟨table, hops, hblob, hat, hcount, htable, hlen⟩ := h
  have hsize : u32 table.length = table.length := Nat.mod_eq_of_lt htable
  have hnum : min (u32 strs.length) room = strs.length := by
    rw [u32, Nat.mod_eq_of_lt hcount]
    exact min_eq_left hroom
  rw [recordTaken_eq hops hblob (by simp [hsize]), hsize, List.take_left, List.drop_left, hnum]
  exact (packed_unpacks hat hlen).2

theorem StringsDecoded.bounded {m m' : AirModule} {w w' : MetadataWalk} {r : BsRecord}
    (h : StringsDecoded env m w r) (hgo : metadataStringsRecord env m w r = .go m' w') :
    RecordSizesBounded r (maxMdStrings-w.strings.length) := by
  obtain ⟨strs, hunpacks, ids, hw, hnum, -⟩ := h.unpacks m' w' hgo
  obtain ⟨ids', hw', hnum', -⟩ := record_stored hgo
  have hids : ids = ids' := by
    have hstrings := congrArg MetadataWalk.strings (hw.symm.trans hw')
    exact List.append_cancel_left hstrings
  refine (record_unpacks_cases hunpacks).resolve_right fun hlt => ?_
  rw [← hids] at hnum'
  omega

/-- The decoding inverts the packing, and takes no other strings, just where every size reached
is bounded. -/
theorem metadata_strings_iff {m m' : AirModule} {w w' : MetadataWalk} {r : BsRecord}
    (hgo : metadataStringsRecord env m w r = .go m' w') :
    StringsDecoded env m w r ↔ RecordSizesBounded r (maxMdStrings-w.strings.length) := by
  constructor
  · exact fun h => h.bounded hgo
  · intro hbounded
    constructor
    · exact fun m' w' hgo => ⟨_, record_unpacks hbounded, record_stored hgo⟩
    · intro strs hpacks hroom
      have htaken := packs_taken hpacks (show strs.length ≤ maxMdStrings-w.strings.length by omega)
      constructor
      · intro m' w' hgo
        rw [← htaken]
        exact record_stored hgo
      · intro hgrants hpos hlimit
        exact record_granted hgrants hpos (by rwa [htaken])

/-- The string `ab`. -/
theorem one_string_decoded :
    StringsDecoded allGranted { arena := .init 64 0 } ⟨0, 0, [], [], 0⟩
        ⟨35, [1, 1], some [2, 97, 98]⟩ ↔
      RecordSizesBounded ⟨35, [1, 1], some [2, 97, 98]⟩ 4096 :=
  metadata_strings_iff rfl

end

/-- A size of `2^32` in seven chunks: the empty string is taken. -/
theorem wide_size_taken : ¬StringsDecoded allGranted { arena := .init 64 0 } ⟨0, 0, [], [], 0⟩
    ⟨35, [1, 6], some [32, 8, 130, 32, 72, 0]⟩ := by
  intro h
  have hds : ChunksAt [32, 8, 130, 32, 72, 0] 6 [0, 0, 0, 0, 0, 0, 4] 0 := by
    refine ⟨?_, ?_, ?_, ?_, ?_, ?_, ?_, ?_, ?_, ?_, ?_, ?_, ?_, ?_⟩ <;> decide
  have hval : vbrValue 6 [0, 0, 0, 0, 0, 0, 4] = 2^32 := by decide
  have htaken : recordTaken ⟨35, [1, 6], some [32, 8, 130, 32, 72, 0]⟩ 4096 = [[]] := by
    change mdTaken [32, 8, 130, 32, 72, 0] 1 0 [] = [[]]
    rw [mdTaken, sizeAt_chunks hds, hval]
    rfl
  have hlimit : arenaBehind 1
      (recordTaken ⟨35, [1, 6], some [32, 8, 130, 32, 72, 0]⟩ 4096) ≤ 2^32 := by
    rw [htaken]
    decide
  have hall : ∀ k, allGranted.grants k = true := fun _ => rfl
  obtain ⟨m', w', hgo⟩ := record_granted hall (m := { arena := .init 64 0 })
    (w := ⟨0, 0, [], [], 0⟩) (by decide) hlimit
  have hbounded : SizesBounded [32, 8, 130, 32, 72, 0] 1 0 [] :=
    (h.bounded hgo).resolve_left (by decide)
  have hlow := (hbounded _ hds).1 (by rw [hval])
  rw [hval] at hlow
  exact absurd hlow (by decide)

end Lagfx
