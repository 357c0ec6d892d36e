import Mathlib.Tactic.IntervalCases
import Lagfx.Lib.Greedy
import Lagfx.Lib.InsertionSort
import Lagfx.ObjectResolver

/-! The vertex attributes of a serialized pipeline descriptor: which tokens of the blob the scan
takes, and what becomes of them in the sorted table. -/
namespace Lagfx
open ByteMemory

/- What a token is, and which tokens count. -/

def tokenBytes (a : PsoVtxAttr) : List UInt8 :=
  [0x01, 0x04]++(putLe 4 a.fmt++([0x02, 0x04]++(putLe 4 a.off++([0x03, 0x04]++putLe 4 a.bufidx))))

/-- The token of `a` lies at `i`, wholly in [16, limit), its fields within their bounds. -/
structure TokenAt (blob : List UInt8) (limit i : Nat) (a : PsoVtxAttr) : Prop where
  start : 16 ≤ i
  stop : i+18 ≤ limit
  bytes : PartAt blob i (tokenBytes a)
  fmt_pos : 1 ≤ a.fmt
  fmt_le : a.fmt ≤ 64
  off_le : a.off ≤ 240
  bufidx_le : a.bufidx ≤ 30

/-- The token at `i` leaves no room for one at `j` behind it: the two overlap, or are for one
offset. -/
def TokensClash (blob : List UInt8) (limit i j : Nat) : Prop :=
  j < i+18 ∨ ∃ a b, TokenAt blob limit i a ∧ TokenAt blob limit j b ∧ a.off = b.off

/-- A token that neither overlaps an earlier accepted one nor repeats its offset. -/
def Accepted (blob : List UInt8) (limit : Nat) : Nat → Prop :=
  Greedy.Chosen (fun i => ∃ a, TokenAt blob limit i a) (TokensClash blob limit)

/-- What the table of a blob is to be. -/
structure AttrsRight (blob : List UInt8) (limit cap : Nat) (out : List PsoVtxAttr) : Prop where
  count : out.length ≤ cap
  ordered : out.Pairwise fun a b => a.off < b.off
  first : ∀ a ∈ out, ∃ i, TokenAt blob limit i a ∧ Accepted blob limit i ∧
    ∀ j < i, ∀ b, TokenAt blob limit j b → b.off = a.off →
      ∃ k < j, Accepted blob limit k ∧ j < k+18
  complete : out.length < cap → ∀ i a, TokenAt blob limit i a →
    (∀ j < i, Accepted blob limit j → j+18 ≤ i) → ∃ b ∈ out, b.off = a.off

/- A token as the source reads it. -/

theorem partAt_pair {b : List UInt8} {off : Nat} {x y : UInt8} (hoff : off+2 ≤ b.length) :
    PartAt b off [x, y] ↔ byteAt b off = x.toNat ∧ byteAt b (off+1) = y.toNat := by
  have h0 : off < b.length := by omega
  have h1 : off+1 < b.length := by omega
  have hw : window b off 2 = [b[off], b[off+1]] := by
    rw [window, List.drop_eq_getElem_cons h0, List.drop_eq_getElem_cons h1]
    rfl
  have hb : ∀ {i : Nat} (hi : i < b.length), byteAt b i = (b[i]).toNat := by
    intro i hi
    rw [byteAt, List.getD_eq_getElem?_getD, List.getElem?_eq_getElem hi, Option.getD_some]
  rw [PartAt, List.length_cons, List.length_singleton, hw, hb h0, hb h1]
  simp [hoff, UInt8.toNat_inj]

/-- The source's checks at `i` hold exactly for the bytes of a token. -/
theorem tokenAt_iff {blob : List UInt8} {limit i : Nat} {a : PsoVtxAttr}
    (hlimit : limit ≤ blob.length) :
    TokenAt blob limit i a ↔ 16 ≤ i ∧ i+18 ≤ limit ∧ vertexAttrAt blob i = some a := by
  have hparts (hi : i+18 ≤ limit) (hf : a.fmt ≤ 64) (ho : a.off ≤ 240) (hb : a.bufidx ≤ 30) :
      PartAt blob i (tokenBytes a) ↔
        (byteAt blob i = 0x01 ∧ byteAt blob (i+1) = 0x04) ∧ le32 blob (i+2) = a.fmt ∧
        (byteAt blob (i+6) = 0x02 ∧ byteAt blob (i+7) = 0x04) ∧ le32 blob (i+8) = a.off ∧
        (byteAt blob (i+12) = 0x03 ∧ byteAt blob (i+13) = 0x04) ∧
          le32 blob (i+14) = a.bufidx := by
    simp only [tokenBytes, partAt_append, List.length_cons, List.length_nil, putLe_length,
      Nat.add_assoc]
    rw [partAt_pair (by omega), partAt_pair (by omega), partAt_pair (by omega),
      partAt_putLe (by omega) (by omega), partAt_putLe (by omega) (by omega),
      partAt_putLe (by omega) (by omega)]
    rfl
  rw [vertexAttrAt]
  constructor
  · intro h
    obtain ⟨⟨h0, h1⟩, hf, ⟨h6, h7⟩, ho, ⟨h12, h13⟩, hb⟩ :=
      (hparts h.stop h.fmt_le h.off_le h.bufidx_le).1 h.bytes
    refine ⟨h.start, h.stop, ?_⟩
    have hpos := h.fmt_pos
    simp only [hf, ho, hb]
    exact if_pos ⟨h0, h1, h6, h7, h12, h13, by omega, h.fmt_le, h.off_le, h.bufidx_le⟩
  · intro h
    obtain ⟨hstart, hstop, h⟩ := h
    dsimp only at h
    split_ifs at h with hall
    obtain rfl := Option.some.inj h
    obtain ⟨h0, h1, h6, h7, h12, h13, hpos, hf, ho, hb⟩ := hall
    have hbytes := (hparts hstop hf ho hb).2
      ⟨⟨h0, h1⟩, rfl, ⟨h6, h7⟩, rfl, ⟨h12, h13⟩, rfl⟩
    exact ⟨hstart, hstop, hbytes, Nat.pos_of_ne_zero hpos, hf, ho, hb⟩

/-- Two tokens at one place are one. -/
theorem TokenAt.unique {blob : List UInt8} {limit i : Nat} {a b : PsoVtxAttr}
    (hlimit : limit ≤ blob.length) (ha : TokenAt blob limit i a) (hb : TokenAt blob limit i b) :
    a = b := by
  have hsome := ((tokenAt_iff hlimit).1 ha).2.2
  rw [((tokenAt_iff hlimit).1 hb).2.2] at hsome
  exact (Option.some.inj hsome).symm

/-- A token with no accepted one reaching into it has an accepted one for its offset: itself,
or the one it repeats. -/
theorem TokenAt.accepted {blob : List UInt8} {limit i : Nat} {a : PsoVtxAttr}
    (hlimit : limit ≤ blob.length) (ha : TokenAt blob limit i a)
    (hfree : ∀ j < i, Accepted blob limit j → j+18 ≤ i) :
    ∃ k ≤ i, Accepted blob limit k ∧ ∃ c, TokenAt blob limit k c ∧ c.off = a.off := by
  by_cases hacc : Accepted blob limit i
  · exact ⟨i, le_rfl, hacc, a, ha, rfl⟩
  · rw [Accepted, Greedy.chosen_iff] at hacc
    push Not at hacc
    obtain ⟨k, hk, hchosen, hclash⟩ := hacc ⟨a, ha⟩
    obtain hover | ⟨c, b, hc, hb, hoff⟩ := hclash
    · exact absurd (hfree k hk hchosen) (Nat.not_le.2 hover)
    · obtain rfl := ha.unique hlimit hb
      exact ⟨k, hk.le, hchosen, c, hc, hoff⟩

/-- Before an accepted token each of its offset overlaps an accepted one. -/
theorem TokenAt.first {blob : List UInt8} {limit i j : Nat} {a b : PsoVtxAttr}
    (hlimit : limit ≤ blob.length) (ha : TokenAt blob limit i a) (hacc : Accepted blob limit i)
    (hj : j < i) (hb : TokenAt blob limit j b) (hoff : b.off = a.off) :
    ∃ k < j, Accepted blob limit k ∧ j < k+18 := by
  by_contra hno
  obtain ⟨k, hk, hchosen, c, hc, hsame⟩ := hb.accepted hlimit fun k hk hchosen => by
    by_contra hover
    exact hno ⟨k, hk, hchosen, Nat.not_le.1 hover⟩
  have hapart := (Greedy.chosen_iff.1 hacc).2 k (hk.trans_lt hj) hchosen
  exact hapart (Or.inr ⟨c, a, hc, ha, hsame.trans hoff⟩)

/- The scan, as far as it has come. -/

/-- `taken` are the tokens accepted before byte `i`, and none of them reaches beyond it. -/
structure ScannedTo (blob : List UInt8) (limit i : Nat) (taken : List (Nat × PsoVtxAttr)) :
    Prop where
  picked : Greedy.Picked (fun i => ∃ a, TokenAt blob limit i a) (TokensClash blob limit) i
    (taken.map Prod.fst)
  behind : ∀ x ∈ taken, x.1+18 ≤ i
  token : ∀ x ∈ taken, TokenAt blob limit x.1 x.2

section
variable {blob : List UInt8} {limit i : Nat} {taken : List (Nat × PsoVtxAttr)}

theorem ScannedTo.start : ScannedTo blob limit 16 [] where
  picked := .start fun i hi h => by
    obtain ⟨a, ha⟩ := h
    exact absurd ha.start (Nat.not_le.2 hi)
  behind x hx := by cases hx
  token x hx := by cases hx

/-- The duplicate check finds the clashes, for nothing taken overlaps what is to come. -/
theorem ScannedTo.accepted_iff (h : ScannedTo blob limit i taken) (hlimit : limit ≤ blob.length)
    {a : PsoVtxAttr} (ha : TokenAt blob limit i a) :
    Accepted blob limit i ↔ ∀ x ∈ taken, x.2.off ≠ a.off := by
  have hcand : ∃ a, TokenAt blob limit i a := ⟨a, ha⟩
  rw [Accepted, h.picked.chosen_iff, List.forall_mem_map, and_iff_right hcand]
  apply forall₂_congr
  intro x hx
  rw [not_iff_not, TokensClash, or_iff_right (Nat.not_lt.2 (h.behind x hx))]
  constructor
  · intro hclash
    obtain ⟨b, c, hb, hc, hoff⟩ := hclash
    rw [ha.unique hlimit hc, (h.token x hx).unique hlimit hb, hoff]
  · intro hoff
    exact ⟨x.2, a, h.token x hx, ha, hoff⟩

theorem ScannedTo.pass (h : ScannedTo blob limit i taken) (hn : ¬Accepted blob limit i) :
    ScannedTo blob limit (i+1) taken where
  picked := h.picked.pass hn
  behind x hx := Nat.le_succ_of_le (h.behind x hx)
  token := h.token

theorem ScannedTo.take (h : ScannedTo blob limit i taken) {a : PsoVtxAttr}
    (ha : TokenAt blob limit i a) (hacc : Accepted blob limit i) :
    ScannedTo blob limit (i+18) (taken++[(i, a)]) where
  picked := by
    rw [List.map_append]
    exact h.picked.take hacc (by decide) fun j _ hj => Or.inl hj
  behind x hx := by
    obtain hx | hx := List.mem_append.1 hx
    · exact (h.behind x hx).trans (Nat.le_add_right i 18)
    · obtain rfl := List.mem_singleton.1 hx
      exact le_rfl
  token x hx := by
    obtain hx | hx := List.mem_append.1 hx
    · exact h.token x hx
    · obtain rfl := List.mem_singleton.1 hx
      exact ha

/-- A full table is not changed any more. -/
theorem scanVertexAttrs_full {cap : Nat} {out : List PsoVtxAttr} (hfull : cap ≤ out.length) :
    ∀ rounds i, scanVertexAttrs blob limit cap rounds i out = out := by
  intro rounds
  induction rounds with
  | zero =>
    intro i
    rfl
  | succ rounds ih =>
    intro i
    rw [scanVertexAttrs]
    cases vertexAttrAt blob i with
    | none => simp only [ih, ite_self]
    | some a => simp only [Nat.not_lt.2 hfull, if_false, ih, ite_self]

/-- The scan takes the accepted tokens in order, all of them unless the table is full before. -/
theorem scanVertexAttrs_taken {cap : Nat} (hlimit : limit ≤ blob.length) :
    ∀ rounds i taken, 16 ≤ i → limit < rounds+i+18 → ScannedTo blob limit i taken →
      taken.length ≤ cap → ∃ j taken', ScannedTo blob limit j taken' ∧ taken'.length ≤ cap ∧
        (taken'.length < cap → limit < j+18) ∧
        scanVertexAttrs blob limit cap rounds i (taken.map Prod.snd) = taken'.map Prod.snd := by
  intro rounds
  induction rounds with
  | zero =>
    intro i taken _ hend h hcap
    exact ⟨i, taken, h, hcap, fun _ => by omega, rfl⟩
  | succ rounds ih =>
    intro i taken hi hend h hcap
    by_cases hfull : cap ≤ taken.length
    · refine ⟨i, taken, h, hcap, fun hlt => absurd hlt (Nat.not_lt.2 hfull), ?_⟩
      exact scanVertexAttrs_full (by rwa [List.length_map]) _ _
    · rw [scanVertexAttrs]
      by_cases hstop : limit < i+18
      · rw [if_pos hstop]
        exact ⟨i, taken, h, hcap, fun _ => hstop, rfl⟩
      · have hnext := ih (i+1) taken (by omega) (by omega)
        rw [if_neg hstop]
        cases hat : vertexAttrAt blob i with
        | none =>
          refine hnext (h.pass fun hacc => ?_) hcap
          obtain ⟨a, ha⟩ := (Greedy.chosen_iff.1 hacc).1
          rw [((tokenAt_iff hlimit).1 ha).2.2] at hat
          cases hat
        | some a =>
          have ha := (tokenAt_iff hlimit).2 ⟨hi, Nat.not_lt.1 hstop, hat⟩
          have hacc := h.accepted_iff hlimit ha
          dsimp only
          by_cases hdup : ∃ x ∈ taken, x.2.off = a.off
          · rw [if_pos (by simpa using hdup)]
            refine hnext (h.pass fun hc => ?_) hcap
            obtain ⟨x, hx, hoff⟩ := hdup
            exact hacc.1 hc x hx hoff
          · have hnew : ∀ x ∈ taken, x.2.off ≠ a.off := by
              intro x hx hoff
              exact hdup ⟨x, hx, hoff⟩
            have hroom : taken.length < cap := Nat.not_le.1 hfull
            rw [if_neg (by simpa using hnew), if_pos (by rwa [List.length_map])]
            have htake := ih (i+18) (taken++[(i, a)]) (by omega) (by omega)
              (h.take ha (hacc.2 hnew)) (by rw [List.length_append]; exact hroom)
            rwa [List.map_append] at htake

/- The sort, and the table as a whole. -/

theorem insertAttr_eq (t : PsoVtxAttr) (out : List PsoVtxAttr) :
    insertAttr t out = InsertionSort.insertBack (fun x y : PsoVtxAttr => x.off > y.off) t out := by
  induction out with
  | nil => rfl
  | cons x xs ih => rw [insertAttr, InsertionSort.insertBack, ih]

theorem sortAttrs_eq (out : List PsoVtxAttr) :
    sortAttrs out = InsertionSort.sort (fun x y : PsoVtxAttr => x.off > y.off) out := by
  simp only [sortAttrs, InsertionSort.sort, insertAttr_eq]

theorem sortAttrs_perm (out : List PsoVtxAttr) : (sortAttrs out).Perm out := by
  rw [sortAttrs_eq]
  exact InsertionSort.sort_perm _ out

/-- Offsets that do not repeat come out strictly increasing. -/
theorem sortAttrs_ordered {out : List PsoVtxAttr}
    (hne : out.Pairwise fun a b => a.off ≠ b.off) :
    (sortAttrs out).Pairwise fun a b => a.off < b.off := by
  have horder : InsertionSort.Order fun x y : PsoVtxAttr => x.off > y.off := by
    constructor
    · intro x y h
      exact Nat.not_lt.2 (Nat.le_of_lt h)
    · intro x y z hxy hyz
      exact Nat.not_lt.2 ((Nat.not_lt.1 hxy).trans (Nat.not_lt.1 hyz))
  have hsorted : (sortAttrs out).Pairwise fun a b => ¬a.off > b.off := by
    rw [sortAttrs_eq]
    exact InsertionSort.sort_sorted horder out
  have hne' := (List.Perm.pairwise_iff (fun h => h.symm) (sortAttrs_perm out)).2 hne
  exact hsorted.imp₂ (fun a b hle hne => lt_of_le_of_ne (Nat.not_lt.1 hle) hne) hne'

/-- The attributes of the accepted tokens, sorted, are the table that is asked for. -/
theorem ScannedTo.attrsRight (h : ScannedTo blob limit i taken) (hlimit : limit ≤ blob.length)
    {cap : Nat} (hcap : taken.length ≤ cap) (hend : taken.length < cap → limit < i+18) :
    AttrsRight blob limit cap (sortAttrs (taken.map Prod.snd)) := by
  have hmem : ∀ a, a ∈ sortAttrs (taken.map Prod.snd) ↔ ∃ x ∈ taken, x.2 = a := by
    intro a
    rw [(sortAttrs_perm _).mem_iff, List.mem_map]
  have hlen : (sortAttrs (taken.map Prod.snd)).length = taken.length := by
    rw [(sortAttrs_perm _).length_eq, List.length_map]
  have haccepted : ∀ x ∈ taken, Accepted blob limit x.1 := by
    intro x hx
    exact ((h.picked.mem_iff x.1).1 (List.mem_map_of_mem hx)).2
  constructor
  · rwa [hlen]
  · apply sortAttrs_ordered
    rw [List.pairwise_map]
    have hapart := List.pairwise_map.1 h.picked.apart
    apply List.Pairwise.imp_of_mem _ hapart
    intro x y hx hy hclash hoff
    exact hclash (Or.inr ⟨x.2, y.2, h.token x hx, h.token y hy, hoff⟩)
  · intro a ha
    obtain ⟨x, hx, rfl⟩ := (hmem a).1 ha
    refine ⟨x.1, h.token x hx, haccepted x hx, ?_⟩
    intro j hj b hb hoff
    exact (h.token x hx).first hlimit (haccepted x hx) hj hb hoff
  · intro hlt p a ha hfree
    rw [hlen] at hlt
    obtain ⟨k, hk, hchosen, c, hc, hoff⟩ := ha.accepted hlimit hfree
    have hki : k < i := by
      have hstop := hc.stop
      have hnear := hend hlt
      omega
    obtain ⟨x, hx, rfl⟩ := List.mem_map.1 ((h.picked.mem_iff k).2 ⟨hki, hchosen⟩)
    refine ⟨x.2, (hmem x.2).2 ⟨x, hx, rfl⟩, ?_⟩
    rw [(h.token x hx).unique hlimit hc, hoff]

end

theorem blobLimit_le (blob : List UInt8) (size : Nat) : blobLimit blob size ≤ size := by
  rw [blobLimit]
  split_ifs with h
  · exact h.2
  · exact le_rfl

theorem pipelineBlob_length {s : State} {task : TaskEntry} {id size : Nat} {blob : List UInt8}
    (h : pipelineBlob s task id size = some blob) : blob.length = size := by
  rw [pipelineBlob] at h
  split_ifs at h
  obtain ⟨slotGpa, -, h⟩ := Option.bind_eq_some_iff.1 h
  obtain ⟨slot, -, h⟩ := Option.bind_eq_some_iff.1 h
  split_ifs at h
  obtain ⟨bytesGpa, -, h⟩ := Option.bind_eq_some_iff.1 h
  exact readMemory_length h

/-- For every memory, page table, object and capacity: the table is what the descriptor's blob
asks for, and empty where no blob can be read. -/
theorem pso_attrs_right (s : State) (task : TaskEntry) (id cap : Nat) :
    (pipelineBlob s task id 512).elim (parsePsoVertexAttrs s task id cap = [])
      fun blob => AttrsRight blob (blobLimit blob 512) cap (parsePsoVertexAttrs s task id cap) := by
  rw [parsePsoVertexAttrs]
  cases hblob : pipelineBlob s task id 512 with
  | none => rfl
  | some blob =>
    have hlen := pipelineBlob_length hblob
    have hbound := blobLimit_le blob 512
    have hlimit : blobLimit blob 512 ≤ blob.length := hlen ▸ hbound
    obtain ⟨j, taken, hscanned, hcap, hend, hscan⟩ :=
      scanVertexAttrs_taken hlimit 512 16 [] le_rfl (by omega) .start (Nat.zero_le cap)
    rw [Option.elim_some]
    dsimp only
    rw [vertexAttrsOf, show ([] : List PsoVtxAttr) = List.map Prod.snd [] from rfl, hscan]
    exact hscanned.attrsRight hlimit hcap hend

/- Three tokens, the last of them for the offset of the first. -/
example : vertexAttrsOf (putLe 4 0++putLe 4 70++putLe 8 0++tokenBytes ⟨3, 12, 1⟩++
    tokenBytes ⟨2, 0, 1⟩++tokenBytes ⟨4, 12, 1⟩) 8 = [⟨2, 0, 1⟩, ⟨3, 12, 1⟩] := by
  decide

/- What the skip passes over. -/

theorem putLe_small {v : Nat} (hv : v < 256) : putLe 4 v = [UInt8.ofNat v, 0, 0, 0] := by
  have h0 : v/256 = 0 := Nat.div_eq_of_lt hv
  rw [putLe, putLe, putLe, putLe, putLe, h0, Nat.mod_eq_of_lt hv]
  rfl

theorem byteAt_of_part {b part : List UInt8} {off n : Nat} (h : PartAt b off part)
    (hn : n < part.length) : byteAt b (off+n) = byteAt part n := by
  have hget : part[n]? = b[off+n]? := by
    conv_lhs => rw [← h.2, window, List.getElem?_take_of_lt hn, List.getElem?_drop]
  rw [byteAt, byteAt, List.getD_eq_getElem?_getD, List.getD_eq_getElem?_getD, hget]

/-- Fields this small leave no room for `01 04` inside a token, so no two overlap. -/
theorem TokenAt.apart {blob : List UInt8} {limit i j : Nat} {a b : PsoVtxAttr}
    (ha : TokenAt blob limit i a) (hb : TokenAt blob limit j b) (hij : i < j) : i+18 ≤ j := by
  by_contra hover
  obtain ⟨d, rfl⟩ := Nat.exists_eq_add_of_lt hij
  have hd : d < 17 := by omega
  have hinside : ∀ d < 17, byteAt (tokenBytes a) (d+1) ≠ 1 ∨
      d+2 < 18 ∧ byteAt (tokenBytes a) (d+2) ≠ 4 := by
    have hf := ha.fmt_le
    have ho := ha.off_le
    have hi := ha.bufidx_le
    rw [tokenBytes, putLe_small (by omega), putLe_small (by omega), putLe_small (by omega)]
    intro d hd
    interval_cases d <;> simp [byteAt]
  have hlen : (tokenBytes a).length = 18 := by simp [tokenBytes]
  have h0 := byteAt_of_part hb.bytes (n := 0) (by simp [tokenBytes])
  have h1 := byteAt_of_part hb.bytes (n := 1) (by simp [tokenBytes])
  obtain hne | ⟨hlt, hne⟩ := hinside d hd
  · rw [← byteAt_of_part ha.bytes (by omega)] at hne
    exact hne h0
  · rw [← byteAt_of_part ha.bytes (by omega)] at hne
    exact hne h1

/-- So a table with room holds the offset of every token. -/
theorem AttrsRight.every {blob : List UInt8} {limit cap : Nat} {out : List PsoVtxAttr}
    (h : AttrsRight blob limit cap out) (hroom : out.length < cap) {i : Nat} {a : PsoVtxAttr}
    (ha : TokenAt blob limit i a) : ∃ b ∈ out, b.off = a.off := by
  apply h.complete hroom i a ha
  intro j hj hacc
  obtain ⟨b, hb⟩ := (Greedy.chosen_iff.1 hacc).1
  exact hb.apart ha hj

end Lagfx
