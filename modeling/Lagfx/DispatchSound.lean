import Lagfx.DispatchEdges

/-! The lowered function: its blocks, the loop around them, and that it returns what the
source does. -/
namespace Lagfx.Spirv
open Ssa
variable {V Mem : Type}

namespace DispatchCtx
variable {c c' : DispatchCtx} {start β ι : Nat}

theorem grows_enter (k : Nat) : c.Grows (c.enter k) where
  next := Nat.le_refl _
  bound := fun _ _ => rfl
  spillVar := fun _ _ => ⟨rfl, rfl⟩
  phiVar := fun _ _ => rfl
  vars := fun _ hx => .inl hx
  keeps := fun _ hx => hx

@[simp] theorem cell_enter (k : Nat) (l : Cell) : (c.enter k).cell β ι l = c.cell β ι l := by
  cases l <;> rfl

theorem Ok.enter (h : c.Ok start β ι) (k : Nat) : (c.enter k).Ok start β ι where
  pos := h.pos
  startLe := h.startLe
  boundLt := h.boundLt
  plain := h.plain
  varLt := h.varLt
  cellMem := by
    intro l
    rw [cell_enter]
    exact h.cellMem l
  inj := by
    intro l l'
    rw [cell_enter, cell_enter]
    exact h.inj l l'

end DispatchCtx

namespace Dispatch
variable {d : Dispatch} {bbs : List AirBb} {start β ι n k v : Nat} {fin c c' : DispatchCtx}
variable {num : Nat → V} {bool : Bool → V} {γ : Ghost V Mem} {st t : State V Mem}
variable {T : Target V Mem} {A : AirInterp V Mem}

theorem Reached.enter (h : d.Reached bbs start β ι n n c) (k : Nat) :
    d.Reached bbs start β ι n n (c.enter k) :=
  ⟨h.ok.enter k, h.unbound, h.pre, h.late, h.kept⟩

/- The numbers of a body that suits the lowering. -/

theorem produces_terminator {i : XlateInst} (types : List XlateType)
    (h : instIsTerminator i.code = true) (hi : i.code ≠ .indirectbr) :
    instProducesValue types i = false := by
  unfold instIsTerminator at h
  unfold instProducesValue
  split at h <;> simp_all

theorem BodyOk.allocas (h : d.BodyOk bbs) (k : Nat) (b : AirBb) (hb : bbs[k]? = some b)
    (h0 : k ≠ 0) (p : Nat × XlateInst) (hp : p ∈ b.body) : p.2.code ≠ .alloca :=
  fun hc => h0 ((h.block k b hb).allocas p hp hc)

theorem BodyOk.two (h : d.BodyOk bbs) : 1 < bbs.length := by
  have hblocks := h.blocks
  rw [partition] at hblocks
  split at hblocks
  · cases hblocks
  · split at hblocks
    · cases hblocks
    · next hlen =>
      rw [← Option.some.inj hblocks]
      omega

theorem BodyOk.counts (h : d.BodyOk bbs) :
    ∃ m, m ≤ d.ctx.valueIdCapacity ∧ BlockCounts d.types d.ctx.layout.instIdBase bbs m := by
  have hroom := h.room
  have hids := h.ids
  obtain ⟨m, hm, hcounts⟩ := counts_valueWalk d.types
    d.ctx.layout.instIdBase d.ctx.layout.insts (by omega)
  have hpart : partitionFrom [] (valueWalk d.types d.ctx.layout.instIdBase d.ctx.layout.insts) =
      some bbs := by
    have := h.blocks
    rw [partition] at this
    split at this
    · cases this
    · next bs hbs =>
      split at this
      · cases this
      · rw [hbs, this]
  refine ⟨m, by omega, blockCounts_of_counts ?_ ?_⟩
  · rw [← partitionFrom_all hpart]
    exact hcounts
  · intro b hb
    obtain ⟨k, hk⟩ := List.getElem?_of_mem hb
    exact produces_terminator _ (partitionFrom_term hpart b hb) (h.block k b hk).direct

/-- A body that suits the lowering, with its numbers. -/
structure Numbered (d : Dispatch) (bbs : List AirBb) (m : Nat) : Prop where
  ok : d.BodyOk bbs
  counts : BlockCounts d.types d.ctx.layout.instIdBase bbs m
  cap : m ≤ d.ctx.valueIdCapacity

section
variable {m : Nat} (hd : d.Numbered bbs m)
include hd

theorem Numbered.defBb_eq_some : d.defBb bbs v = some k ↔ d.Owns bbs k v :=
  Dispatch.defBb_eq_some hd.counts hd.ok.few hd.ok.allocas

theorem Numbered.own {b : AirBb} (hb : bbs[k]? = some b) {p : Nat × XlateInst} (hp : p ∈ b.body)
    (hv : d.produces p = true) : d.defBb bbs p.1 = some k :=
  hd.defBb_eq_some.mpr ⟨b, p, hb, hp, rfl, hv⟩

theorem Numbered.lt_cap : ∀ b ∈ bbs, ∀ q ∈ b.body, d.produces q = true →
    q.1 < d.ctx.valueIdCapacity := by
  intro b hb q hq hv
  obtain ⟨k, hk⟩ := List.getElem?_of_mem hb
  have : d.Owns bbs k q.1 := ⟨b, q, hk, hq, rfl, hv⟩
  exact (this.lt hd.counts).trans_le hd.cap

theorem Numbered.phi_unique (p q : Nat × XlateInst) (hp : IsPhi bbs p) (hq : IsPhi bbs q)
    (hpq : p.1 = q.1) : p = q := by
  obtain ⟨hp, b, hb, hpb⟩ := hp
  obtain ⟨hq, b', hb', hqb⟩ := hq
  obtain ⟨k, hk⟩ := List.getElem?_of_mem hb
  obtain ⟨l, hl⟩ := List.getElem?_of_mem hb'
  have hvp := produces_phi (d := d) hp
  have hvq := produces_phi (d := d) hq
  have how : d.Owns bbs k p.1 := ⟨b, p, hk, hpb, rfl, hvp⟩
  have how' : d.Owns bbs l p.1 := ⟨b', q, hl, hqb, hpq.symm, hvq⟩
  have hkl := how.eq hd.counts how'
  rw [hkl, hl] at hk
  cases hk
  obtain ⟨j, -, -, hbody, -⟩ := hd.counts.get hl
  exact hbody.eq_of_mem hpb hqb hvp hvq hpq

end

/- One block. -/

/-- The context `c` at the start of block `b`. -/
structure Starts (d : Dispatch) (bbs : List AirBb) (start β ι : Nat) (c : DispatchCtx) (n : Nat)
    (b : AirBb) : Prop where
  block : bbs[c.curBb]? = some b
  reached : d.Reached bbs start β ι n n c
  counts : Counts d.types n b.body b.term.1
  base : d.ctx.layout.instIdBase ≤ n

section
variable {m : Nat} {b : AirBb} {jump : Nat} (hd : d.Numbered bbs m)
variable (hids : ∀ b ∈ bbs, d.FreshIds start b)
include hd

theorem Starts.blockOk (h : d.Starts bbs start β ι c n b) : d.BlockOk bbs c.curBb b :=
  hd.ok.block _ b h.block

theorem Starts.term_le (h : d.Starts bbs start β ι c n b) : b.term.1 ≤ m := by
  obtain ⟨j, -, -, -, hdrop⟩ := hd.counts.get h.block
  exact hdrop.le

include hids

theorem Starts.body (h : d.Starts bbs start β ι c n b) :
    d.Leaves bbs start β ι c (d.dispatchEmitBlock bbs c b.body).2 b.term.1 b.term.1 :=
  dispatchEmitBlock_leaves (hids b (List.mem_of_getElem? h.block)) h.reached (h.blockOk hd)
    h.counts (fun _ hp => hp) h.base
    ((h.term_le hd).trans hd.cap) fun _ hp hv => hd.own h.block hp hv

theorem Starts.termOk (h : d.Starts bbs start β ι c n b) :
    d.TermOk bbs (d.dispatchEmitBlock bbs c b.body).2.curBb b.term := by
  rw [(h.body hd hids).ext.cur]
  exact (h.blockOk hd).term

theorem Starts.terminator (jump : Nat) (h : d.Starts bbs start β ι c n b) :
    d.Leaves bbs start β ι (d.dispatchEmitBlock bbs c b.body).2 (d.blockCode bbs c b β jump).2
      b.term.1 b.term.1 :=
  dispatchLowerTerminator_leaves _ _ (h.body hd hids).reached (h.termOk hd hids) hd.lt_cap

theorem Starts.leaves (jump : Nat) (h : d.Starts bbs start β ι c n b) :
    d.Leaves bbs start β ι c (d.blockCode bbs c b β jump).2 b.term.1 b.term.1 :=
  (h.body hd hids).trans (h.terminator hd hids jump)

/-- The body of a block; the PHIs of the edge into it are done with then. -/
theorem Starts.body_runs (w : World d bbs start β ι fin T) (hem : d.Emits A T)
    (h : d.Starts bbs start β ι c n b) (hg : (d.blockCode bbs c b β jump).2.Grows fin)
    (hst : At d bbs ι fin num c n γ st) (hdue : b.phis ⊆ γ.due) {s : AirState V Mem}
    (hs : d.airBody A γ.phi b.body ⟨γ.env, γ.mem⟩ = some s) :
    Lands T.exec (d.dispatchEmitBlock bbs c b.body).1
      (At d bbs ι fin num (d.dispatchEmitBlock bbs c b.body).2 b.term.1
        ⟨s.env, s.mem, [], onEdge c.curBb s.env, γ.iter⟩) st := by
  have hm := (h.term_le hd).trans hd.cap
  refine (dispatchEmitBlock_runs w (hids b (List.mem_of_getElem? h.block)) hem h.reached
    (h.blockOk hd) h.counts (fun _ hp => hp) h.base hm (hm.trans_lt hd.ok.ids)
    (fun _ hp hv => hd.own h.block hp hv) hdue
    ((h.terminator hd hids jump).ext.toGrows.trans hg) hst hs).imp ?_
  intro t ht
  exact ⟨ht.direct, ht.spilled, ht.consts, ht.mem, nofun, ht.iter⟩

/-- The code of a block whose terminator goes on to block `j`. -/
theorem Starts.runs (w : World d bbs start β ι fin T) (hctl : T.Control A num bool)
    (hem : d.Emits A T) (hβ : β ≠ 0) (hmem : β ∈ T.iface) (h : d.Starts bbs start β ι c n b)
    (hg : (d.blockCode bbs c b β jump).2.Grows fin) (hst : At d bbs ι fin num c n γ st)
    (hdue : b.phis ⊆ γ.due) {s : AirState V Mem} {j : Nat}
    (hs : d.airBody A γ.phi b.body ⟨γ.env, γ.mem⟩ = some s)
    (hj : airNext A b.term s.env = some j) :
    Jumps T.exec (d.blockCode bbs c b β jump).1 jump (fun t => t.io β = num j ∧
      At d bbs ι fin num (d.blockCode bbs c b β jump).2 b.term.1
        ⟨s.env, s.mem, edgePhis bbs j, onEdge c.curBb s.env, γ.iter⟩ t) st := by
  have hl := h.body hd hids
  have hm := (h.term_le hd).trans hd.cap
  refine (h.body_runs hd hids w hem hg hst hdue hs).jumps ?_
  intro t ht
  have he : Edge bbs (d.dispatchEmitBlock bbs c b.body).2
      (⟨s.env, s.mem, [], onEdge c.curBb s.env, γ.iter⟩ : Ghost V Mem) := by
    refine ⟨?_, nofun, hd.phi_unique⟩
    intro p
    rw [hl.ext.cur]
  refine (dispatchLowerTerminator_runs w hctl hβ hmem hl.reached (h.termOk hd hids) hd.lt_cap
    (hm.trans_lt hd.ok.ids) he hg ht hj).imp ?_
  intro u hu
  exact ⟨hu.next, hu.run.at_⟩

theorem Starts.returns (w : World d bbs start β ι fin T) (hem : d.Emits A T)
    (h : d.Starts bbs start β ι c n b)
    (hg : (d.blockCode bbs c b β jump).2.Grows fin) (hst : At d bbs ι fin num c n γ st)
    (hdue : b.phis ⊆ γ.due) {s : AirState V Mem} {vals : List V}
    (hs : d.airBody A γ.phi b.body ⟨γ.env, γ.mem⟩ = some s) (hc : b.term.2.code = .ret)
    (hvals : d.readOperands b.term s.env = some vals) :
    ∃ io, runInsns T.exec (d.blockCode bbs c b β jump).1 st =
      .exit (.returned (A.ret b.term.2 vals s.mem).1 (A.ret b.term.2 vals s.mem).2 io) := by
  have hm := (h.term_le hd).trans hd.cap
  refine (h.body_runs hd hids w hem hg hst hdue hs).rest (P := fun o => ∃ io, o =
    .exit (.returned (A.ret b.term.2 vals s.mem).1 (A.ret b.term.2 vals s.mem).2 io)) ?_
  intro t ht
  exact dispatchLowerTerminator_ret w hem (h.body hd hids).reached (h.termOk hd hids)
    (hm.trans_lt hd.ok.ids) hc hg ht hvals

end

end Dispatch

end Lagfx.Spirv
