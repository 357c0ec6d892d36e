import Lagfx.AirRun
import Mathlib.Data.List.TakeWhile

/-! The context of the lowering: its variables are cells of their own, entries that are made
stay, and no id is taken twice. -/
namespace Lagfx.Spirv

namespace DispatchCtx

/-- The ids of the variables made so far. -/
def vars (c : DispatchCtx) : List Nat := c.locals.map (·.2)

/-- What a variable is for. -/
inductive Cell where
  | spill (v : Nat)
  | phi (v : Nat)
  | block
  | iter

/-- `β` and `ι`: the two variables of the loop, 0 before they are made. -/
def cell (c : DispatchCtx) (β ι : Nat) : Cell → Nat
  | .spill v => c.spillVar v
  | .phi v => c.phiVar v
  | .block => β
  | .iter => ι

/-- `start`: the first id the lowering takes. -/
structure Ok (start β ι : Nat) (c : DispatchCtx) : Prop where
  pos : 0 < start
  startLe : start ≤ c.nextId
  boundLt : ∀ v, c.bound v < c.nextId
  plain : ∀ v, c.bound v ∉ c.vars
  varLt : ∀ x ∈ c.vars, start ≤ x ∧ x < c.nextId
  cellMem : ∀ k, c.cell β ι k ≠ 0 → c.cell β ι k ∈ c.vars
  inj : ∀ k l, c.cell β ι k ≠ 0 → c.cell β ι k = c.cell β ι l → k = l

/-- What is made stays; later variables take later ids. -/
structure Grows (c c' : DispatchCtx) : Prop where
  next : c.nextId ≤ c'.nextId
  bound : ∀ v, c.bound v ≠ 0 → c'.bound v = c.bound v
  spillVar : ∀ v, c.spillVar v ≠ 0 → c'.spillVar v = c.spillVar v ∧ c'.spillType v = c.spillType v
  phiVar : ∀ v, c.phiVar v ≠ 0 → c'.phiVar v = c.phiVar v
  vars : ∀ x ∈ c'.vars, x ∈ c.vars ∨ c.nextId ≤ x
  keeps : ∀ x ∈ c.vars, x ∈ c'.vars

variable {c c' c'' : DispatchCtx} {start β ι : Nat}

theorem Grows.refl (c : DispatchCtx) : c.Grows c where
  next := Nat.le_refl _
  bound := fun _ _ => rfl
  spillVar := fun _ _ => ⟨rfl, rfl⟩
  phiVar := fun _ _ => rfl
  vars := fun _ hx => .inl hx
  keeps := fun _ hx => hx

theorem Grows.trans (h : c.Grows c') (h' : c'.Grows c'') : c.Grows c'' where
  next := h.next.trans h'.next
  bound := by
    intro v hv
    have hb := h.bound v hv
    rw [h'.bound v (by rwa [hb]), hb]
  spillVar := by
    intro v hv
    obtain ⟨hs, ht⟩ := h.spillVar v hv
    obtain ⟨hs', ht'⟩ := h'.spillVar v (by rwa [hs])
    exact ⟨hs'.trans hs, ht'.trans ht⟩
  phiVar := by
    intro v hv
    have hp := h.phiVar v hv
    rw [h'.phiVar v (by rwa [hp]), hp]
  vars := by
    intro x hx
    rcases h'.vars x hx with hx' | hx'
    · exact h.vars x hx'
    · exact .inr (h.next.trans hx')
  keeps := fun x hx => h'.keeps x (h.keeps x hx)

/-- An id taken between two contexts is no variable of a later one. -/
theorem Ok.not_mem_vars (hok : c.Ok start β ι) {x : Nat} (hx : c.nextId ≤ x)
    (hx' : x < c'.nextId) (hvars : c'.vars = c.vars) (h : c'.Grows c'') : x ∉ c''.vars := by
  intro hmem
  rcases h.vars x hmem with hmem | hmem
  · have := (hok.varLt x (hvars ▸ hmem)).2
    omega
  · omega

theorem Ok.bound_not_mem (hok : c.Ok start β ι) (h : c.Grows c') (v : Nat) :
    c.bound v ∉ c'.vars := by
  intro hmem
  rcases h.vars _ hmem with hmem | hmem
  · exact hok.plain v hmem
  · exact absurd (hok.boundLt v) (by omega)

/-- Ids taken, and a value bound that had none. -/
theorem grows_take (n : Nat) {v id : Nat} (h : id = 0 ∨ c.bound v = 0) :
    c.Grows (c.take n v id) where
  next := Nat.le_add_right _ _
  bound := by
    intro w hw
    simp only [take]
    split
    · rfl
    · next hid =>
      refine Function.update_of_ne ?_ _ _
      rintro rfl
      rcases h with h | h
      · exact hid h
      · exact hw h
  spillVar := fun _ _ => ⟨rfl, rfl⟩
  phiVar := fun _ _ => rfl
  vars := fun _ hx => .inl hx
  keeps := fun _ hx => hx

@[simp] theorem take_cell (n v id : Nat) (k : Cell) :
    (c.take n v id).cell β ι k = c.cell β ι k := by
  cases k <;> rfl

theorem Ok.take (hok : c.Ok start β ι) {n id : Nat} (v : Nat) (hid : id < c.nextId+n)
    (hplain : id ∉ c.vars) : (c.take n v id).Ok start β ι where
  pos := hok.pos
  startLe := hok.startLe.trans (Nat.le_add_right _ _)
  boundLt := by
    intro w
    have hw := hok.boundLt w
    simp only [DispatchCtx.take]
    split
    · omega
    · by_cases hwv : w = v
      · rw [hwv, Function.update_self]
        exact hid
      · rw [Function.update_of_ne hwv]
        omega
  plain := by
    intro w
    simp only [DispatchCtx.take]
    split
    · exact hok.plain w
    · by_cases hwv : w = v
      · rw [hwv, Function.update_self]
        exact hplain
      · rw [Function.update_of_ne hwv]
        exact hok.plain w
  varLt := by
    intro x hx
    obtain ⟨h1, h2⟩ := hok.varLt x hx
    exact ⟨h1, h2.trans_le (Nat.le_add_right _ _)⟩
  cellMem := by
    intro k
    rw [take_cell]
    exact hok.cellMem k
  inj := by
    intro k l
    rw [take_cell, take_cell]
    exact hok.inj k l

theorem fresh_eq_take (c : DispatchCtx) : c.fresh = c.take 1 0 0 := rfl

theorem grows_fresh : c.Grows c.fresh := by
  rw [fresh_eq_take]
  exact grows_take 1 (.inl rfl)

theorem Ok.zero_not_mem (hok : c.Ok start β ι) : 0 ∉ c.vars := by
  intro h
  have := (hok.varLt 0 h).1
  have := hok.pos
  omega

theorem Ok.next_pos (hok : c.Ok start β ι) : 0 < c.nextId := hok.pos.trans_le hok.startLe

theorem Ok.fresh (hok : c.Ok start β ι) : c.fresh.Ok start β ι := by
  rw [fresh_eq_take]
  exact hok.take 0 (by have := hok.next_pos; omega) hok.zero_not_mem

/-- The next id becomes the variable of cell `k`. -/
theorem Ok.newCell {β' ι' : Nat} (hok : c.Ok start β ι) (k : Cell) (hnext : c'.nextId = c.nextId+1)
    (hbound : c'.bound = c.bound) (hvars : c'.vars = c.vars ++ [c.nextId])
    (hk : c'.cell β' ι' k = c.nextId) (hl : ∀ l, l ≠ k → c'.cell β' ι' l = c.cell β ι l) :
    c'.Ok start β' ι' := by
  have hlt : ∀ l, c.cell β ι l ≠ 0 → c.cell β ι l < c.nextId := fun l h =>
    (hok.varLt _ (hok.cellMem l h)).2
  constructor
  · exact hok.pos
  · have := hok.startLe
    omega
  · intro v
    have := hok.boundLt v
    rw [hbound]
    omega
  · intro v
    have := hok.boundLt v
    have hv := hok.plain v
    rw [hbound, hvars, List.mem_append, List.mem_singleton]
    rintro (h | h)
    · exact hv h
    · omega
  · intro x hx
    rw [hvars, List.mem_append, List.mem_singleton] at hx
    rcases hx with hx | rfl
    · have := hok.varLt x hx
      omega
    · have := hok.startLe
      omega
  · intro l h
    rw [hvars, List.mem_append, List.mem_singleton]
    by_cases hlk : l = k
    · exact .inr (by rw [hlk, hk])
    · rw [hl l hlk] at h ⊢
      exact .inl (hok.cellMem l h)
  · intro l m h heq
    by_cases hlk : l = k
    · by_cases hmk : m = k
      · rw [hlk, hmk]
      · rw [hlk, hk] at heq
        rw [hl m hmk] at heq
        have := hlt m (by have := hok.next_pos; omega)
        omega
    · rw [hl l hlk] at h heq
      by_cases hmk : m = k
      · rw [hmk, hk] at heq
        have := hlt l h
        omega
      · rw [hl m hmk] at heq
        exact hok.inj l m h heq

/-- The same within a block. -/
structure Extends (c c' : DispatchCtx) : Prop extends c.Grows c' where
  cur : c'.curBb = c.curBb

theorem Extends.refl (c : DispatchCtx) : c.Extends c := ⟨.refl c, rfl⟩

theorem Extends.trans (h : c.Extends c') (h' : c'.Extends c'') : c.Extends c'' :=
  ⟨h.toGrows.trans h'.toGrows, h'.cur.trans h.cur⟩

theorem extends_take (n : Nat) {v id : Nat} (h : id = 0 ∨ c.bound v = 0) :
    c.Extends (c.take n v id) := ⟨grows_take n h, rfl⟩

theorem extends_fresh : c.Extends c.fresh := ⟨grows_fresh, rfl⟩

/-- The next id becomes a variable. -/
theorem extends_newVar (hnext : c'.nextId = c.nextId+1) (hbound : c'.bound = c.bound)
    (hvars : c'.vars = c.vars ++ [c.nextId])
    (hspill : ∀ v, c.spillVar v ≠ 0 →
      c'.spillVar v = c.spillVar v ∧ c'.spillType v = c.spillType v)
    (hphi : ∀ v, c.phiVar v ≠ 0 → c'.phiVar v = c.phiVar v) (hcur : c'.curBb = c.curBb) :
    c.Extends c' where
  next := by omega
  bound := fun _ _ => by rw [hbound]
  spillVar := hspill
  phiVar := hphi
  vars := by
    intro x hx
    rw [hvars, List.mem_append, List.mem_singleton] at hx
    exact hx.imp_right fun hx => hx.ge
  keeps := by
    intro x hx
    rw [hvars]
    exact List.mem_append_left _ hx
  cur := hcur

theorem vars_localVar (c : DispatchCtx) (ty : Nat) :
    (c.localVar ty).vars = c.vars ++ [c.nextId] := by
  simp [vars, localVar]

section
variable (c : DispatchCtx) {u v : Nat} (ty ptrType : Nat)

theorem spillAt_self (v : Nat) : (c.spillAt v ty ptrType).spillVar v = c.nextId ∧
    (c.spillAt v ty ptrType).spillType v = ty :=
  ⟨Function.update_self .., Function.update_self ..⟩

theorem spillAt_ne (h : u ≠ v) : (c.spillAt v ty ptrType).spillVar u = c.spillVar u ∧
    (c.spillAt v ty ptrType).spillType u = c.spillType u :=
  ⟨Function.update_of_ne h _ _, Function.update_of_ne h _ _⟩

variable {c}

theorem Ok.spillAt (hok : c.Ok start β ι) (v : Nat) : (c.spillAt v ty ptrType).Ok start β ι := by
  refine hok.newCell (.spill v) rfl rfl (c.vars_localVar _) (c.spillAt_self ty ptrType v).1 ?_
  intro l hl
  cases l with
  | spill u => exact (c.spillAt_ne ty ptrType fun hu => hl (by rw [hu])).1
  | _ => rfl

theorem extends_spillAt (hv : c.spillVar v = 0) : c.Extends (c.spillAt v ty ptrType) := by
  refine extends_newVar rfl rfl (c.vars_localVar _) ?_ (fun _ _ => rfl) rfl
  intro u hu
  refine c.spillAt_ne ty ptrType ?_
  rintro rfl
  exact hu hv

end

end DispatchCtx

namespace Dispatch
variable (d : Dispatch) (bbs : List AirBb) (start β ι : Nat)

/-- The ids of the results of a block: an emitter answers with an operand, an id of its own, or
one of the module. -/
def FreshIds (b : AirBb) : Prop := ∀ p ∈ b.body, handled p.2.code = true → d.produces p = true →
  ∀ next ids, start ≤ next → (d.emit p next ids).val ≠ 0 ∧
    ((d.emit p next ids).val ∈ ids ∨ (d.emit p next ids).val < start ∨
      next ≤ (d.emit p next ids).val ∧ (d.emit p next ids).val < next+(d.emit p next ids).width)

/-- The context at number `n`; variables are made up to number `k`. -/
structure Reached (n k : Nat) (c : DispatchCtx) : Prop where
  ok : c.Ok start β ι
  unbound : ∀ v, n ≤ v → d.ctx.layout.instIdBase ≤ v → c.bound v = 0
  pre : ∀ v, v < d.ctx.valueIdCapacity → (∃ l, l ≠ 0 ∧ d.defBb bbs v = some l) →
    d.preType v ≠ 0 → c.spillVar v ≠ 0 ∧ c.spillType v = d.preType v
  late : ∀ v, k ≤ v → d.preType v = 0 → c.spillVar v = 0
  kept : ∀ v, v < k → d.Kept bbs v → c.spillVar v ≠ 0

/-- A value that can be read at number `n`. -/
def Reads (c : DispatchCtx) (n v : Nat) : Prop :=
  v < d.ctx.valueIdCapacity ∧
    if d.crosses bbs c.curBb v then d.Kept bbs v ∧ c.spillVar v ≠ 0 else v < n

variable {d bbs start β ι} {c c' : DispatchCtx} {n k v : Nat}

theorem Reached.reads (h : d.Reached bbs start β ι n n c) (hv : d.UseOk bbs c.curBb n v) :
    d.Reads bbs c n v := by
  obtain ⟨hcap, hv⟩ := hv
  refine ⟨hcap, ?_⟩
  split at hv
  · next hc =>
    rw [if_pos hc]
    refine ⟨hv.1, ?_⟩
    rcases hv.2 with hlt | hpre
    · exact h.kept v hlt hv.1
    · exact (h.pre v hcap hv.1.1 hpre).1
  · next hc =>
    rw [if_neg hc]
    exact hv

theorem Reads.extends (h : d.Reads bbs c n v) (hg : c.Extends c') : d.Reads bbs c' n v := by
  obtain ⟨hcap, h⟩ := h
  refine ⟨hcap, ?_⟩
  rw [hg.cur]
  split at h
  · next hc =>
    rw [if_pos hc]
    exact ⟨h.1, by rw [(hg.spillVar v h.2).1]; exact h.2⟩
  · next hc =>
    rw [if_neg hc]
    exact h

/-- Ids taken, with nothing bound or the value at `n`. -/
theorem Reached.take (h : d.Reached bbs start β ι n k c) {w id m : Nat}
    (hid : id < c.nextId+w) (hplain : id ∉ c.vars) (hv : id = 0 ∨ v < m) (hnm : n ≤ m) :
    d.Reached bbs start β ι m k (c.take w v id) where
  ok := h.ok.take v hid hplain
  unbound := by
    intro u hu hbase
    simp only [DispatchCtx.take]
    split
    · exact h.unbound u (by omega) hbase
    · next hne =>
      rcases hv with hv | hv
      · exact absurd hv hne
      · rw [Function.update_of_ne (by omega)]
        exact h.unbound u (by omega) hbase
  pre := h.pre
  late := h.late
  kept := h.kept

theorem Reached.fresh (h : d.Reached bbs start β ι n k c) :
    d.Reached bbs start β ι n k c.fresh := by
  rw [DispatchCtx.fresh_eq_take]
  exact h.take (by have := h.ok.next_pos; omega) h.ok.zero_not_mem (.inl rfl) (Nat.le_refl n)

/-- What a piece of the lowering leaves behind: `m` and `l` are reached then. -/
structure Leaves (d : Dispatch) (bbs : List AirBb) (start β ι : Nat) (c c' : DispatchCtx)
    (m l : Nat) : Prop where
  ext : c.Extends c'
  reached : d.Reached bbs start β ι m l c'

theorem Reached.leaves (h : d.Reached bbs start β ι n k c) :
    d.Leaves bbs start β ι c c n k := ⟨.refl c, h⟩

theorem Leaves.trans {c'' : DispatchCtx} {m l m' l' : Nat}
    (h : d.Leaves bbs start β ι c c' m l) (h' : d.Leaves bbs start β ι c' c'' m' l') :
    d.Leaves bbs start β ι c c'' m' l' := ⟨h.ext.trans h'.ext, h'.reached⟩

/-- An id that is no variable, now or later. -/
def Plain (c : DispatchCtx) (x : Nat) : Prop :=
  x < c.nextId ∧ ∀ c', c.Grows c' → x ∉ c'.vars

theorem Plain.extends {x : Nat} (h : Plain c x) (hg : c.Grows c') : Plain c' x :=
  ⟨h.1.trans_le hg.next, fun c₂ hg' => h.2 c₂ (hg.trans hg')⟩

/- Operands. -/

theorem resolve_eq (h : d.Reads bbs c n v) :
    d.resolve bbs c v = if d.crosses bbs c.curBb v then
        ⟨c.nextId, [opLoad (c.spillType v) c.nextId (c.spillVar v)], c.fresh⟩
      else ⟨c.bound v, [], c⟩ := by
  obtain ⟨hcap, h⟩ := h
  rw [resolve, resolveValueSpv.eq_def, if_neg (Nat.not_le.mpr hcap)]
  cases hc : d.crosses bbs c.curBb v with
  | false => rfl
  | true =>
    rw [hc, if_pos rfl] at h
    simp [h.2]

theorem resolve_leaves (h : d.Reached bbs start β ι n k c) (hv : d.Reads bbs c n v) :
    d.Leaves bbs start β ι c (d.resolve bbs c v).ctx n k ∧
      Plain (d.resolve bbs c v).ctx (d.resolve bbs c v).val := by
  rw [resolve_eq hv]
  cases d.crosses bbs c.curBb v with
  | false => exact ⟨h.leaves, h.ok.boundLt v, fun c₂ hg => h.ok.bound_not_mem hg v⟩
  | true =>
    have hnext : c.nextId < c.fresh.nextId := Nat.lt_succ_self _
    refine ⟨⟨DispatchCtx.extends_fresh, h.fresh⟩, hnext, ?_⟩
    intro c₂ hg
    exact h.ok.not_mem_vars (Nat.le_refl _) hnext rfl hg

theorem resolveAll_leaves {vs : List Nat} (h : d.Reached bbs start β ι n k c)
    (hv : ∀ v ∈ vs, d.Reads bbs c n v) :
    d.Leaves bbs start β ι c (resolveAll (d.resolve bbs) c vs).ctx n k ∧
      ∀ y ∈ (resolveAll (d.resolve bbs) c vs).val,
        Plain (resolveAll (d.resolve bbs) c vs).ctx y := by
  induction vs generalizing c with
  | nil => exact ⟨h.leaves, by simp [resolveAll]⟩
  | cons v vs ih =>
    obtain ⟨hl, hp⟩ := resolve_leaves h (hv v List.mem_cons_self)
    obtain ⟨hl', hp'⟩ := ih hl.reached fun u hu =>
      (hv u (List.mem_cons_of_mem v hu)).extends hl.ext
    refine ⟨hl.trans hl', ?_⟩
    intro y hy
    rcases List.mem_cons.mp hy with rfl | hy
    · exact hp.extends hl'.ext.toGrows
    · exact hp' y hy

theorem OperandOk.resolve {k enc : Nat} (h : d.OperandOk bbs k n enc) :
    d.UseOk bbs k n (resolveRelative enc n) := by
  rw [resolveRelative, if_pos h.2.1]
  exact h.2.2

theorem Reached.operands (h : d.Reached bbs start β ι n n c) {os : List Nat}
    (ho : ∀ o ∈ os, d.OperandOk bbs c.curBb n o) :
    ∀ v ∈ os.map (resolveRelative · n), d.Reads bbs c n v := by
  intro v hv
  obtain ⟨o, hmem, rfl⟩ := List.mem_map.mp hv
  exact h.reads (ho o hmem).resolve

/- Variables. -/

theorem dispatchPhiVar_leaves (h : d.Reached bbs start β ι n k c) (ty : Nat)
    (hcap : v < d.ctx.valueIdCapacity) :
    d.Leaves bbs start β ι c (d.dispatchPhiVar c v ty).2 n k ∧
      (d.dispatchPhiVar c v ty).1 ≠ 0 ∧
      (d.dispatchPhiVar c v ty).2.phiVar v = (d.dispatchPhiVar c v ty).1 ∧
      (d.dispatchPhiVar c v ty).2.bound = c.bound := by
  rw [dispatchPhiVar, if_neg (Nat.not_le.mpr hcap)]
  by_cases hv : c.phiVar v = 0
  · rw [if_neg (not_not.mpr hv)]
    have hok : DispatchCtx.Ok start β ι { c.localVar (d.ptrId ty) with
        phiVar := Function.update c.phiVar v c.nextId
        phiType := Function.update c.phiType v ty } := by
      refine h.ok.newCell (.phi v) rfl rfl (c.vars_localVar _) (Function.update_self ..) ?_
      intro l hl
      cases l with
      | phi u => exact Function.update_of_ne (fun hu => hl (by rw [hu])) _ _
      | _ => rfl
    refine ⟨⟨DispatchCtx.extends_newVar rfl rfl (c.vars_localVar _) (fun _ _ => ⟨rfl, rfl⟩) ?_ rfl,
      hok, h.unbound, h.pre, h.late, h.kept⟩, h.ok.next_pos.ne', Function.update_self .., rfl⟩
    intro u hu
    refine Function.update_of_ne ?_ _ _
    rintro rfl
    exact hu hv
  · rw [if_pos hv]
    exact ⟨h.leaves, hv, rfl, rfl⟩

/-- The variable of a value, where the value is defined. -/
theorem dispatchSpillResult_leaves (h : d.Reached bbs start β ι (v+1) v c)
    (hcap : v < d.ctx.valueIdCapacity) (hbound : c.bound v ≠ 0)
    (hown : ∃ l, l ≠ 0 ∧ d.defBb bbs v = some l) :
    d.Leaves bbs start β ι c (d.dispatchSpillResult c v).2 (v+1) (v+1) := by
  rw [dispatchSpillResult, if_neg (by simp [hbound, hcap])]
  have hstay : (d.Kept bbs v → c.spillVar v ≠ 0) → d.Leaves bbs start β ι c c (v+1) (v+1) := by
    intro hkept
    refine ⟨.refl c, h.ok, h.unbound, h.pre, fun u hu => h.late u (by omega), ?_⟩
    intro u hu huk
    by_cases huv : u = v
    · rw [huv] at huk ⊢
      exact hkept huk
    · exact h.kept u (by omega) huk
  by_cases hv : c.spillVar v = 0
  · have hpre : d.preType v = 0 := by
      by_contra hne
      exact (h.pre v hcap hown hne).1 hv
    rw [if_neg (not_not.mpr hv)]
    by_cases hsite : d.siteType v = 0
    · rw [if_pos hsite]
      refine hstay ?_
      intro hk
      have := hk.2.2
      rw [if_neg (not_not.mpr hpre)] at this
      exact absurd hsite this
    · rw [if_neg hsite]
      generalize d.ptrId (d.siteType v) = ptr
      have hself := c.spillAt_self (d.siteType v) ptr v
      have hother : ∀ u, u ≠ v → _ := fun u => c.spillAt_ne (u := u) (d.siteType v) ptr
      refine ⟨DispatchCtx.extends_spillAt _ _ hv, h.ok.spillAt _ _ v, h.unbound, ?_, ?_, ?_⟩
      · intro u hu hd hne
        have huv : u ≠ v := by
          rintro rfl
          exact hne hpre
        rw [(hother u huv).1, (hother u huv).2]
        exact h.pre u hu hd hne
      · intro u hu hp
        rw [(hother u (by omega)).1]
        exact h.late u (by omega) hp
      · intro u hu huk
        by_cases huv : u = v
        · rw [huv, hself.1]
          exact h.ok.next_pos.ne'
        · rw [(hother u huv).1]
          exact h.kept u (by omega) huk
  · rw [if_pos hv]
    split <;> exact hstay fun _ => hv

/- Blocks. -/

theorem produces_phi {p : Nat × XlateInst} (h : p.2.code = .phi) : d.produces p = true := by
  simp [produces, instProducesValue, h]

theorem produces_declareblocks {p : Nat × XlateInst} (h : p.2.code = .declareblocks) :
    d.produces p = false := by
  simp [produces, instProducesValue, h]

theorem emitInst_phi {p : Nat × XlateInst} (h : p.2.code = .phi) (hops : 0 < p.2.ops.length)
    (hv : (d.dispatchPhiVar c p.1 (d.airTypeId (opAt p.2 0))).1 ≠ 0) :
    d.emitInst bbs c p =
      ([opLoad (d.airTypeId (opAt p.2 0))
          (d.dispatchPhiVar c p.1 (d.airTypeId (opAt p.2 0))).2.nextId
          (d.dispatchPhiVar c p.1 (d.airTypeId (opAt p.2 0))).1],
        (d.dispatchPhiVar c p.1 (d.airTypeId (opAt p.2 0))).2.take 1 p.1
          (d.dispatchPhiVar c p.1 (d.airTypeId (opAt p.2 0))).2.nextId) := by
  rw [emitInst, if_pos h, if_neg (by omega)]
  exact if_neg hv

theorem emitInst_declareblocks {p : Nat × XlateInst} (h : p.2.code = .declareblocks) :
    d.emitInst bbs c p = ([], c) := by
  rw [emitInst, if_neg (by simp [h]), if_neg (by simp [handled, h])]

theorem not_phi_of_handled {i : XlateInst} (h : handled i.code = true) : i.code ≠ .phi := by
  intro hc
  rw [hc] at h
  cases h

/-- The operands an instruction resolves. -/
def operandIds (d : Dispatch) (bbs : List AirBb) (c : DispatchCtx) (p : Nat × XlateInst) :
    Emitted (List Nat) :=
  resolveAll (d.resolve bbs) c ((d.operands p.2).map (resolveRelative · p.1))

theorem emitInst_handled {p : Nat × XlateInst} (h : handled p.2.code = true) :
    d.emitInst bbs c p =
      let rs := d.operandIds bbs c p
      let e := d.emit p rs.ctx.nextId rs.val
      (rs.code ++ e.code, rs.ctx.take e.width p.1 (if d.produces p then e.val else 0)) := by
  rw [emitInst, if_neg (not_phi_of_handled h), if_pos h]
  rfl

/-- The id an emitter binds is no variable. -/
theorem FreshIds.plain {b : AirBb} {p : Nat × XlateInst} {ids : List Nat}
    (hids : d.FreshIds start b) (hok : c.Ok start β ι) (hp : p ∈ b.body)
    (hc : handled p.2.code = true) (hv : d.produces p = true) (hplain : ∀ y ∈ ids, Plain c y) :
    (d.emit p c.nextId ids).val < c.nextId+(d.emit p c.nextId ids).width ∧
      (d.emit p c.nextId ids).val ∉ c.vars := by
  have hstart := hok.startLe
  rcases (hids p hp hc hv c.nextId ids hstart).2 with hmem | hlt | ⟨hge, hlt⟩
  · have hp := hplain _ hmem
    exact ⟨hp.1.trans_le (Nat.le_add_right _ _), hp.2 c (.refl c)⟩
  · refine ⟨by omega, fun hmem => ?_⟩
    have := (hok.varLt _ hmem).1
    omega
  · refine ⟨hlt, fun hmem => ?_⟩
    have := (hok.varLt _ hmem).2
    omega

/-- One instruction of a block. -/
theorem emitInst_leaves {b : AirBb} {p : Nat × XlateInst} (hids : d.FreshIds start b)
    (h : d.Reached bbs start β ι p.1 p.1 c) (hb : d.BlockOk bbs c.curBb b) (hp : p ∈ b.body)
    (hbase : d.ctx.layout.instIdBase ≤ p.1)
    (hcap : d.produces p = true → p.1 < d.ctx.valueIdCapacity) :
    d.Leaves bbs start β ι c (d.emitInst bbs c p).2 (if d.produces p then p.1+1 else p.1) p.1 ∧
      (d.produces p = true → (d.emitInst bbs c p).2.bound p.1 ≠ 0) := by
  rcases hb.code p hp with hc | hc | hc
  · have hprod := produces_phi (d := d) hc
    obtain ⟨hl, hv, -, hbound⟩ :=
      dispatchPhiVar_leaves h (d.airTypeId (opAt p.2 0)) (hcap hprod)
    have hnext := hl.reached.ok.next_pos
    rw [emitInst_phi hc (hb.phis p hp hc).2.2 hv, if_pos hprod]
    refine ⟨hl.trans ⟨DispatchCtx.extends_take 1 (.inr ?_), ?_⟩, fun _ => ?_⟩
    · exact hl.reached.unbound p.1 (Nat.le_refl _) hbase
    · refine hl.reached.take (Nat.lt_succ_self _) ?_ (.inr (Nat.lt_succ_self _)) (Nat.le_succ _)
      intro hmem
      exact absurd (hl.reached.ok.varLt _ hmem).2 (Nat.lt_irrefl _)
    · simp only [DispatchCtx.take, if_neg hnext.ne', Function.update_self]
      exact hnext.ne'
  · have hprod := produces_declareblocks (d := d) hc
    rw [emitInst_declareblocks hc, hprod]
    exact ⟨h.leaves, nofun⟩
  · have hreads := h.operands (hb.operands p hp hc)
    obtain ⟨hl, hplain⟩ := resolveAll_leaves h hreads
    rw [emitInst_handled hc]
    cases hprod : d.produces p with
    | false =>
      refine ⟨hl.trans ⟨DispatchCtx.extends_take _ (.inl rfl), ?_⟩, nofun⟩
      have hnext := hl.reached.ok.next_pos
      exact hl.reached.take (by simp only [Bool.false_eq_true, if_false, operandIds]; omega)
        hl.reached.ok.zero_not_mem (.inl rfl) (Nat.le_refl _)
    | true =>
      obtain ⟨hlt, hmem⟩ := hids.plain hl.reached.ok hp hc hprod hplain
      have hne := (hids p hp hc hprod (d.operandIds bbs c p).ctx.nextId (d.operandIds bbs c p).val
        hl.reached.ok.startLe).1
      refine ⟨hl.trans ⟨DispatchCtx.extends_take _ (.inr ?_), ?_⟩, fun _ => ?_⟩
      · exact hl.reached.unbound p.1 (Nat.le_refl _) hbase
      · exact hl.reached.take hlt hmem (.inr (Nat.lt_succ_self _)) (Nat.le_succ _)
      · simp only [DispatchCtx.take, if_true, if_neg hne, Function.update_self]
        exact hne

/-- One instruction, and the variable of its result. -/
theorem emitSpilled_leaves {b : AirBb} {p : Nat × XlateInst} (hids : d.FreshIds start b)
    (h : d.Reached bbs start β ι p.1 p.1 c) (hb : d.BlockOk bbs c.curBb b) (hp : p ∈ b.body)
    (hbase : d.ctx.layout.instIdBase ≤ p.1)
    (hcap : d.produces p = true → p.1 < d.ctx.valueIdCapacity)
    (hown : d.produces p = true → d.defBb bbs p.1 = some c.curBb) :
    d.Leaves bbs start β ι c (d.emitSpilled bbs c p).2
      (if d.produces p then p.1+1 else p.1) (if d.produces p then p.1+1 else p.1) := by
  obtain ⟨hl, hbound⟩ := emitInst_leaves hids h hb hp hbase hcap
  rw [emitSpilled]
  cases hprod : d.produces p with
  | false =>
    rw [hprod] at hl
    simpa using hl
  | true =>
    rw [hprod, if_pos rfl] at hl
    simp only [if_true, true_and]
    by_cases h0 : c.curBb = 0
    · rw [if_neg (not_not.mpr h0)]
      refine hl.trans ⟨.refl _, hl.reached.ok, hl.reached.unbound, hl.reached.pre, ?_, ?_⟩
      · exact fun u hu => hl.reached.late u (by omega)
      · intro u hu huk
        by_cases hup : u = p.1
        · obtain ⟨l, hl0, hl⟩ := huk.1
          rw [hup, hown hprod, h0] at hl
          exact absurd (Option.some.inj hl).symm hl0
        · exact hl.reached.kept u (by omega) huk
    · rw [if_pos h0]
      exact hl.trans (dispatchSpillResult_leaves hl.reached (hcap hprod) (hbound hprod)
        ⟨_, h0, hown hprod⟩)

theorem dispatchEmitBlock_leaves {b : AirBb} {ps : List (Nat × XlateInst)} {m : Nat}
    (hids : d.FreshIds start b) (h : d.Reached bbs start β ι n n c)
    (hb : d.BlockOk bbs c.curBb b) (hps : Counts d.types n ps m) (hsub : ∀ p ∈ ps, p ∈ b.body)
    (hbase : d.ctx.layout.instIdBase ≤ n) (hcap : m ≤ d.ctx.valueIdCapacity)
    (hown : ∀ p ∈ ps, d.produces p = true → d.defBb bbs p.1 = some c.curBb) :
    d.Leaves bbs start β ι c (d.dispatchEmitBlock bbs c ps).2 m m := by
  induction ps generalizing c n with
  | nil =>
    cases hps
    exact h.leaves
  | cons p ps ih =>
    obtain ⟨rfl, hrest⟩ := hps
    have hp : d.produces p = true → p.1 < d.ctx.valueIdCapacity := by
      intro hprod
      have := hrest.le
      rw [show instProducesValue d.types p.2 = true from hprod, if_pos rfl] at this
      omega
    have hl := emitSpilled_leaves hids h hb (hsub p List.mem_cons_self) hbase hp
      (hown p List.mem_cons_self)
    rw [dispatchEmitBlock]
    refine hl.trans (ih hl.reached ?_ hrest ?_ ?_ ?_)
    · rw [hl.ext.cur]
      exact hb
    · exact fun q hq => hsub q (List.mem_cons_of_mem p hq)
    · split <;> omega
    · intro q hq hprod
      rw [hl.ext.cur]
      exact hown q (List.mem_cons_of_mem p hq) hprod

/- Edges and terminators. -/

/-- The PHIs of block `succ` can be stored at number `n`. -/
def EdgeReads (d : Dispatch) (bbs : List AirBb) (c : DispatchCtx) (n succ : Nat) : Prop :=
  ∀ b, bbs[succ]? = some b → ∀ q ∈ b.phis, q.1 < d.ctx.valueIdCapacity ∧
    ∀ v, phiIncoming q c.curBb = some v → d.Reads bbs c n v

theorem EdgeReads.extends {succ : Nat} (h : d.EdgeReads bbs c n succ) (hg : c.Extends c') :
    d.EdgeReads bbs c' n succ := by
  intro b hb q hq
  obtain ⟨hcap, hin⟩ := h b hb q hq
  refine ⟨hcap, fun v hv => ?_⟩
  rw [hg.cur] at hv
  exact (hin v hv).extends hg

theorem storeIncoming_leaves {var ty : Nat} (h : d.Reached bbs start β ι n k c)
    (hv : d.Reads bbs c n v) :
    d.Leaves bbs start β ι c (d.storeIncoming bbs c var ty v).2 n k := by
  obtain ⟨hl, -⟩ := resolve_leaves h hv
  simp only [storeIncoming]
  split
  · exact hl
  · generalize (if (d.resolve bbs c v).ctx.phiType v ≠ 0 then (d.resolve bbs c v).ctx.phiType v
      else ty) = lty
    split
    · exact hl.trans ⟨DispatchCtx.extends_fresh, hl.reached.fresh⟩
    · exact hl

theorem storePhi_leaves {p : Nat × XlateInst} (h : d.Reached bbs start β ι n k c)
    (hcap : p.1 < d.ctx.valueIdCapacity)
    (hin : ∀ v, phiIncoming p c.curBb = some v → d.Reads bbs c n v) :
    d.Leaves bbs start β ι c (d.storePhi bbs c p).2 n k := by
  obtain ⟨hl, hv, -, -⟩ := dispatchPhiVar_leaves h (d.airTypeId (opAt p.2 0)) hcap
  rw [storePhi]
  split
  · exact h.leaves
  · simp only [if_neg hv]
    split
    · exact hl
    · next inval hinval =>
      exact hl.trans (storeIncoming_leaves hl.reached ((hin inval hinval).extends hl.ext))

theorem storePhis_leaves {ps : List (Nat × XlateInst)} (h : d.Reached bbs start β ι n k c)
    (hps : ∀ p ∈ ps, p.1 < d.ctx.valueIdCapacity ∧
      ∀ v, phiIncoming p c.curBb = some v → d.Reads bbs c n v) :
    d.Leaves bbs start β ι c (d.storePhis bbs c ps).2 n k := by
  induction ps generalizing c with
  | nil => exact h.leaves
  | cons p ps ih =>
    obtain ⟨hcap, hin⟩ := hps p List.mem_cons_self
    have hl := storePhi_leaves h hcap hin
    rw [storePhis]
    refine hl.trans (ih hl.reached ?_)
    intro q hq
    obtain ⟨hcap', hin'⟩ := hps q (List.mem_cons_of_mem p hq)
    refine ⟨hcap', fun v hv => ?_⟩
    rw [hl.ext.cur] at hv
    exact (hin' v hv).extends hl.ext

theorem dispatchStorePhiIncomings_leaves {succ : Nat} (h : d.Reached bbs start β ι n k c)
    (he : d.EdgeReads bbs c n succ) :
    d.Leaves bbs start β ι c (d.dispatchStorePhiIncomings bbs c succ).2 n k := by
  rw [dispatchStorePhiIncomings]
  split
  · exact h.leaves
  · next b hb => exact storePhis_leaves h (he b hb)

theorem resolveOrUndef_leaves (ty : Nat) (h : d.Reached bbs start β ι n k c)
    (hv : d.Reads bbs c n v) :
    d.Leaves bbs start β ι c (d.resolveOrUndef bbs c v ty).ctx n k := (resolve_leaves h hv).1

theorem storeOther_leaves (first : Nat) {succ : Nat} (h : d.Reached bbs start β ι n k c)
    (he : d.EdgeReads bbs c n succ) :
    d.Leaves bbs start β ι c (d.storeOther bbs c first succ).2 n k := by
  rw [storeOther]
  split
  · exact dispatchStorePhiIncomings_leaves h he
  · exact h.leaves

theorem lowerCases_leaves {ks : List (Nat × Nat)} (defbb cond next : Nat)
    (h : d.Reached bbs start β ι n k c)
    (hks : ∀ x ∈ ks, d.Reads bbs c n x.1 ∧ d.EdgeReads bbs c n x.2) :
    d.Leaves bbs start β ι c (d.lowerCases bbs defbb cond ks c next).ctx n k := by
  induction ks generalizing c next with
  | nil => exact h.leaves
  | cons x ks ih =>
    obtain ⟨hx, he⟩ := hks x List.mem_cons_self
    have hl : d.Leaves bbs start β ι c (d.storeOther bbs c defbb x.2).2 n k :=
      storeOther_leaves defbb h he
    obtain ⟨hl', -⟩ := resolve_leaves hl.reached (hx.extends hl.ext)
    have hlater : ∀ c', c.Extends c' →
        ∀ y ∈ ks, d.Reads bbs c' n y.1 ∧ d.EdgeReads bbs c' n y.2 := by
      intro c' hg y hy
      obtain ⟨hy, he⟩ := hks y (List.mem_cons_of_mem x hy)
      exact ⟨hy.extends hg, he.extends hg⟩
    rw [lowerCases]
    have hboth := hl.trans hl'
    split
    · exact hboth.trans (ih _ hl'.reached (hlater _ hboth.ext))
    · have hfresh : d.Leaves bbs start β ι c
          (d.resolve bbs (d.storeOther bbs c defbb x.2).2 x.1).ctx.fresh.fresh n k :=
        (hboth.trans ⟨DispatchCtx.extends_fresh, hl'.reached.fresh⟩).trans
          ⟨DispatchCtx.extends_fresh, hl'.reached.fresh.fresh⟩
      exact hfresh.trans (ih _ hfresh.reached (hlater _ hfresh.ext))

theorem Reached.edge (h : d.Reached bbs start β ι n n c) {p : Nat × XlateInst}
    (hp : p.1 = n) (ht : d.TermOk bbs c.curBb p)
    (hnum : ∀ b ∈ bbs, ∀ q ∈ b.body, d.produces q = true → q.1 < d.ctx.valueIdCapacity)
    {succ : Nat} (hs : succ ∈ successors p.2) : d.EdgeReads bbs c n succ := by
  intro b hb q hq
  have hmem := List.mem_of_getElem? hb
  have hphi : q.2.code = .phi := by simpa using List.mem_takeWhile_imp hq
  refine ⟨hnum b hmem q (List.takeWhile_subset _ hq) (produces_phi hphi), fun v hv => ?_⟩
  rw [← hp] at h ⊢
  exact h.reads (ht.phis succ hs b hb q hq v hv)

theorem TermOk.case_mem {p : Nat × XlateInst} (hc : p.2.code = .switch)
    (hlen : ¬ p.2.ops.length < 3) {x : Nat × Nat} (hx : x ∈ switchCases p.2) :
    x.2 ∈ successors p.2 := by
  rw [successors, hc]
  simp only [if_neg hlen]
  exact List.mem_cons_of_mem _ (List.mem_map_of_mem hx)

theorem dispatchLowerTerminator_leaves {p : Nat × XlateInst} (blockvar jump : Nat)
    (h : d.Reached bbs start β ι p.1 p.1 c) (ht : d.TermOk bbs c.curBb p)
    (hnum : ∀ b ∈ bbs, ∀ q ∈ b.body, d.produces q = true → q.1 < d.ctx.valueIdCapacity) :
    d.Leaves bbs start β ι c (d.dispatchLowerTerminator bbs c p blockvar jump).2 p.1 p.1 := by
  have hedge : ∀ s ∈ successors p.2, d.EdgeReads bbs c p.1 s := fun s hs => h.edge rfl ht hnum hs
  rw [dispatchLowerTerminator]
  split
  · next hc =>
    obtain ⟨hl, -⟩ := resolveAll_leaves h (h.operands (ht.ret hc))
    have hnext := hl.reached.ok.next_pos
    refine hl.trans ⟨DispatchCtx.extends_take _ (.inl rfl), ?_⟩
    exact hl.reached.take (hnext.trans_le (Nat.le_add_right _ _)) hl.reached.ok.zero_not_mem
      (.inl rfl) (Nat.le_refl _)
  · exact h.leaves
  · next hc =>
    by_cases h1 : p.2.ops.length = 1
    · rw [if_pos h1]
      exact dispatchStorePhiIncomings_leaves h (hedge _ (by simp [successors, hc, h1]))
    · by_cases h3 : 3 ≤ p.2.ops.length
      · rw [if_neg h1, if_pos h3]
        have hmem : ∀ s, s = opAt p.2 0 ∨ s = opAt p.2 1 → s ∈ successors p.2 := by
          simp [successors, hc, h1, h3]
        have hl := dispatchStorePhiIncomings_leaves h (hedge _ (hmem _ (.inl rfl)))
        have hl' := hl.trans (storeOther_leaves (opAt p.2 0) hl.reached
          ((hedge _ (hmem _ (.inr rfl))).extends hl.ext))
        have hread := h.reads (ht.cond hc h3).resolve
        obtain ⟨hr₀, -⟩ := resolve_leaves hl'.reached (hread.extends hl'.ext)
        have hl₂ := hl'.trans hr₀
        have hr := resolveOrUndef_leaves d.boolId hl₂.reached (hread.extends hl₂.ext)
        exact (hl₂.trans hr).trans ⟨DispatchCtx.extends_fresh, hr.reached.fresh⟩
      · rw [if_neg h1, if_neg h3]
        exact h.leaves
  · next hc =>
    by_cases hlen : p.2.ops.length < 3
    · rw [if_pos hlen]
      exact h.leaves
    · rw [if_neg hlen]
      have hmem : opAt p.2 2 ∈ successors p.2 := by simp [successors, hc, hlen]
      have hl := dispatchStorePhiIncomings_leaves h (hedge _ hmem)
      have hread := h.reads (ht.selector hc).resolve
      have hl' := hl.trans (resolveOrUndef_leaves (d.airTypeId (opAt p.2 0)) hl.reached
        (hread.extends hl.ext))
      refine hl'.trans (lowerCases_leaves _ _ _ hl'.reached ?_)
      intro x hx
      exact ⟨(h.reads (ht.cases x hx hc)).extends hl'.ext,
        (hedge _ (TermOk.case_mem hc hlen hx)).extends hl'.ext⟩
  · exact h.leaves

end Dispatch

end Lagfx.Spirv
