import Mathlib.Data.List.Pairwise
import Lagfx.ThreadParams

/-! A call with thread parameters, run: what the helper is shown and what the caller's
variables hold afterwards, against a call by reference. -/
namespace Lagfx
open Places

/-- What an id stands for: a place in the local variables, the words of a value, or a pointer
to other storage. -/
inductive FnVal where
  | place (p : Place Nat Nat)
  | data (v : Content Nat Nat)
  | outside

namespace FnVal

def place? : FnVal → Option (Place Nat Nat)
  | .place p => some p
  | _ => none

def content : FnVal → Content Nat Nat
  | .data v => v
  | _ => fun _ => 0

/-- The pointer that an access chain makes. -/
def member (idx : List Nat) : FnVal → FnVal
  | .place p => .place ⟨p.root, p.path++idx⟩
  | _ => .outside

end FnVal

/-- The local variables, by their ids. -/
abbrev Locals := Store Nat Nat Nat

/-- A call as the helper sees it. -/
structure CallSeen where
  fn : Nat
  args : List FnVal
  mem : Locals

/-- The state of a function that runs; the newest call is first. -/
structure FnFrame where
  env : Nat → FnVal
  mem : Locals
  calls : List CallSeen := []

/-- Where the thread parameters of a call point. -/
def threadPlaces (ps : List HelperParam) (args : List FnVal) : List (Place Nat Nat) :=
  (ps.zip args).filterMap fun x => if x.1.kind = .threadPtr then x.2.place? else none

/-- A helper that runs: local variables of its callers change through its thread parameters
only. -/
structure HelperRun (ps : List HelperParam) where
  run : List FnVal → Locals → Locals × FnVal
  frame : ∀ args m x, (∀ p ∈ threadPlaces ps args, x ≠ p.root) → (run args m).1 x = m x

namespace FnFrame

def bind (f : FnFrame) (id : Nat) (v : FnVal) : FnFrame :=
  { f with env := Function.update f.env id v }

/-- The variables at the head of the function have their ids. -/
def declare (f : FnFrame) (locals : List (Nat × Nat)) : FnFrame :=
  { f with env := fun id => if id ∈ locals.map Prod.snd then .place ⟨id, []⟩ else f.env id }

variable {ps : List HelperParam}

def exec (body : HelperRun ps) (f : FnFrame) : FnInst → FnFrame
  | .accessChain _ id base idx =>
    f.bind id ((f.env base).member (idx.map fun i => (f.env i).content []))
  | .load _ id ptr =>
    match f.env ptr with
    | .place p => f.bind id (.data (read f.mem p))
    | _ => f
  | .store ptr val =>
    match f.env ptr with
    | .place p => { f with mem := write f.mem p (f.env val).content }
    | _ => f
  | .functionCall _ id fn args =>
    let r := body.run (args.map f.env) f.mem
    { env := Function.update f.env id r.2
      mem := r.1
      calls := ⟨fn, args.map f.env, f.mem⟩ :: f.calls }

def runInsts (body : HelperRun ps) : List FnInst → FnFrame → FnFrame
  | [], f => f
  | i :: is, f => runInsts body is (f.exec body i)

/-- The place that an id points to. -/
def placeAt (f : FnFrame) (id : Nat) : Place Nat Nat := (f.env id).place?.getD ⟨0, []⟩

end FnFrame

/-- The thread parameters of a call, with the values that are passed. -/
def HelperSig.threadArgs (hf : HelperSig) (vids : List Nat) : List (HelperParam × Nat) :=
  (hf.params.zip vids).filter fun x => decide (x.1.kind = .threadPtr)

/-- Every thread argument resolves to a pointer into a local variable, and the places are
pairwise disjoint. -/
structure ThreadArgs (c : CallCtx) (hf : HelperSig) (vids : List Nat) (f : FnFrame) : Prop where
  located : ∀ x ∈ hf.threadArgs vids, c.tables.spv x.2 ≠ 0 ∧
    c.tables.spv x.2 < c.emitter.nextId ∧ ∃ p, f.env (c.tables.spv x.2) = .place p ∧
      p.root < c.emitter.nextId
  apart : (hf.threadArgs vids).Pairwise fun x y =>
    (f.placeAt (c.tables.spv x.2)).Apart (f.placeAt (c.tables.spv y.2))

/-- A call `seen` in the run from `f` to `f'` passed the thread arguments by reference: each
location is shown to the helper, gets what the helper left behind the parameter, and no other
place has changed. -/
structure PassedByReference (c : CallCtx) (hf : HelperSig) (vids : List Nat)
    (body : HelperRun hf.params) (f f' : FnFrame) (seen : CallSeen) : Prop where
  made : f'.calls = seen :: f.calls ∧ seen.fn = hf.funcId
  byReference : ∀ (i : Nat) (p : HelperParam) (vid : Nat),
    (hf.params.zip vids)[i]? = some (p, vid) → p.kind = .threadPtr →
      ∃ t, seen.args[i]? = some (.place t) ∧
        read seen.mem t = read f.mem (f.placeAt (c.tables.spv vid)) ∧
        read f'.mem (f.placeAt (c.tables.spv vid)) = read (body.run seen.args seen.mem).1 t
  others : ∀ q, q.root < c.emitter.nextId →
    (∀ x ∈ hf.threadArgs vids, q.Apart (f.placeAt (c.tables.spv x.2))) →
      read f'.mem q = read f.mem q

/-- The sequence of a call passes thread arguments by reference, whatever the helper does. -/
def ByReference (c : CallCtx) (hf : HelperSig) (vids : List Nat) (f : FnFrame) (o : CallOut) :
    Prop :=
  ∀ body : HelperRun hf.params, ∃ seen,
    PassedByReference c hf vids body f ((f.declare o.locals).runInsts body o.code) seen

/- Runs of the emitted sequence. -/

namespace FnFrame
variable {ps : List HelperParam} {body : HelperRun ps}

theorem bind_env_self (f : FnFrame) (id : Nat) (v : FnVal) :
    (f.bind id v).env id = v := by
  simp [bind]

theorem bind_env_of_ne (f : FnFrame) {id k : Nat} (h : k ≠ id) (v : FnVal) :
    (f.bind id v).env k = f.env k := by
  simp [bind, h]

theorem runInsts_append (is js : List FnInst) : ∀ f : FnFrame,
    f.runInsts body (is++js) = (f.runInsts body is).runInsts body js := by
  induction is with
  | nil => intro f; rfl
  | cons i is ih => intro f; exact ih (f.exec body i)

/-- A load and a store of what was loaded. -/
theorem runInsts_copy (f : FnFrame) {ty ld src dst : Nat} {p q : Place Nat Nat}
    (hsrc : f.env src = .place p) (hdst : f.env dst = .place q) (hne : dst ≠ ld) :
    f.runInsts body [.load ty ld src, .store dst ld] =
      { f with
        env := Function.update f.env ld (.data (read f.mem p))
        mem := write f.mem q (read f.mem p) } := by
  have hld : f.exec body (.load ty ld src) = f.bind ld (.data (read f.mem p)) := by
    rw [exec, hsrc]
  have hq : (f.bind ld (.data (read f.mem p))).env dst = .place q :=
    (f.bind_env_of_ne hne _).trans hdst
  have hv := f.bind_env_self ld (.data (read f.mem p))
  rw [runInsts, hld, runInsts, runInsts, exec, hq, hv]
  rfl

/-- Interior pointers only add ids. -/
theorem runInsts_chains {a b : Nat} (is : List FnInst) : ∀ f : FnFrame,
    (∀ i ∈ is, ∃ ty id base idx, i = .accessChain ty id base idx ∧ a ≤ id ∧ id < b) →
      (f.runInsts body is).mem = f.mem ∧ (f.runInsts body is).calls = f.calls ∧
        ∀ id, id < a ∨ b ≤ id → (f.runInsts body is).env id = f.env id := by
  induction is with
  | nil => intro f _; exact ⟨rfl, rfl, fun _ _ => rfl⟩
  | cons i is ih =>
    intro f h
    obtain ⟨ty, id, base, idx, hi, ha, hb⟩ := h i List.mem_cons_self
    obtain ⟨hmem, hcalls, henv⟩ := ih (f.exec body i) fun j hj => h j (List.mem_cons_of_mem i hj)
    subst hi
    refine ⟨hmem, hcalls, fun k hk => ?_⟩
    have hne : k ≠ id := by omega
    rw [runInsts, henv k hk]
    exact f.bind_env_of_ne hne _

end FnFrame

namespace CallOut

def temps (o : CallOut) : List Nat := o.locals.map Prod.snd

theorem temps_snoc {o o' : CallOut} {ty t : Nat} (h : o'.locals = o.locals++[(ty, t)]) :
    o'.temps = o.temps++[t] := by
  rw [temps, h, List.map_append]
  rfl

theorem temps_congr {o o' : CallOut} (h : o'.locals = o.locals) : o'.temps = o.temps :=
  congrArg (List.map Prod.snd) h

def copyIns (o : CallOut) (f : FnFrame) : List (Copy Nat Nat) :=
  o.cb.map fun b => ⟨f.placeAt b.src, ⟨b.temp, []⟩⟩

def copyOuts (o : CallOut) (f : FnFrame) : List (Copy Nat Nat) :=
  o.cb.map fun b => ⟨⟨b.temp, []⟩, f.placeAt b.src⟩

end CallOut

section
variable {c : CallCtx} {n : Nat} {done : List (HelperParam × Nat)} {o o' : CallOut}
  {p : HelperParam} {vid : Nat}

/-- What the loop over the parameters has emitted for those that are done; `n` is the first
id of the call. -/
structure Lowered (c : CallCtx) (n : Nat) (done : List (HelperParam × Nat)) (o : CallOut) :
    Prop where
  argc : o.argv.length = done.length
  locals : o.temps = ((done.zip o.argv).filter fun x =>
    decide (x.1.1.kind = .threadPtr)).map Prod.snd
  back : o.cb = ((done.zip o.argv).filter fun x =>
    decide (x.1.1.kind = .threadPtr ∧ c.copies x.1.1 x.1.2)).map fun x =>
      ⟨c.tables.spv x.1.2, x.2, x.1.1.pointeeSpv⟩
  next : n ≤ o.emitter.nextId
  fresh : ∀ t ∈ o.temps, n ≤ t ∧ t < o.emitter.nextId
  nodup : o.temps.Nodup

theorem zip_snoc {α β : Type*} {as : List α} {bs : List β} (h : bs.length = as.length) (a : α)
    (b : β) : (as++[a]).zip (bs++[b]) = as.zip bs++[(a, b)] := by
  rw [List.zip_append h.symm]
  rfl

theorem Lowered.cb_length_le (hl : Lowered c n done o) : o.cb.length ≤ done.length := by
  rw [hl.back, List.length_map]
  calc _ ≤ (done.zip o.argv).length := List.length_filter_le _ _
    _ = min done.length o.argv.length := List.length_zip
    _ ≤ done.length := Nat.min_le_left _ _

theorem Lowered.step (hl : Lowered c n done o) (hlen : done.length < maxHelperParams)
    (h : c.lowerArg p vid o = some o') : Lowered c n (done++[(p, vid)]) o' := by
  by_cases hk : p.kind = .threadPtr
  · have hcb := Nat.lt_of_le_of_lt hl.cb_length_le hlen
    obtain ⟨hargv, hlocals, hcopy⟩ := CallCtx.lowerArg_threadPtr hk hcb h
    have htemps := CallOut.temps_snoc hlocals
    have hnext : o.emitter.nextId < o'.emitter.nextId := by
      cases hcopy with
      | inl hc => rw [hc.2.1]; omega
      | inr hc => rw [hc.2.1]; omega
    have hold : o.emitter.nextId ∉ o.temps := fun ht => Nat.lt_irrefl _ (hl.fresh _ ht).2
    exact {
      argc := by rw [hargv, List.length_append, List.length_append, hl.argc]; rfl
      locals := by
        rw [htemps, hargv, zip_snoc hl.argc, List.filter_append, hl.locals]
        simp [hk]
      back := by
        rw [hargv, zip_snoc hl.argc, List.filter_append, List.map_append, ← hl.back]
        cases hcopy with
        | inl hc =>
          rw [hc.2.2.1]
          simp [hk, hc.1]
        | inr hc =>
          rw [hc.2.2.1]
          simp [hk, hc.1]
      next := Nat.le_trans hl.next (Nat.le_of_lt hnext)
      fresh := fun t ht => by
        rw [htemps, List.mem_append, List.mem_singleton] at ht
        cases ht with
        | inl ht => exact ⟨(hl.fresh t ht).1, Nat.lt_trans (hl.fresh t ht).2 hnext⟩
        | inr ht => exact ⟨ht ▸ hl.next, ht ▸ hnext⟩
      nodup := by
        rw [htemps, ← List.concat_eq_append]
        exact hl.nodup.concat hold }
  · obtain ⟨⟨a, hargv⟩, hlocals, hcb, hnext, -⟩ := CallCtx.lowerArg_other hk h
    have htemps := CallOut.temps_congr hlocals
    exact {
      argc := by rw [hargv, List.length_append, List.length_append, hl.argc]; rfl
      locals := by
        rw [htemps, hargv, zip_snoc hl.argc, List.filter_append, hl.locals]
        simp [hk]
      back := by
        rw [hcb, hargv, zip_snoc hl.argc, List.filter_append, hl.back]
        simp [hk]
      next := Nat.le_trans hl.next hnext
      fresh := fun t ht => by
        rw [htemps] at ht
        exact ⟨(hl.fresh t ht).1, Nat.lt_of_lt_of_le (hl.fresh t ht).2 hnext⟩
      nodup := htemps ▸ hl.nodup }

/-- The frame holds the temporaries, and the sources are places that it held before. -/
structure Ready (n : Nat) (o : CallOut) (f : FnFrame) : Prop where
  temps : ∀ t ∈ o.temps, f.env t = .place ⟨t, []⟩
  srcs : ∀ b ∈ o.cb, b.src < n ∧ f.env b.src = .place (f.placeAt b.src)

/-- The code so far, run from `f` to `f'`, has made the copies into the temporaries. -/
structure CopiedIn (n : Nat) (o : CallOut) (f f' : FnFrame) : Prop where
  mem : f'.mem = copyAll f.mem (o.copyIns f)
  calls : f'.calls = f.calls
  env : ∀ id, id < n ∨ id ∈ o.temps ∨ o.emitter.nextId ≤ id → f'.env id = f.env id

def CopiesIn (n : Nat) (o : CallOut) : Prop :=
  ∀ (ps : List HelperParam) (body : HelperRun ps) (f : FnFrame), Ready n o f →
    CopiedIn n o f (f.runInsts body o.code)

theorem copiesIn_other (hl : Lowered c n done o) (ho : CallCtx.Other o o')
    (h : CopiesIn n o) : CopiesIn n o' := by
  intro ps body f hr
  obtain ⟨is, hcode, hchains⟩ := ho.code
  have htemps := CallOut.temps_congr ho.locals
  have hready : Ready n o f := ⟨fun t ht => hr.temps t (htemps ▸ ht),
    fun b hb => hr.srcs b (ho.cb ▸ hb)⟩
  have hbefore := h ps body f hready
  obtain ⟨hmem, hcalls, henv⟩ :=
    @FnFrame.runInsts_chains ps body _ _ is (f.runInsts body o.code) hchains
  rw [hcode, FnFrame.runInsts_append]
  refine ⟨?_, hcalls.trans hbefore.calls, fun id hid => ?_⟩
  · rw [hmem, hbefore.mem, CallOut.copyIns, CallOut.copyIns, ho.cb]
  · rw [htemps] at hid
    have hnext := ho.next
    have hn := hl.next
    have hold : id < n ∨ id ∈ o.temps ∨ o.emitter.nextId ≤ id := by
      cases hid with
      | inl hid => exact Or.inl hid
      | inr hid => exact Or.inr (Or.imp_right (Nat.le_trans hnext) hid)
    have hout : id < o.emitter.nextId ∨ o'.emitter.nextId ≤ id := by
      cases hid with
      | inl hid => exact Or.inl (Nat.lt_of_lt_of_le hid hn)
      | inr hid => exact Or.imp_left (fun ht => (hl.fresh id ht).2) hid
    rw [henv id hout, hbefore.env id hold]

theorem old_or_behind {id a b : Nat} {temps : List Nat}
    (h : id < n ∨ (id ∈ temps ∨ id = a) ∨ b ≤ id) (hab : a ≤ b) :
    id < n ∨ id ∈ temps ∨ a ≤ id := by
  cases h with
  | inl hlt => exact Or.inl hlt
  | inr h =>
    cases h with
    | inl hm => exact Or.inr (Or.imp_right (fun he => Nat.le_of_eq he.symm) hm)
    | inr hge => exact Or.inr (Or.inr (Nat.le_trans hab hge))

theorem copiesIn_threadPtr (hl : Lowered c n done o) (hk : p.kind = .threadPtr)
    (hlen : done.length < maxHelperParams) (hstep : c.lowerArg p vid o = some o')
    (h : CopiesIn n o) : CopiesIn n o' := by
  have hcb := Nat.lt_of_le_of_lt hl.cb_length_le hlen
  obtain ⟨-, hlocals, hcopy⟩ := CallCtx.lowerArg_threadPtr hk hcb hstep
  have htemps := CallOut.temps_snoc hlocals
  have hnew : o.emitter.nextId ∈ o'.temps := by rw [htemps]; simp
  intro ps body f hr
  have hbefore : (∀ b ∈ o.cb, b ∈ o'.cb) → CopiedIn n o f (f.runInsts body o.code) :=
    fun hsub => h ps body f ⟨fun t ht => hr.temps t (by rw [htemps]; simp [ht]),
      fun b hb => hr.srcs b (hsub b hb)⟩
  have hn := hl.next
  cases hcopy with
  | inr hc =>
    obtain ⟨-, hnext, hcbs, hcode⟩ := hc
    have hin := hbefore fun b hb => hcbs ▸ hb
    rw [hcode]
    refine ⟨?_, hin.calls, fun id hid => hin.env id ?_⟩
    · rw [hin.mem, CallOut.copyIns, CallOut.copyIns, hcbs]
    · rw [htemps, List.mem_append, List.mem_singleton, hnext] at hid
      exact old_or_behind hid (Nat.le_succ _)
  | inl hc =>
    obtain ⟨-, hnext, hcbs, hcode⟩ := hc
    have hin := hbefore fun b hb => by rw [hcbs]; simp [hb]
    obtain ⟨hsrc, hplace⟩ := hr.srcs ⟨c.tables.spv vid, o.emitter.nextId, p.pointeeSpv⟩
      (by rw [hcbs]; simp)
    have hfrom := (hin.env _ (Or.inl hsrc)).trans hplace
    have hto := (hin.env _ (Or.inr (Or.inr (Nat.le_refl _)))).trans (hr.temps _ hnew)
    rw [hcode, FnFrame.runInsts_append,
      FnFrame.runInsts_copy _ hfrom hto (Nat.ne_of_lt (Nat.lt_succ_self _))]
    refine ⟨?_, hin.calls, fun id hid => ?_⟩
    · rw [hin.mem, CallOut.copyIns, CallOut.copyIns, hcbs, List.map_append, copyAll_append]
      rfl
    · rw [htemps, List.mem_append, List.mem_singleton, hnext] at hid
      have hne : id ≠ o.emitter.nextId+1 := by
        intro he
        cases hid with
        | inl hlt => omega
        | inr hid =>
          cases hid with
          | inl ht =>
            cases ht with
            | inl hm =>
              have hlt := (hl.fresh id hm).2
              omega
            | inr heq => omega
          | inr hge => omega
      have hold := old_or_behind hid (Nat.le_add_right _ 2)
      exact (Function.update_of_ne hne _ _).trans (hin.env id hold)

theorem lowerArgs_lowered {as : List (HelperParam × Nat)} (hlen : as.length ≤ maxHelperParams)
    (h : c.lowerArgs as { emitter := c.emitter } = some o) :
    Lowered c c.emitter.nextId as o ∧ CopiesIn c.emitter.nextId o := by
  have hstart : Lowered c c.emitter.nextId [] { emitter := c.emitter } ∧
      CopiesIn c.emitter.nextId { emitter := c.emitter } := by
    refine ⟨⟨rfl, rfl, rfl, Nat.le_refl _, fun t ht => absurd ht List.not_mem_nil,
      List.nodup_nil⟩, fun ps body f _ => ⟨rfl, rfl, fun _ _ => rfl⟩⟩
  refine CallCtx.lowerArgs_induct (P := fun done o => Lowered c c.emitter.nextId done o ∧
    CopiesIn c.emitter.nextId o) ?_ as [] _ o hlen hstart h
  intro done p vid o o' hd hP hstep
  refine ⟨hP.1.step hd hstep, ?_⟩
  by_cases hk : p.kind = .threadPtr
  · exact copiesIn_threadPtr hP.1 hk hd hstep hP.2
  · exact copiesIn_other hP.1 (CallCtx.lowerArg_other hk hstep) hP.2

/-- The copies back, in the state that the helper has left. -/
theorem copyBack_run {ps : List HelperParam} (body : HelperRun ps) (place : Nat → Place Nat Nat)
    (cb : List CopyBack) : ∀ (o : CallOut) (f : FnFrame),
    (∀ b ∈ cb, b.temp < o.emitter.nextId ∧ b.src < o.emitter.nextId ∧
      f.env b.temp = .place ⟨b.temp, []⟩ ∧ f.env b.src = .place (place b.src)) →
    ∃ is, (CallCtx.copyBack cb o).code = o.code++is ∧
      (f.runInsts body is).mem = copyAll f.mem (cb.map fun b =>
        ⟨⟨b.temp, []⟩, place b.src⟩) ∧
      (f.runInsts body is).calls = f.calls := by
  induction cb with
  | nil => intro o f _; exact ⟨[], (List.append_nil _).symm, rfl, rfl⟩
  | cons b cb ih =>
    intro o f h
    obtain ⟨htemp, hsrc, hfrom, hto⟩ := h b List.mem_cons_self
    have hcopy := @FnFrame.runInsts_copy ps body f b.pointee o.emitter.nextId b.temp b.src _ _
      hfrom hto (Nat.ne_of_lt hsrc)
    rw [CallCtx.copyBack]
    obtain ⟨is, hcode, hmem, hcalls⟩ := ih
      { o with
        emitter := o.emitter.alloc
        code := o.code++[.load b.pointee o.emitter.nextId b.temp,
          .store b.src o.emitter.nextId] }
      { f with
        env := Function.update f.env o.emitter.nextId (.data (read f.mem ⟨b.temp, []⟩))
        mem := write f.mem (place b.src) (read f.mem ⟨b.temp, []⟩) } (fun d hd => by
        obtain ⟨hdt, hds, hdfrom, hdto⟩ := h d (List.mem_cons_of_mem b hd)
        refine ⟨Nat.lt_succ_of_lt hdt, Nat.lt_succ_of_lt hds, ?_, ?_⟩
        · exact (Function.update_of_ne (Nat.ne_of_lt hdt) _ f.env).trans hdfrom
        · exact (Function.update_of_ne (Nat.ne_of_lt hds) _ f.env).trans hdto)
    refine ⟨_, hcode.trans (List.append_assoc _ _ _), ?_, ?_⟩
    · rw [FnFrame.runInsts_append, hcopy, hmem]
      rfl
    · rw [FnFrame.runInsts_append, hcopy, hcalls]

theorem copyBack_locals (cb : List CopyBack) : ∀ o, (CallCtx.copyBack cb o).locals = o.locals := by
  induction cb with
  | nil => intro o; rfl
  | cons b cb ih => intro o; exact ih _

/-- What the run of a call from `f` to `f'` comes to. -/
structure CallRun (hf : HelperSig) (body : HelperRun hf.params) (o : CallOut) (f f' : FnFrame)
    (seen : CallSeen) : Prop where
  calls : f'.calls = seen :: f.calls
  fn : seen.fn = hf.funcId
  argc : seen.args.length = o.argv.length
  args : ∀ (i t : Nat), o.argv[i]? = some t → t ∈ o.temps → seen.args[i]? = some (.place ⟨t, []⟩)
  shown : seen.mem = copyAll f.mem (o.copyIns f)
  back : f'.mem = copyAll (body.run seen.args seen.mem).1 (o.copyOuts f)

variable {hf : HelperSig} {vids : List Nat} {f : FnFrame} {c' : CallCtx} {out : CallOut} {r : Nat}

theorem Lowered.copied (hl : Lowered c n (hf.params.zip vids) o) {b : CopyBack} (hb : b ∈ o.cb) :
    b.temp ∈ o.temps ∧ ∃ x ∈ hf.threadArgs vids, b.src = c.tables.spv x.2 := by
  rw [hl.back, List.mem_map] at hb
  obtain ⟨y, hy, rfl⟩ := hb
  obtain ⟨hmem, hcond⟩ := List.mem_filter.mp hy
  have hkind := (of_decide_eq_true hcond).1
  refine ⟨?_, y.1, List.mem_filter.mpr ⟨(List.of_mem_zip hmem).1, decide_eq_true hkind⟩, rfl⟩
  rw [hl.locals]
  exact List.mem_map_of_mem (List.mem_filter.mpr ⟨hmem, decide_eq_true hkind⟩)

/-- Behind the lowering of the arguments, the call and the copies back do what they say. -/
theorem callRun (hl : Lowered c c.emitter.nextId (hf.params.zip vids) o)
    (hin : CopiesIn c.emitter.nextId o) (ht : ThreadArgs c hf vids f) (e : FnEmitter)
    (he : o.emitter.nextId < e.nextId) (ret : Nat) (body : HelperRun hf.params) :
    ∃ seen, CallRun hf body o f ((f.declare o.locals).runInsts body
      (CallCtx.copyBack o.cb { o with
        emitter := e
        code := o.code++[.functionCall ret o.emitter.nextId hf.funcId o.argv] }).code) seen := by
  have hold : ∀ id, id < c.emitter.nextId → (f.declare o.locals).env id = f.env id :=
    fun id hid => if_neg fun hm => Nat.lt_irrefl id (Nat.lt_of_lt_of_le hid (hl.fresh id hm).1)
  have hsrc : ∀ b ∈ o.cb, b.src < c.emitter.nextId ∧ f.env b.src = .place (f.placeAt b.src) := by
    intro b hb
    obtain ⟨-, x, hx, hbx⟩ := hl.copied hb
    obtain ⟨-, hlt, p, hp, -⟩ := ht.located x hx
    rw [hbx, FnFrame.placeAt, hp]
    exact ⟨hlt, rfl⟩
  have hplace : ∀ b ∈ o.cb, (f.declare o.locals).placeAt b.src = f.placeAt b.src := by
    intro b hb
    rw [FnFrame.placeAt, hold b.src (hsrc b hb).1]
    rfl
  have hready : Ready c.emitter.nextId o (f.declare o.locals) := by
    refine ⟨fun t hm => if_pos hm, fun b hb => ⟨(hsrc b hb).1, ?_⟩⟩
    rw [hplace b hb, hold b.src (hsrc b hb).1]
    exact (hsrc b hb).2
  have hcopied := hin hf.params body _ hready
  have hins : o.copyIns (f.declare o.locals) = o.copyIns f :=
    List.map_congr_left fun b hb => by rw [hplace b hb]
  have htemp : ∀ t ∈ o.temps, ((f.declare o.locals).runInsts body o.code).env t =
      .place ⟨t, []⟩ := fun t hm =>
    (hcopied.env t (Or.inr (Or.inl hm))).trans (hready.temps t hm)
  generalize hf1 : (f.declare o.locals).runInsts body o.code = f₁ at hcopied htemp
  have hnext := hl.next
  obtain ⟨is, hcode, hmem, hcalls⟩ := @copyBack_run hf.params body f.placeAt o.cb
    { o with
      emitter := e
      code := o.code++[.functionCall ret o.emitter.nextId hf.funcId o.argv] }
    (f₁.exec body (.functionCall ret o.emitter.nextId hf.funcId o.argv)) (fun b hb => by
      have hbt := (hl.copied hb).1
      have hlt := (hl.fresh b.temp hbt).2
      have hbs := (hsrc b hb).1
      refine ⟨Nat.lt_trans hlt he, Nat.lt_trans (Nat.lt_of_lt_of_le hbs hnext) he, ?_, ?_⟩
      · exact (Function.update_of_ne (Nat.ne_of_lt hlt) _ _).trans (htemp b.temp hbt)
      · have hne : b.src ≠ o.emitter.nextId := by omega
        rw [← (hsrc b hb).2, ← hold b.src hbs, ← hcopied.env b.src (Or.inl hbs)]
        exact Function.update_of_ne hne _ _)
  refine ⟨⟨hf.funcId, o.argv.map f₁.env, f₁.mem⟩, ?_, rfl, List.length_map _, ?_, ?_, ?_⟩
  · rw [hcode, FnFrame.runInsts_append, FnFrame.runInsts_append, hf1]
    exact hcalls.trans (congrArg (List.cons _) hcopied.calls)
  · intro i t hi hm
    rw [List.getElem?_map, hi, Option.map_some, htemp t hm]
  · rw [← hins]
    exact hcopied.mem
  · rw [hcode, FnFrame.runInsts_append, FnFrame.runInsts_append, hf1]
    exact hmem

/-- The sequence that a call emits, run with any helper. -/
theorem emitHelperFncall_run (h : c.emitHelperFncall hf vids r = some (out, c'))
    (ht : ThreadArgs c hf vids f) : hf.params.length ≤ vids.length ∧
      ∃ o, Lowered c c.emitter.nextId (hf.params.zip vids) o ∧
        ∀ body : HelperRun hf.params, ∃ seen,
          CallRun hf body o f ((f.declare out.locals).runInsts body out.code) seen := by
  rw [CallCtx.emitHelperFncall] at h
  by_cases hguard : hf.funcId = 0 ∨ hf.emitted = false ∨ vids.length < hf.params.length ∨
      ¬(hf.retSpv = 0 ↔ r = 0)
  · rw [if_pos hguard] at h
    cases h
  rw [if_neg hguard] at h
  obtain ⟨o, hargs, hout⟩ := Option.map_eq_some_iff.mp h
  have hlong : hf.params.length ≤ vids.length := by
    by_contra hlt
    exact hguard (Or.inr (Or.inr (Or.inl (by omega))))
  have hlen : (hf.params.zip vids).length ≤ maxHelperParams := by
    rw [List.length_zip]
    exact Nat.le_trans (Nat.min_le_left _ _) hf.params_le
  obtain ⟨hl, hin⟩ := lowerArgs_lowered hlen hargs
  refine ⟨hlong, o, hl, fun body => ?_⟩
  have hfst : _ = out := congrArg Prod.fst hout
  rw [← hfst, copyBack_locals]
  refine callRun hl hin ht _ ?_ _ body
  by_cases hret : hf.retSpv ≠ 0
  · rw [if_pos hret]
    exact Nat.lt_succ_self _
  · rw [if_neg hret]
    exact o.emitter.alloc.nextId_voidType_le

/- The copies of a call. -/

/-- A parameter has its id among the arguments. -/
theorem Lowered.get {as : List (HelperParam × Nat)} (hl : Lowered c n as o) {i : Nat}
    {x : HelperParam × Nat} (h : as[i]? = some x) :
    ∃ t, o.argv[i]? = some t ∧ (x, t) ∈ as.zip o.argv := by
  obtain ⟨hi, hx⟩ := List.getElem?_eq_some_iff.mp h
  have hj : i < o.argv.length := hl.argc ▸ hi
  refine ⟨o.argv[i], List.getElem?_eq_getElem hj, List.mem_iff_getElem?.mpr ⟨i, ?_⟩⟩
  exact List.getElem?_zip_eq_some.mpr ⟨h, List.getElem?_eq_getElem hj⟩

/-- The parameters in a list that are thread pointers, with their ids. -/
def boundThreads (as : List (HelperParam × Nat)) (argv : List Nat) :
    List ((HelperParam × Nat) × Nat) :=
  (as.zip argv).filter fun x => decide (x.1.1.kind = .threadPtr)

theorem mem_boundThreads {as : List (HelperParam × Nat)} {argv : List Nat}
    {x : (HelperParam × Nat) × Nat} :
    x ∈ boundThreads as argv ↔ x ∈ as.zip argv ∧ x.1.1.kind = .threadPtr := by
  rw [boundThreads, List.mem_filter, decide_eq_true_iff]

theorem Lowered.mem_temps (hl : Lowered c n done o) {x : (HelperParam × Nat) × Nat}
    (h : x ∈ boundThreads done o.argv) : x.2 ∈ o.temps := by
  rw [hl.locals]
  exact List.mem_map_of_mem h

theorem Lowered.mem_cb (hl : Lowered c n done o) {b : CopyBack} : b ∈ o.cb ↔
    ∃ x ∈ boundThreads done o.argv, c.copies x.1.1 x.1.2 ∧
      b = ⟨c.tables.spv x.1.2, x.2, x.1.1.pointeeSpv⟩ := by
  rw [hl.back, List.mem_map]
  constructor
  · intro h
    obtain ⟨x, hx, hb⟩ := h
    obtain ⟨hmem, hcond⟩ := List.mem_filter.mp hx
    have hboth := of_decide_eq_true hcond
    exact ⟨x, mem_boundThreads.mpr ⟨hmem, hboth.1⟩, hboth.2, hb.symm⟩
  · intro h
    obtain ⟨x, hx, hc, hb⟩ := h
    obtain ⟨hmem, hk⟩ := mem_boundThreads.mp hx
    exact ⟨x, List.mem_filter.mpr ⟨hmem, decide_eq_true ⟨hk, hc⟩⟩, hb.symm⟩

theorem Lowered.threads (hl : Lowered c n (hf.params.zip vids) o) :
    hf.threadArgs vids = (boundThreads (hf.params.zip vids) o.argv).map Prod.fst := by
  have hfst := List.map_fst_zip (Nat.le_of_eq hl.argc.symm)
  calc hf.threadArgs vids
      = (((hf.params.zip vids).zip o.argv).map Prod.fst).filter fun x =>
          decide (x.1.kind = .threadPtr) := by rw [hfst]; rfl
    _ = (boundThreads (hf.params.zip vids) o.argv).map Prod.fst := List.filter_map

/-- Two thread parameters have different variables and disjoint locations. -/
def Distinct (c : CallCtx) (f : FnFrame) (x y : (HelperParam × Nat) × Nat) : Prop :=
  x.2 ≠ y.2 ∧ (f.placeAt (c.tables.spv x.1.2)).Apart (f.placeAt (c.tables.spv y.1.2))

theorem Lowered.distinct (hl : Lowered c n (hf.params.zip vids) o)
    (ht : ThreadArgs c hf vids f) :
    (boundThreads (hf.params.zip vids) o.argv).Pairwise (Distinct c f) := by
  have hnodup := hl.nodup
  have hapart := ht.apart
  rw [hl.locals] at hnodup
  rw [hl.threads, List.pairwise_map] at hapart
  exact (List.pairwise_map.mp hnodup).and hapart

theorem Lowered.copies_distinct (hl : Lowered c n (hf.params.zip vids) o)
    (ht : ThreadArgs c hf vids f) : o.cb.Pairwise fun b d =>
      b.temp ≠ d.temp ∧ (f.placeAt b.src).Apart (f.placeAt d.src) := by
  rw [hl.back, List.pairwise_map]
  refine List.Pairwise.sublist ?_ (hl.distinct ht)
  exact List.monotone_filter_right _ fun x hx =>
    decide_eq_true (of_decide_eq_true hx).1

/-- The location of a copy is older than its variable. -/
theorem Lowered.copy_src (hl : Lowered c c.emitter.nextId (hf.params.zip vids) o)
    (ht : ThreadArgs c hf vids f) {b d : CopyBack} (hb : b ∈ o.cb) (hd : d ∈ o.cb) :
    (f.placeAt b.src).root ≠ d.temp := by
  obtain ⟨-, x, hx, hbx⟩ := hl.copied hb
  obtain ⟨-, -, p, hp, hroot⟩ := ht.located x hx
  have htemp := (hl.fresh d.temp (hl.copied hd).1).1
  rw [hbx, FnFrame.placeAt, hp]
  exact Nat.ne_of_lt (Nat.lt_of_lt_of_le hroot htemp)

theorem Lowered.copyIns_independent (hl : Lowered c c.emitter.nextId (hf.params.zip vids) o)
    (ht : ThreadArgs c hf vids f) : Independent (o.copyIns f) where
  srcs k hk l hm := by
    obtain ⟨b, hb, rfl⟩ := List.mem_map.mp hk
    obtain ⟨d, hd, rfl⟩ := List.mem_map.mp hm
    exact Place.apart_of_root (hl.copy_src ht hb hd)
  dsts := List.pairwise_map.mpr ((hl.copies_distinct ht).imp fun h => Place.apart_of_root h.1)

theorem Lowered.copyOuts_independent (hl : Lowered c c.emitter.nextId (hf.params.zip vids) o)
    (ht : ThreadArgs c hf vids f) : Independent (o.copyOuts f) where
  srcs k hk l hm := by
    obtain ⟨b, hb, rfl⟩ := List.mem_map.mp hk
    obtain ⟨d, hd, rfl⟩ := List.mem_map.mp hm
    exact Place.apart_of_root (hl.copy_src ht hd hb).symm
  dsts := List.pairwise_map.mpr ((hl.copies_distinct ht).imp fun h => h.2)

section
variable {body : HelperRun hf.params} {f' : FnFrame} {seen : CallSeen}
  (hl : Lowered c c.emitter.nextId (hf.params.zip vids) o) (hrun : CallRun hf body o f f' seen)
include hl hrun

/-- The thread parameters point to the variables that the call has made. -/
theorem CallRun.threadPlaces (hlong : hf.params.length ≤ vids.length) :
    ∀ q ∈ threadPlaces hf.params seen.args, q.root ∈ o.temps := by
  intro q hq
  obtain ⟨y, hy, hplace⟩ := List.mem_filterMap.mp hq
  obtain ⟨i, hi⟩ := List.mem_iff_getElem?.mp hy
  obtain ⟨hp, ha⟩ := List.getElem?_zip_eq_some.mp hi
  have hlt : i < vids.length := Nat.lt_of_lt_of_le (List.getElem?_eq_some_iff.mp hp).1 hlong
  have hzip : (hf.params.zip vids)[i]? = some (y.1, vids[i]) :=
    List.getElem?_zip_eq_some.mpr ⟨hp, List.getElem?_eq_getElem hlt⟩
  obtain ⟨t, ht, hmem⟩ := hl.get hzip
  by_cases hk : y.1.kind = .threadPtr
  · have htemp := hl.mem_temps (mem_boundThreads.mpr ⟨hmem, hk⟩)
    have hval := (hrun.args i t ht htemp).symm.trans ha
    rw [if_pos hk, ← Option.some.inj hval] at hplace
    cases hplace
    exact htemp
  · rw [if_neg hk] at hplace
    cases hplace

/-- A place that no copy writes keeps its content. -/
theorem CallRun.keeps (hlong : hf.params.length ≤ vids.length) {q : Place Nat Nat}
    (hq : q.root < c.emitter.nextId) (hapart : ∀ b ∈ o.cb, q.Apart (f.placeAt b.src)) :
    read f'.mem q = read f.mem q := by
  have htemp : ∀ t ∈ o.temps, q.root ≠ t := fun t ht =>
    Nat.ne_of_lt (Nat.lt_of_lt_of_le hq (hl.fresh t ht).1)
  have hback : ∀ k ∈ o.copyOuts f, q.Apart k.dst := by
    intro k hk
    obtain ⟨b, hb, rfl⟩ := List.mem_map.mp hk
    exact hapart b hb
  have hin : ∀ k ∈ o.copyIns f, q.Apart k.dst := by
    intro k hk
    obtain ⟨b, hb, rfl⟩ := List.mem_map.mp hk
    exact Place.apart_of_root (htemp b.temp (hl.copied hb).1)
  have hframe : (body.run seen.args seen.mem).1 q.root = seen.mem q.root :=
    body.frame seen.args seen.mem q.root fun p hp =>
      htemp p.root (hrun.threadPlaces hl hlong p hp)
  calc read f'.mem q
      = read (body.run seen.args seen.mem).1 q := by rw [hrun.back, copyAll_apart _ _ hback]
    _ = read seen.mem q := funext fun r => congrFun hframe (q.path++r)
    _ = read f.mem q := by rw [hrun.shown, copyAll_apart _ _ hin]

/-- A location of known type is shown to the helper and gets what the helper leaves. -/
theorem CallRun.copied (ht : ThreadArgs c hf vids f) {x : (HelperParam × Nat) × Nat}
    (hx : x ∈ boundThreads (hf.params.zip vids) o.argv) (hc : c.copies x.1.1 x.1.2) :
    read seen.mem ⟨x.2, []⟩ = read f.mem (f.placeAt (c.tables.spv x.1.2)) ∧
      read f'.mem (f.placeAt (c.tables.spv x.1.2)) =
        read (body.run seen.args seen.mem).1 ⟨x.2, []⟩ := by
  have hb := hl.mem_cb.mpr ⟨x, hx, hc, rfl⟩
  constructor
  · rw [hrun.shown]
    exact copyAll_copied _ f.mem (hl.copyIns_independent ht) (List.mem_map_of_mem hb)
  · rw [hrun.back]
    exact copyAll_copied _ _ (hl.copyOuts_independent ht) (List.mem_map_of_mem hb)

/-- A location of unknown type is left out: whatever the helper does, it stays as it was. -/
theorem CallRun.dropped (hlong : hf.params.length ≤ vids.length) (ht : ThreadArgs c hf vids f)
    {x : (HelperParam × Nat) × Nat} (hx : x ∈ boundThreads (hf.params.zip vids) o.argv)
    (hc : ¬c.copies x.1.1 x.1.2) :
    read f'.mem (f.placeAt (c.tables.spv x.1.2)) =
      read f.mem (f.placeAt (c.tables.spv x.1.2)) := by
  have hmem : x.1 ∈ hf.threadArgs vids := by
    rw [hl.threads]
    exact List.mem_map_of_mem hx
  obtain ⟨-, -, p, hp, hroot⟩ := ht.located x.1 hmem
  have hplace : f.placeAt (c.tables.spv x.1.2) = p := by rw [FnFrame.placeAt, hp]; rfl
  refine hrun.keeps hl hlong (hplace ▸ hroot) fun b hb => ?_
  obtain ⟨y, hy, hcy, rfl⟩ := hl.mem_cb.mp hb
  have hne : x ≠ y := fun he => hc (he ▸ hcy)
  have hsymm : Std.Symm (Distinct c f) := ⟨fun a b h => ⟨h.1.symm, h.2.symm⟩⟩
  exact ((hl.distinct ht).forall hx hy hne).2

end

/-- The copies of a thread argument are made when its origin has recorded the type of the
parameter. -/
theorem ThreadArgs.copies_iff {defs : List (Nat × ValueDef)} (ht : ThreadArgs c hf vids f)
    (hdefs : c.tables = valueTables defs) (hnum : (defs.map Prod.fst).Nodup)
    {x : HelperParam × Nat} (hx : x ∈ hf.threadArgs vids) : c.copies x.1 x.2 ↔
      ∃ d, origin defs x.2 = some d ∧ d.recorded = some x.1.spvTy := by
  have hbound := (ht.located x hx).1
  have hty : x.1.spvTy ≠ 0 := hf.typed x.1 (List.of_mem_zip (List.mem_filter.mp hx).1).1
  rw [hdefs] at hbound
  obtain ⟨d, hd, hrec⟩ := valueTables_type defs hnum x.2 hbound
  constructor
  · intro hc
    refine ⟨d, hd, ?_⟩
    have heq := hc.2
    rw [hdefs, hrec] at heq
    cases hcase : d.recorded with
    | none =>
      rw [hcase] at heq
      exact absurd heq.symm hty
    | some ty =>
      rw [hcase] at heq
      exact congrArg some heq
  · intro h
    obtain ⟨e, he, hte⟩ := h
    rw [hd, Option.some.injEq] at he
    subst he
    rw [CallCtx.copies, hdefs, hrec, hte]
    exact ⟨hbound, rfl⟩

end

/-- A helper whose last store through its thread parameter `i` is `v`. -/
def HelperRun.storing {ps : List HelperParam} (i : Nat) (v : Content Nat Nat)
    (hi : ∃ p, ps[i]? = some p ∧ p.kind = .threadPtr) : HelperRun ps where
  run args m :=
    match args[i]? with
    | some (.place t) => (write m t v, .outside)
    | _ => (m, .outside)
  frame args m x h := by
    obtain ⟨p, hp, hk⟩ := hi
    split
    case h_1 t ht =>
      refine write_root m v (h t (List.mem_filterMap.mpr ⟨(p, .place t), ?_, ?_⟩))
      · exact List.mem_iff_getElem?.mpr ⟨i, List.getElem?_zip_eq_some.mpr ⟨hp, ht⟩⟩
      · rw [if_pos hk]
        rfl
    case h_2 => rfl

theorem HelperRun.storing_read {ps : List HelperParam} {i : Nat} {v : Content Nat Nat}
    (hi : ∃ p, ps[i]? = some p ∧ p.kind = .threadPtr) {args : List FnVal} (m : Locals)
    {t : Place Nat Nat} (ht : args[i]? = some (.place t)) :
    read ((HelperRun.storing i v hi).run args m).1 t = v := by
  have hrun : (HelperRun.storing i v hi).run args m = (write m t v, .outside) := by
    simp only [storing, ht]
  rw [hrun, read_write]

/-- A call passes its thread arguments by reference, whatever the helper does, if and only if
the origin of each is an access chain, or a parameter, of the parameter's pointer type. -/
theorem byReference_iff {c c' : CallCtx} {hf : HelperSig} {vids : List Nat} {r : Nat}
    {out : CallOut} {f : FnFrame} {defs : List (Nat × ValueDef)}
    (hdefs : c.tables = valueTables defs) (hnum : (defs.map Prod.fst).Nodup)
    (h : c.emitHelperFncall hf vids r = some (out, c')) (ht : ThreadArgs c hf vids f) :
    ByReference c hf vids f out ↔ ∀ x ∈ hf.threadArgs vids, ∃ d,
      origin defs x.2 = some d ∧ d.recorded = some x.1.spvTy := by
  obtain ⟨hlong, o, hl, hruns⟩ := emitHelperFncall_run h ht
  constructor
  · intro hby x hx
    rw [← ht.copies_iff hdefs hnum hx]
    by_contra hc
    obtain ⟨hzip, hkind⟩ := List.mem_filter.mp hx
    have hk := of_decide_eq_true hkind
    obtain ⟨i, hi⟩ := List.mem_iff_getElem?.mp hzip
    have hparam : hf.params[i]? = some x.1 := (List.getElem?_zip_eq_some.mp hi).1
    obtain ⟨t, -, hmem⟩ := hl.get hi
    -- a helper that stores something else than what the location holds
    let v : Content Nat Nat := fun q => read f.mem (f.placeAt (c.tables.spv x.2)) q+1
    obtain ⟨seen, hpassed⟩ := hby (HelperRun.storing i v ⟨x.1, hparam, hk⟩)
    obtain ⟨u, hu, -, hfinal⟩ := hpassed.byReference i x.1 x.2 hi hk
    obtain ⟨seen', hrun⟩ := hruns (HelperRun.storing i v ⟨x.1, hparam, hk⟩)
    have hkept := hrun.dropped hl hlong ht (mem_boundThreads.mpr ⟨hmem, hk⟩) hc
    rw [HelperRun.storing_read _ _ hu] at hfinal
    have hword := congrFun (hkept.symm.trans hfinal) []
    exact Nat.ne_of_lt (Nat.lt_succ_self _) hword
  · intro htyped body
    obtain ⟨seen, hrun⟩ := hruns body
    refine ⟨seen, ⟨hrun.calls, hrun.fn⟩, fun i p vid hi hk => ?_, fun q hq hapart => ?_⟩
    · have hx : (p, vid) ∈ hf.threadArgs vids :=
        List.mem_filter.mpr ⟨List.mem_iff_getElem?.mpr ⟨i, hi⟩, decide_eq_true hk⟩
      obtain ⟨t, hargv, hmem⟩ := hl.get hi
      have hbound := mem_boundThreads.mpr ⟨hmem, hk⟩
      have hc := (ht.copies_iff hdefs hnum hx).mpr (htyped (p, vid) hx)
      exact ⟨⟨t, []⟩, hrun.args i t hargv (hl.mem_temps hbound), hrun.copied hl ht hbound hc⟩
    · refine hrun.keeps hl hlong hq fun b hb => ?_
      obtain ⟨-, x, hx, hbx⟩ := hl.copied hb
      rw [hbx]
      exact hapart x hx

/-- A helper with one `thread` parameter. -/
def outHelper (spvTy : Nat) (hty : spvTy ≠ 0) : HelperSig where
  funcId := 7
  emitted := true
  retSpv := 0
  params := [⟨.threadPtr, spvTy, 3, 4⟩]
  params_le := by simp [maxHelperParams]
  typed p hp := by
    rw [List.mem_singleton] at hp
    rw [hp]
    exact hty

/-- A local variable and a pointer to its first member. -/
def memberDefs : List (Nat × ValueDef) := [(10, .gep 9 [3] 12 5), (9, .alloca 11)]

def memberCtx : CallCtx where
  emitter := { types := { nextId := 20 } }
  tables := valueTables memberDefs

def memberFrame : FnFrame where
  env id := if id = 11 then .place ⟨11, []⟩ else if id = 12 then .place ⟨11, [0]⟩ else .outside
  mem _ _ := 0

theorem member_located : ThreadArgs memberCtx (outHelper 5 (by decide)) [10] memberFrame where
  located x hx := by
    have he : x = (⟨.threadPtr, 5, 3, 4⟩, 10) := List.mem_singleton.mp hx
    rw [he]
    exact ⟨by decide, by decide, ⟨11, [0]⟩, rfl, by decide⟩
  apart := List.pairwise_singleton _ _

theorem variable_located : ThreadArgs memberCtx (outHelper 6 (by decide)) [9] memberFrame where
  located x hx := by
    have he : x = (⟨.threadPtr, 6, 3, 4⟩, 9) := List.mem_singleton.mp hx
    rw [he]
    exact ⟨by decide, by decide, ⟨11, []⟩, rfl, by decide⟩
  apart := List.pairwise_singleton _ _

/-- A member is passed by reference. -/
theorem member_byReference : ∃ out c',
    memberCtx.emitHelperFncall (outHelper 5 (by decide)) [10] 0 = some (out, c') ∧
      ByReference memberCtx (outHelper 5 (by decide)) [10] memberFrame out := by
  have hsome : (memberCtx.emitHelperFncall (outHelper 5 (by decide)) [10] 0).isSome = true := rfl
  obtain ⟨r, h⟩ := Option.isSome_iff_exists.mp hsome
  refine ⟨r.1, r.2, h, (byReference_iff rfl (by decide) h member_located).mpr fun x hx => ?_⟩
  have he : x = (⟨.threadPtr, 5, 3, 4⟩, 10) := List.mem_singleton.mp hx
  rw [he]
  exact ⟨.gep 9 [3] 12 5, rfl, rfl⟩

/-- A variable is not: what the helper stores is lost. -/
theorem variable_not_byReference : ∃ out c',
    memberCtx.emitHelperFncall (outHelper 6 (by decide)) [9] 0 = some (out, c') ∧
      ThreadArgs memberCtx (outHelper 6 (by decide)) [9] memberFrame ∧
      ¬ByReference memberCtx (outHelper 6 (by decide)) [9] memberFrame out := by
  refine ⟨_, _, rfl, variable_located, fun h => ?_⟩
  obtain ⟨seen, hpassed⟩ := h (HelperRun.storing 0 (fun _ => 7) ⟨_, rfl, rfl⟩)
  obtain ⟨t, hseen, -, hfinal⟩ := hpassed.byReference 0 _ 9 rfl rfl
  rw [HelperRun.storing_read _ _ hseen] at hfinal
  exact absurd (congrFun hfinal []) (by decide)

end Lagfx
