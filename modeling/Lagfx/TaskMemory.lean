import Lagfx.State

/-! The reservation of a task: `lagfx_task_map_host_memory` and `lagfx_task_unmap`, the calls
they make on the address space, and the mappings these leave. -/
namespace Lagfx

/-- How a page is mapped: an alias shares a page of the host, a page of the memfd is at its
own offset. -/
inductive PageMapping where
  | hole
  | protNone
  | hostPage (page : Nat)
  | memfd (page : Nat)
deriving DecidableEq, Repr

/-- What a call of the functions does at an offset from the base of the reservation. -/
inductive MapAction where
  | munmap | mremap (hostAddr : Nat) | mmapNone | mmapMemfd | mprotect
deriving DecidableEq, Repr

structure MapCall where
  action : MapAction
  off : Nat
  len : Nat
deriving DecidableEq, Repr

/-- The pages of the address space, counted from the base of the reservation and modulo the
pages of a 64-bit space; `calls` is what was asked of the host so far. -/
structure TaskVm where
  reservedSize : Nat
  reservedSize_lt : reservedSize < 2^64 := by decide
  memfd : Bool := false
  pages : Nat → PageMapping := fun _ => .protNone
  calls : List MapCall := []

/-- Which calls of the host succeed. -/
structure HostCalls where
  munmap : Bool := true
  mremap : Bool := true
  mmapNone : Bool := true
  memfdCreate : Bool := true
  mmapMemfd : Bool := true
  mprotect : Bool := true
deriving DecidableEq, Repr

def hostPageBytes : Nat := 4096
def spacePages : Nat := 2^52

/- Pages from the one of `off` on. -/
def pageFrom (off p : Nat) : Nat := (p+(spacePages-off/hostPageBytes%spacePages))%spacePages

/-- Page `p` has bytes of the `len` from `off` on. -/
def rangeTouches (off len p : Nat) : Prop := pageFrom off p*hostPageBytes < off%hostPageBytes+len

instance (off len p : Nat) : Decidable (rangeTouches off len p) := inferInstanceAs (Decidable (_ < _))

/-- The mapping that a call gives page `p`; `mprotect` gives none. -/
def MapCall.mapping (c : MapCall) (p : Nat) : Option PageMapping :=
  if rangeTouches c.off c.len p then
    match c.action with
    | .munmap => some .hole
    | .mremap hostAddr => some (.hostPage (hostAddr/hostPageBytes+pageFrom c.off p))
    | .mmapNone => some .protNone
    | .mmapMemfd => some (.memfd p)
    | .mprotect => none
  else none

/-- A failing call leaves the pages alone. -/
def TaskVm.call (t : TaskVm) (ok : Bool) (c : MapCall) : TaskVm :=
  { t with
    pages := if ok then fun p => (c.mapping p).getD (t.pages p) else t.pages
    calls := t.calls++[c] }

/- The copy is made into read-write pages, then they are tightened. -/
def taskMapViaCopy (host : HostCalls) (t : TaskVm) (vmOffset len : Nat) (readOnly : Bool) :
    TaskVm × Bool :=
  if t.memfd = false ∧ host.memfdCreate = false then (t, false)
  else
    let t := { t with memfd := true }.call host.mmapMemfd ⟨.mmapMemfd, vmOffset, len⟩
    if host.mmapMemfd = false then (t, false)
    else if readOnly then (t.call host.mprotect ⟨.mprotect, vmOffset, len⟩, host.mprotect)
    else (t, true)

/- The guard adds in `uint64_t`. -/
def TaskVm.refuses (t : TaskVm) (vmOffset len : Nat) : Prop :=
  t.reservedSize < u64 (vmOffset+len) ∨ len = 0

instance (t : TaskVm) (vmOffset len : Nat) : Decidable (t.refuses vmOffset len) :=
  inferInstanceAs (Decidable (_ ∨ _))

/-- `lagfx_task_map_host_memory`: the range is punched out, an alias moved in, and where that
fails reserved again and copied to. The protection of an alias may fail to apply. -/
def taskMapHostMemory (host : HostCalls) (t : TaskVm) (vmOffset : Nat) (hostAddr : Option Nat)
    (len : Nat) (readOnly : Bool) : TaskVm × Bool :=
  if t.refuses vmOffset len then (t, false)
  else
    match hostAddr with
    | none => taskMapViaCopy host t vmOffset len readOnly
    | some addr =>
      let t := t.call host.munmap ⟨.munmap, vmOffset, len⟩
      if host.munmap = false then (t, false)
      else
        let t := t.call host.mremap ⟨.mremap addr, vmOffset, len⟩
        if host.mremap then (t.call host.mprotect ⟨.mprotect, vmOffset, len⟩, true)
        else
          let t := t.call host.mmapNone ⟨.mmapNone, vmOffset, len⟩
          if host.mmapNone = false then (t, false)
          else taskMapViaCopy host t vmOffset len readOnly

def taskUnmap (host : HostCalls) (t : TaskVm) (vmOffset len : Nat) : TaskVm × Bool :=
  if t.refuses vmOffset len then (t, false)
  else (t.call host.mmapNone ⟨.mmapNone, vmOffset, len⟩, host.mmapNone)

/-- A request of either function. -/
inductive TaskRequest where
  | map (hostAddr : Option Nat) (readOnly : Bool)
  | unmap
deriving DecidableEq, Repr

def serveTask (host : HostCalls) (t : TaskVm) (vmOffset len : Nat) : TaskRequest → TaskVm × Bool
  | .map hostAddr readOnly => taskMapHostMemory host t vmOffset hostAddr len readOnly
  | .unmap => taskUnmap host t vmOffset len

section confined
variable (host : HostCalls) (t : TaskVm) (vmOffset len : Nat)

/-- The calls behind `before` are on the range asked for. -/
def OnRange (before calls : List MapCall) : Prop :=
  ∃ new, calls = before++new ∧ ∀ c ∈ new, c.off = vmOffset ∧ c.len = len

theorem onRange_refl (calls : List MapCall) : OnRange vmOffset len calls calls :=
  ⟨[], (List.append_nil _).symm, List.forall_mem_nil _⟩

variable {t vmOffset len}

theorem OnRange.call {before : List MapCall} (h : OnRange vmOffset len before t.calls) (ok : Bool)
    (action : MapAction) :
    OnRange vmOffset len before (t.call ok ⟨action, vmOffset, len⟩).calls := by
  obtain ⟨new, hnew, hall⟩ := h
  refine ⟨new++[⟨action, vmOffset, len⟩], ?_, ?_⟩
  · rw [TaskVm.call, hnew, List.append_assoc]
  · rw [List.forall_mem_append]
    exact ⟨hall, List.forall_mem_singleton.2 ⟨rfl, rfl⟩⟩

theorem OnRange.viaCopy {before : List MapCall} (h : OnRange vmOffset len before t.calls)
    (readOnly : Bool) :
    OnRange vmOffset len before (taskMapViaCopy host t vmOffset len readOnly).1.calls := by
  have h1 : OnRange vmOffset len before { t with memfd := true }.calls := h
  rw [taskMapViaCopy]
  split_ifs
  · exact h
  · exact h1.call _ _
  · exact (h1.call _ _).call _ _
  · exact h1.call _ _

/-- Whatever is asked of the host is asked on the range of the request. -/
theorem serveTask_onRange (r : TaskRequest) :
    OnRange vmOffset len t.calls (serveTask host t vmOffset len r).1.calls := by
  have h0 := onRange_refl vmOffset len t.calls
  cases r with
  | unmap =>
    rw [serveTask, taskUnmap]
    split_ifs
    · exact h0
    · exact h0.call _ _
  | map hostAddr readOnly =>
    rw [serveTask]
    simp only [taskMapHostMemory]
    by_cases href : t.refuses vmOffset len
    · rw [if_pos href]
      exact h0
    · rw [if_neg href]
      cases hostAddr with
      | none => exact h0.viaCopy host readOnly
      | some addr =>
        have h1 := h0.call host.munmap .munmap
        have h2 := h1.call host.mremap (.mremap addr)
        have h3 := h2.call host.mmapNone .mmapNone
        dsimp only
        split_ifs
        · exact h1
        · exact h2.call _ _
        · exact h3
        · exact h3.viaCopy host readOnly

/-- Where every call of the host succeeds, a request that is not refused does. -/
theorem serveTask_succeeds (r : TaskRequest) (h : ¬t.refuses vmOffset len) :
    (serveTask {} t vmOffset len r).2 = true := by
  cases r with
  | unmap => rw [serveTask, taskUnmap, if_neg h]
  | map hostAddr readOnly =>
    rw [serveTask]
    simp only [taskMapHostMemory, if_neg h]
    cases hostAddr with
    | some addr => rfl
    | none =>
      rw [taskMapViaCopy, if_neg (by simp)]
      cases readOnly with
      | true => rfl
      | false => rfl

theorem serveTask_refused (r : TaskRequest) (h : t.refuses vmOffset len) :
    serveTask host t vmOffset len r = (t, false) := by
  cases r with
  | unmap => rw [serveTask, taskUnmap, if_pos h]
  | map hostAddr readOnly =>
    rw [serveTask]
    simp only [taskMapHostMemory, if_pos h]

end confined

/-- Calls are made inside the reservation only, and a range that is not inside is refused
without a call. -/
def Confined (t : TaskVm) (vmOffset len : Nat) (result : TaskVm × Bool) : Prop :=
  (∀ new, result.1.calls = t.calls++new → ∀ c ∈ new, c.off+c.len ≤ t.reservedSize) ∧
    (t.reservedSize < vmOffset+len → result = (t, false))

/-- The end of the range is a word, or wraps to one that is still outside, or the range is
empty. -/
def EndFits (t : TaskVm) (vmOffset len : Nat) : Prop :=
  vmOffset+len < 2^64 ∨ t.reservedSize < u64 (vmOffset+len) ∨ len = 0

theorem task_calls_confined_iff (t : TaskVm) (r : TaskRequest) (vmOffset len : Nat) :
    (∀ host, Confined t vmOffset len (serveTask host t vmOffset len r)) ↔
      EndFits t vmOffset len := by
  constructor
  · intro h
    by_cases href : t.refuses vmOffset len
    · exact .inr href
    · refine .inl ?_
      by_contra hover
      -- the reservation ends below 2^64, so the range is outside, and yet it was served
      have hout : t.reservedSize < vmOffset+len := by have := t.reservedSize_lt; omega
      have hserved := serveTask_succeeds r href
      rw [(h {}).2 hout] at hserved
      cases hserved
  · intro h host
    by_cases href : t.refuses vmOffset len
    · rw [serveTask_refused host r href]
      refine ⟨?_, fun _ => rfl⟩
      intro new hnew c hc
      rw [List.self_eq_append_right.1 hnew] at hc
      cases hc
    · have hword : vmOffset+len < 2^64 := h.resolve_right href
      have hin : vmOffset+len ≤ t.reservedSize := by
        rw [TaskVm.refuses, not_or, u64, Nat.mod_eq_of_lt hword] at href
        exact Nat.not_lt.1 href.1
      refine ⟨?_, fun hout => absurd hin (Nat.not_le.2 hout)⟩
      intro new hnew c hc
      obtain ⟨made, hmade, hall⟩ := serveTask_onRange host (t := t) r
      rw [hnew, List.append_cancel_left_eq] at hmade
      obtain ⟨hoff, hlen⟩ := hall c (hmade ▸ hc)
      rw [hoff, hlen]
      exact hin

/-- A range that starts a page below the reservation and ends in it: the first call unmaps it. -/
theorem task_calls_below_base :
    ⟨.munmap, 2^64-4096, 8192⟩ ∈
      (serveTask {} { reservedSize := 65536 } (2^64-4096) 8192 (.map (some 0) false)).1.calls ∧
    ¬Confined { reservedSize := 65536 } (2^64-4096) 8192
      (serveTask {} { reservedSize := 65536 } (2^64-4096) 8192 (.map (some 0) false)) := by
  have hserved : (serveTask {} { reservedSize := 65536 } (2^64-4096) 8192
      (.map (some 0) false)).2 = true := serveTask_succeeds _ (by decide)
  refine ⟨by decide, ?_⟩
  intro h
  rw [h.2 (by decide)] at hserved
  cases hserved

/- What is left behind: the range mapped one way, and the pages off it as they were. -/
section failure
variable {t t' : TaskVm} {vmOffset len : Nat} {m m' : Nat → PageMapping}

/-- The pages of the reservation. -/
def TaskVm.Page (t : TaskVm) (p : Nat) : Prop := p*hostPageBytes < t.reservedSize

def TaskVm.Kept (t t' : TaskVm) : Prop := ∀ p, t.Page p → t'.pages p = t.pages p

/-- The pages of the range that the reservation has are mapped so. -/
def TaskVm.RangeIs (t : TaskVm) (vmOffset len : Nat) (m : Nat → PageMapping) : Prop :=
  ∀ p, t.Page p → rangeTouches vmOffset len p → t.pages p = m p

/-- `t` with the range mapped so. -/
def Remapped (t t' : TaskVm) (vmOffset len : Nat) (m : Nat → PageMapping) : Prop :=
  ∀ p, t'.pages p = if rangeTouches vmOffset len p then m p else t.pages p

theorem Remapped.kept_iff (h : Remapped t t' vmOffset len m) :
    t.Kept t' ↔ t.RangeIs vmOffset len m := by
  constructor
  · intro hk p hp ht
    rw [← hk p hp, h p, if_pos ht]
  · intro hr p hp
    rw [h p]
    split_ifs with ht
    · exact (hr p hp ht).symm
    · rfl

theorem Remapped.of_pages_eq {t'' : TaskVm} (h : Remapped t t' vmOffset len m)
    (hp : t''.pages = t'.pages) : Remapped t t'' vmOffset len m := by
  intro p
  rw [hp]
  exact h p

theorem remapped_call {action : MapAction}
    (h : ∀ p, rangeTouches vmOffset len p →
      (MapCall.mapping ⟨action, vmOffset, len⟩ p) = some (m p)) :
    Remapped t (t.call true ⟨action, vmOffset, len⟩) vmOffset len m := by
  intro p
  change ((MapCall.mapping ⟨action, vmOffset, len⟩ p).getD (t.pages p)) = _
  split_ifs with ht
  · rw [h p ht]
    rfl
  · rw [MapCall.mapping, if_neg ht]
    rfl

/-- A second mapping of the range covers the first. -/
theorem Remapped.trans {t'' : TaskVm} (h : Remapped t t' vmOffset len m)
    (h' : Remapped t' t'' vmOffset len m') : Remapped t t'' vmOffset len m' := by
  intro p
  rw [h' p, h p]
  split_ifs
  · rfl
  · rfl

/-- How a copy ends: before its mapping, with the protection not applied, or well. -/
inductive CopyEnd where
  | stopped | unprotected | done
deriving DecidableEq, Repr

def copyEnd (host : HostCalls) (memfd readOnly : Bool) : CopyEnd :=
  if (memfd = false ∧ host.memfdCreate = false) ∨ host.mmapMemfd = false then .stopped
  else if readOnly = true ∧ host.mprotect = false then .unprotected
  else .done

theorem taskMapViaCopy_end (host : HostCalls) (t : TaskVm) (vmOffset len : Nat)
    (readOnly : Bool) :
    (copyEnd host t.memfd readOnly = .stopped ∧
      (taskMapViaCopy host t vmOffset len readOnly).2 = false ∧
      (taskMapViaCopy host t vmOffset len readOnly).1.pages = t.pages) ∨
    (copyEnd host t.memfd readOnly = .unprotected ∧
      (taskMapViaCopy host t vmOffset len readOnly).2 = false ∧
      Remapped t (taskMapViaCopy host t vmOffset len readOnly).1 vmOffset len .memfd) ∨
    (copyEnd host t.memfd readOnly = .done ∧
      (taskMapViaCopy host t vmOffset len readOnly).2 = true) := by
  by_cases hfd : t.memfd = false ∧ host.memfdCreate = false
  · have hrun : taskMapViaCopy host t vmOffset len readOnly = (t, false) := if_pos hfd
    rw [hrun]
    exact .inl ⟨if_pos (.inl hfd), rfl, rfl⟩
  by_cases hmap : host.mmapMemfd = false
  · have hrun : taskMapViaCopy host t vmOffset len readOnly =
        ({ t with memfd := true }.call false ⟨.mmapMemfd, vmOffset, len⟩, false) := by
      simp [taskMapViaCopy, if_neg hfd, hmap]
    rw [hrun]
    exact .inl ⟨if_pos (.inr hmap), rfl, rfl⟩
  have hend : copyEnd host t.memfd readOnly =
      if readOnly = true ∧ host.mprotect = false then .unprotected else .done :=
    if_neg (not_or.2 ⟨hfd, hmap⟩)
  have hmapped : host.mmapMemfd = true := eq_true_of_ne_false hmap
  cases readOnly with
  | false => exact .inr (.inr ⟨hend, by simp [taskMapViaCopy, if_neg hfd, hmapped]⟩)
  | true =>
    cases hprot : host.mprotect with
    | true =>
      exact .inr (.inr ⟨hend.trans (if_neg (by simp [hprot])),
        by simp [taskMapViaCopy, if_neg hfd, hmapped, hprot]⟩)
    | false =>
      have hrun : taskMapViaCopy host t vmOffset len true =
          (({ t with memfd := true }.call true ⟨.mmapMemfd, vmOffset, len⟩).call false
            ⟨.mprotect, vmOffset, len⟩, false) := by
        simp [taskMapViaCopy, if_neg hfd, hmapped, hprot]
      have hre : Remapped t ({ t with memfd := true }.call true ⟨.mmapMemfd, vmOffset, len⟩)
          vmOffset len .memfd :=
        remapped_call (t := { t with memfd := true }) fun p ht => if_pos ht
      rw [hrun]
      exact .inr (.inl ⟨hend.trans (if_pos ⟨rfl, hprot⟩), rfl, hre.of_pages_eq rfl⟩)

/-- A copy onto a range that `t` did not have leaves `t` alone where it is what `t` had. -/
theorem Remapped.copy_keeps_iff (h : Remapped t t' vmOffset len m) (host : HostCalls)
    (readOnly : Bool) :
    ((taskMapViaCopy host t' vmOffset len readOnly).2 = false →
        t.Kept (taskMapViaCopy host t' vmOffset len readOnly).1) ↔
      match copyEnd host t'.memfd readOnly with
      | .stopped => t.RangeIs vmOffset len m
      | .unprotected => t.RangeIs vmOffset len .memfd
      | .done => True := by
  obtain ⟨hend, hres, hp⟩ | ⟨hend, hres, hre⟩ | ⟨hend, hres⟩ :=
    taskMapViaCopy_end host t' vmOffset len readOnly
  · rw [hend, hres, imp_iff_right rfl]
    exact (h.of_pages_eq hp).kept_iff
  · rw [hend, hres, imp_iff_right rfl]
    exact (h.trans hre).kept_iff
  · rw [hend, hres]
    exact iff_of_true (fun h => by cases h) trivial

/-- The failing branches that find the range as they leave it. -/
def FailureKeeps (host : HostCalls) (t : TaskVm) (vmOffset : Nat) (hostAddr : Option Nat)
    (len : Nat) (readOnly : Bool) : Prop :=
  t.refuses vmOffset len ∨
    match hostAddr with
    | none =>
      copyEnd host t.memfd readOnly = .unprotected → t.RangeIs vmOffset len .memfd
    | some _ =>
      host.munmap = true → host.mremap = false →
        if host.mmapNone = false then t.RangeIs vmOffset len fun _ => .hole
        else
          match copyEnd host t.memfd readOnly with
          | .stopped => t.RangeIs vmOffset len fun _ => .protNone
          | .unprotected => t.RangeIs vmOffset len .memfd
          | .done => True

theorem failed_map_keeps_iff (host : HostCalls) (t : TaskVm) (vmOffset : Nat)
    (hostAddr : Option Nat) (len : Nat) (readOnly : Bool) :
    ((taskMapHostMemory host t vmOffset hostAddr len readOnly).2 = false →
        t.Kept (taskMapHostMemory host t vmOffset hostAddr len readOnly).1) ↔
      FailureKeeps host t vmOffset hostAddr len readOnly := by
  have hself : t.Kept t := fun _ _ => rfl
  simp only [FailureKeeps, taskMapHostMemory]
  by_cases href : t.refuses vmOffset len
  · rw [if_pos href]
    exact iff_of_true (fun _ => hself) (.inl href)
  rw [if_neg href, or_iff_right href]
  cases hostAddr with
  | none =>
    dsimp only
    obtain ⟨hend, hres, hp⟩ | ⟨hend, hres, hre⟩ | ⟨hend, hres⟩ :=
      taskMapViaCopy_end host t vmOffset len readOnly
    · have hk : t.Kept (taskMapViaCopy host t vmOffset len readOnly).1 :=
        fun p _ => congrFun hp p
      simp [hend, hk]
    · simp only [hend, hres, true_imp_iff]
      exact hre.kept_iff
    · simp [hend, hres]
  | some addr =>
    dsimp only
    cases hun : host.munmap with
    | false =>
      have hk : t.Kept (t.call false ⟨.munmap, vmOffset, len⟩) := hself
      simp [hk]
    | true =>
      cases hmv : host.mremap with
      | true => simp
      | false =>
        have hhole : Remapped t (t.call true ⟨.munmap, vmOffset, len⟩) vmOffset len
            fun _ => .hole := remapped_call fun p ht => if_pos ht
        cases hno : host.mmapNone with
        | false =>
          simp only [Bool.true_eq_false, Bool.false_eq_true, if_false, if_true, true_imp_iff]
          exact (hhole.of_pages_eq rfl).kept_iff
        | true =>
          simp only [Bool.true_eq_false, Bool.false_eq_true, if_false, true_imp_iff]
          have hnone : ∀ u : TaskVm, Remapped u (u.call true ⟨.mmapNone, vmOffset, len⟩)
              vmOffset len fun _ => .protNone := fun u => remapped_call fun p ht => if_pos ht
          have hmoved : Remapped t ((t.call true ⟨.munmap, vmOffset, len⟩).call false
              ⟨.mremap addr, vmOffset, len⟩) vmOffset len fun _ => .hole :=
            hhole.of_pages_eq rfl
          exact (hmoved.trans (hnone _)).copy_keeps_iff host readOnly

/-- Page 0 shared page 7 of the host. The alias to page 9 fails, and so do the copy for want
of a memfd, or the restore before it: page 0 is lost, or a hole is left. -/
theorem failed_map_loses_range :
    ((taskMapHostMemory { mremap := false, memfdCreate := false }
        { reservedSize := 65536, pages := fun _ => .hostPage 7 } 0 (some 36864) 4096 false).2 =
          false ∧
      (taskMapHostMemory { mremap := false, memfdCreate := false }
        { reservedSize := 65536, pages := fun _ => .hostPage 7 } 0 (some 36864) 4096
          false).1.pages 0 = .protNone) ∧
    (taskMapHostMemory { mremap := false, mmapNone := false }
        { reservedSize := 65536, pages := fun _ => .hostPage 7 } 0 (some 36864) 4096 false).2 =
          false ∧
      (taskMapHostMemory { mremap := false, mmapNone := false }
        { reservedSize := 65536, pages := fun _ => .hostPage 7 } 0 (some 36864) 4096
          false).1.pages 0 = .hole := by
  decide

end failure

end Lagfx
