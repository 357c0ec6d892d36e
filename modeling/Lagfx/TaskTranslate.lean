import Mathlib.Tactic.Ring
import Mathlib.Tactic.GCongr
import Lagfx.State

/-! The per-task radix walk `lagfx_task_translate` and the page-walked read
`lagfx_task_read_virtual`. -/
namespace Lagfx
open ByteMemory

def pageBytes : Nat := 4096

/- One node of the walk; `level` interior levels are left above the leaf. A PTE
   with bit 31 set at an interior level ends the walk early, its data page
   covering all the address bits not used up yet. -/
def radixWalk (s : State) (devAddr : Nat) : Nat → Nat → Option Nat
  | 0, nodePfn =>
    match s.readMemory (nodePfn*2^12+devAddr/2^12%1024*4) 4 with
    | none => none
    | some b =>
      let pte := le32 b 0
      if pte = 0 then none
      else some (pte%2^31*2^12 ||| devAddr%2^12)
  | level+1, nodePfn =>
    let shift := (level+1)*10
    match s.readMemory (nodePfn*2^12+devAddr/2^12/2^shift%1024*4) 4 with
    | none => none
    | some b =>
      let pte := le32 b 0
      if pte = 0 then none
      else if 2^31 ≤ pte then some (pte%2^31*2^12 ||| devAddr%2^(shift+12))
      else radixWalk s devAddr level (pte%2^31)

def taskTranslate (s : State) (task : TaskEntry) (devAddr : Nat) : Option Nat :=
  if task.rootPagePfn = 0 then none
  else
    match s.readMemory (task.rootPagePfn*2^12) 8 with
    | none => none
    | some header =>
      let l1Pfn := le32 header 0
      let levels := le32 header 4
      if l1Pfn = 0 ∨ levels = 0 ∨ 4 < levels then none
      else radixWalk s devAddr (levels-1) l1Pfn

/- The chunk loop. Each round reads up to the next page boundary, so as many
   rounds as bytes are always enough. -/
def readVirtualChunks (s : State) (task : TaskEntry) : Nat → Nat → Nat → Option (List UInt8)
  | 0, _, _ => some []
  | rounds+1, va, len =>
    if len = 0 then some []
    else
      let chunk := min (pageBytes-va%pageBytes) len
      match taskTranslate s task va with
      | none => none
      | some gpa =>
        match s.readMemory gpa chunk with
        | none => none
        | some b =>
          (readVirtualChunks s task rounds (u64 (va+chunk)) (len-chunk)).map (b++·)

def taskReadVirtual (s : State) (task : TaskEntry) (va len : Nat) : Option (List UInt8) :=
  readVirtualChunks s task len va len

/-- A page offset goes through `|` as it would through `+`. -/
theorem or_add_offset (x y : Nat) {off : Nat} (ho : off < 2^12) :
    (x*2^12 ||| (y*2^12+off)) = (x*2^12 ||| y*2^12)+off := by
  have h1 : y*2^12+off = y*2^12 ||| off := by
    rw [Nat.mul_comm]
    exact Nat.two_pow_add_eq_or_of_lt ho y
  have h2 : x*2^12 ||| y*2^12 = 2^12*(x ||| y) := by
    rw [Nat.mul_comm (2^12), ← Nat.shiftLeft_eq, ← Nat.shiftLeft_eq, ← Nat.shiftLeft_eq,
      Nat.shiftLeft_or_distrib]
  rw [h1, ← Nat.or_assoc, h2, ← Nat.two_pow_add_eq_or_of_lt ho]

theorem page_add_mod (p k : Nat) {off : Nat} (ho : off < 2^12) :
    (p*2^12+off)%2^(k+12) = p%2^k*2^12+off := by
  have h2 : p*2^12+off = 2^(k+12)*(p/2^k)+(p%2^k*2^12+off) := by
    conv_lhs => rw [← Nat.div_add_mod p (2^k)]
    rw [pow_add]
    ring
  have hlt : p%2^k < 2^k := Nat.mod_lt _ (by positivity)
  rw [h2, Nat.mul_add_mod, Nat.mod_eq_of_lt]
  calc p%2^k*2^12+off < p%2^k*2^12+2^12 := by omega
    _ = (p%2^k+1)*2^12 := by ring
    _ ≤ 2^k*2^12 := by gcongr; omega
    _ = 2^(k+12) := by rw [pow_add]

theorem or_page_offset (x p k : Nat) {off : Nat} (ho : off < 2^12) :
    (x*2^12 ||| (p*2^12+off)%2^(k+12)) = (x*2^12 ||| p*2^12%2^(k+12))+off := by
  have h0 := @page_add_mod p k 0 (by norm_num)
  rw [Nat.add_zero] at h0
  rw [page_add_mod p k ho, or_add_offset _ _ ho, h0, Nat.add_zero]

/-- The walk looks at the page number only. -/
theorem radixWalk_offset (s : State) (p : Nat) {off : Nat} (ho : off < 2^12)
    (level nodePfn : Nat) : radixWalk s (p*2^12+off) level nodePfn =
      (radixWalk s (p*2^12) level nodePfn).map (·+off) := by
  have hdiv : (p*2^12+off)/2^12 = p*2^12/2^12 := by omega
  induction level generalizing nodePfn with
  | zero =>
    simp only [radixWalk, hdiv]
    cases s.readMemory (nodePfn*2^12+p*2^12/2^12%1024*4) 4 with
    | none => rfl
    | some b =>
      dsimp only
      by_cases hz : le32 b 0 = 0
      · rw [if_pos hz, if_pos hz]
        rfl
      · rw [if_neg hz, if_neg hz]
        have hor := or_page_offset (le32 b 0%2^31) p 0 ho
        rw [Nat.zero_add] at hor
        exact congrArg some hor
  | succ level ih =>
    simp only [radixWalk, hdiv]
    cases s.readMemory (nodePfn*2^12+p*2^12/2^12/2^((level+1)*10)%1024*4) 4 with
    | none => rfl
    | some b =>
      dsimp only
      by_cases hz : le32 b 0 = 0
      · rw [if_pos hz, if_pos hz]
        rfl
      rw [if_neg hz, if_neg hz]
      by_cases hl : 2^31 ≤ le32 b 0
      · rw [if_pos hl, if_pos hl]
        exact congrArg some (or_page_offset (le32 b 0%2^31) p ((level+1)*10) ho)
      · rw [if_neg hl, if_neg hl]
        exact ih (le32 b 0%2^31)

/-- Within a page, translation is an offset from the page's first byte. -/
theorem taskTranslate_offset (s : State) (task : TaskEntry) (p : Nat) {off : Nat}
    (ho : off < 2^12) : taskTranslate s task (p*2^12+off) =
      (taskTranslate s task (p*2^12)).map (·+off) := by
  simp only [taskTranslate]
  by_cases hr : task.rootPagePfn = 0
  · simp [hr]
  simp only [hr, if_false]
  cases s.readMemory (task.rootPagePfn*2^12) 8 with
  | none => rfl
  | some header =>
    dsimp only
    split_ifs
    · rfl
    · exact radixWalk_offset s p ho _ _

/-- The next bytes of the same page are the next bytes in memory. -/
theorem taskTranslate_in_page (s : State) (task : TaskEntry) {va j : Nat} (hv : va < 2^64)
    (h : va%pageBytes+j < pageBytes) :
    taskTranslate s task (u64 (va+j)) = (taskTranslate s task va).map (·+j) := by
  simp only [pageBytes] at h
  have hva : va = va/2^12*2^12+va%2^12 := by omega
  have hvj : u64 (va+j) = va/2^12*2^12+(va%2^12+j) := by
    have hlt : va+j < 2^64 := by omega
    rw [u64, Nat.mod_eq_of_lt hlt]
    omega
  rw [hvj, taskTranslate_offset s task _ (by omega)]
  conv_rhs => rw [hva, taskTranslate_offset s task _ (by omega)]
  cases taskTranslate s task (va/2^12*2^12) with
  | none => rfl
  | some g => simp [Nat.add_assoc]

theorem or_mod_page (x y k : Nat) : (x*2^12 ||| y%2^(k+12))%2^12 = y%2^12 := by
  rw [Nat.or_mod_two_pow, Nat.mul_mod_left, Nat.zero_or, Nat.add_comm, pow_add,
    Nat.mod_mul_right_mod]

theorem radixWalk_mod {s : State} {devAddr gpa : Nat} (level nodePfn : Nat)
    (h : radixWalk s devAddr level nodePfn = some gpa) : gpa%2^12 = devAddr%2^12 := by
  induction level generalizing nodePfn with
  | zero =>
    simp only [radixWalk] at h
    split at h
    · simp at h
    · split_ifs at h
      rw [← Option.some.inj h]
      exact or_mod_page _ devAddr 0
  | succ level ih =>
    simp only [radixWalk] at h
    split at h
    · simp at h
    · split_ifs at h
      · rw [← Option.some.inj h]
        exact or_mod_page _ devAddr ((level+1)*10)
      · exact ih _ h

/-- Translation keeps the offset in the page. -/
theorem taskTranslate_mod {s : State} {task : TaskEntry} {va gpa : Nat}
    (h : taskTranslate s task va = some gpa) : gpa%2^12 = va%2^12 := by
  rw [taskTranslate] at h
  split_ifs at h
  split at h
  · simp at h
  · dsimp only at h
    split_ifs at h
    exact radixWalk_mod _ _ h

/- Address `va` and the `n-1` bytes behind it are mapped to consecutive physical
   addresses, so one translation and one flat read find all of them. -/
def Gapless (s : State) (task : TaskEntry) (va n : Nat) : Prop :=
  ∀ i < n, taskTranslate s task (u64 (va+i)) = (taskTranslate s task va).map (·+i)

/-- A DMA read that succeeds on a range succeeds on every part of it. -/
def ReadsSplit (s : State) : Prop :=
  ∀ gpa n gpa' n', s.readOk gpa n = true → gpa ≤ gpa' → gpa'+n' ≤ gpa+n → s.readOk gpa' n' = true

theorem readMemory_part {s : State} (hs : ReadsSplit s) {gpa n i k : Nat} {b : List UInt8}
    (h : s.readMemory gpa n = some b) (hik : i+k ≤ n) :
    s.readMemory (gpa+i) k = some (window b i k) := by
  rw [State.readMemory] at h ⊢
  split_ifs at h with hok
  obtain rfl := Option.some.inj h
  rw [if_pos (hs gpa n (gpa+i) k hok (by omega) (by omega)), window_read _ _ _ _ _ hik]

theorem readMemory_some {s : State} {gpa n : Nat} {b : List UInt8}
    (h : s.readMemory gpa n = some b) : b = read s.mem gpa n := by
  rw [State.readMemory] at h
  split_ifs at h
  exact (Option.some.inj h).symm

theorem readMemory_length {s : State} {gpa n : Nat} {b : List UInt8}
    (h : s.readMemory gpa n = some b) : b.length = n := by
  rw [readMemory_some h]
  exact read_length _ _ _

theorem Gapless.tail {s : State} {task : TaskEntry} {va n c gpa : Nat} (h : Gapless s task va n)
    (ht : taskTranslate s task va = some gpa) (hc : c < n) :
    taskTranslate s task (u64 (va+c)) = some (gpa+c) ∧ Gapless s task (u64 (va+c)) (n-c) := by
  have htc : taskTranslate s task (u64 (va+c)) = some (gpa+c) := by
    rw [h c hc, ht]
    rfl
  refine ⟨htc, ?_⟩
  intro i hi
  have hu : u64 (u64 (va+c)+i) = u64 (va+(c+i)) := by
    simp only [u64]
    omega
  rw [hu, h (c+i) (by omega), ht, htc]
  simp [Nat.add_assoc]

/-- On a gapless record the page-walked read returns what one flat read does. -/
theorem readVirtualChunks_gapless {s : State} (hs : ReadsSplit s) (task : TaskEntry) :
    ∀ (rounds va n gpa : Nat) (b : List UInt8), n ≤ rounds → Gapless s task va n →
      taskTranslate s task va = some gpa → s.readMemory gpa n = some b →
        readVirtualChunks s task rounds va n = some b := by
  intro rounds
  induction rounds with
  | zero =>
    intro va n gpa b hn _ _ hr
    obtain rfl : n = 0 := by omega
    have hb : b = [] := List.length_eq_zero_iff.mp (readMemory_length hr)
    simp [readVirtualChunks, hb]
  | succ rounds ih =>
    intro va n gpa b hn hg ht hr
    by_cases h0 : n = 0
    · subst h0
      have hb : b = [] := List.length_eq_zero_iff.mp (readMemory_length hr)
      simp [readVirtualChunks, hb]
    have hlen : b.length = n := readMemory_length hr
    have hroom : 0 < min (pageBytes-va%pageBytes) n := by
      simp only [pageBytes]
      omega
    generalize hc : min (pageBytes-va%pageBytes) n = c at hroom
    have hcn : c ≤ n := by omega
    have hfirst := readMemory_part hs hr (show 0+c ≤ n by omega)
    rw [Nat.add_zero] at hfirst
    simp only [readVirtualChunks, h0, if_false, ht, hc, hfirst]
    by_cases he : c = n
    · subst he
      have hrest : readVirtualChunks s task rounds (u64 (va+c)) (c-c) = some [] := by
        cases rounds <;> simp [readVirtualChunks]
      rw [hrest]
      simp [window, ← hlen]
    · obtain ⟨ht', hg'⟩ := hg.tail ht (show c < n by omega)
      have hsecond := readMemory_part hs hr (show c+(n-c) ≤ n by omega)
      rw [ih _ _ _ _ (by omega) hg' ht' hsecond]
      have hall : (b.drop c).take (n-c) = b.drop c := List.take_of_length_le (by simp [hlen])
      simp only [window, List.drop_zero, hall, Option.map_some, List.take_append_drop]

/-- A read that stays in one page is one translation and one flat read. -/
theorem taskReadVirtual_one_page (s : State) (task : TaskEntry) {va n : Nat} (hn : 0 < n)
    (h : va%pageBytes+n ≤ pageBytes) : taskReadVirtual s task va n =
      (taskTranslate s task va).bind (fun gpa => s.readMemory gpa n) := by
  obtain ⟨k, rfl⟩ : ∃ k, n = k+1 := ⟨n-1, by omega⟩
  have hc : min (pageBytes-va%pageBytes) (k+1) = k+1 := by omega
  have hrest : readVirtualChunks s task k (u64 (va+(k+1))) 0 = some [] := by
    cases k <;> simp [readVirtualChunks]
  simp only [taskReadVirtual, readVirtualChunks, hc, Nat.sub_self, hrest]
  cases taskTranslate s task va with
  | none => rfl
  | some gpa => cases hr : s.readMemory gpa (k+1) <;> simp [hr]

/- One flat read is enough for this record: it lies in one page, or the pages it
   spans are neighbours in physical memory too. -/
def FlatReadable (s : State) (task : TaskEntry) (va n : Nat) : Prop :=
  va%pageBytes+n ≤ pageBytes ∨ (ReadsSplit s ∧ Gapless s task va n)

theorem taskReadVirtual_flat {s : State} {task : TaskEntry} {va n gpa : Nat} {b : List UInt8}
    (hn : 0 < n) (hf : FlatReadable s task va n) (ht : taskTranslate s task va = some gpa)
    (hr : s.readMemory gpa n = some b) : taskReadVirtual s task va n = some b := by
  obtain hp | ⟨hs, hg⟩ := hf
  · rw [taskReadVirtual_one_page s task hn hp, ht]
    exact hr
  · exact readVirtualChunks_gapless hs task n va n gpa b le_rfl hg ht hr

end Lagfx
