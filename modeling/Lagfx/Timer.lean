import Lagfx.Lib.Runs
import Lagfx.Display

/-! The vblank timer: a tick looks for displays the guest has just enabled, posts
their online event in the shared page and raises the interrupt. -/
namespace Lagfx
open ByteMemory Runs

/-- The timer's own LAGFX_MAX_DISPLAYS. -/
def timerMaxDisplays : Nat := 8

/- `ssEnabled` is display_ss_enabled, `raiseInterrupt` whether the shell has the
   callback. `online` records the pages a tick posted the event to, with the
   interrupt raised, and the display it did so for. -/
structure TimerState where
  state : State
  ssEnabled : Nat := 0
  raiseInterrupt : Bool := true
  online : List (Nat × Nat) := []

def TimerState.ssGpa (t : TimerState) (i : Nat) : Nat := t.state.world.displaySsGpa i

/-- ss[+0x104], 0xC once enable() has completed in the guest. -/
def TimerState.enableFlag (t : TimerState) (i : Nat) : Nat :=
  le32 (read t.state.mem (t.ssGpa i+0x104) 4) 0

/- One display of one tick, with the pages written so far. `readOk` and `writeOk`
   are the outcomes of its two transfers. -/
def tickDisplay (readOk writeOk : Nat → Bool) (p : TimerState × List (Nat × Nat)) (i : Nat) :
    TimerState × List (Nat × Nat) :=
  let t := p.1
  if t.ssGpa i = 0 ∨ t.state.world.displaySsInstalled.testBit i = false then p
  else if readOk i = false then p
  else if t.enableFlag i = 0xC ∧ t.ssEnabled.testBit i = false then
    let mem := if writeOk i then write t.state.mem (t.ssGpa i+0x100) (putLe 4 0x4) else t.state.mem
    let written := if writeOk i then p.2++[(i, t.ssGpa i)] else p.2
    -- marked as enabled whether or not the write went through
    ({ t with state := { t.state with mem := mem }, ssEnabled := t.ssEnabled ||| 1 <<< i }, written)
  else p

/-- The new state, and whether the interrupt was due. -/
def timerTickVblank (readOk writeOk : Nat → Bool) (t : TimerState) : TimerState × Bool :=
  let r := (List.range timerMaxDisplays).foldl (tickDisplay readOk writeOk) (t, [])
  let irqRaised := !r.2.isEmpty
  ({ r.1 with
      online := if irqRaised ∧ t.raiseInterrupt = true then r.1.online++r.2 else r.1.online },
    irqRaised)

inductive TimerEvent where
  | setup (hdr : CmdHeader) (writeOk : Bool)
  | guest (mem : Nat → UInt8)
  | tick (readOk writeOk : Nat → Bool)

def timerStep (t : TimerState) : TimerEvent → TimerState
  | .setup hdr ok =>
    { t with state := vchanSetupSharedState { t.state with writeOk := fun _ _ => ok } hdr }
  | .guest mem => { t with state := { t.state with mem := mem } }
  | .tick readOk writeOk => (timerTickVblank readOk writeOk t).1

/-- An enabled display has had its event posted in the page it now has. -/
def OnlinePosted (t : TimerState) : Prop :=
  ∀ i < timerMaxDisplays, t.ssEnabled.testBit i = true → (i, t.ssGpa i) ∈ t.online

/-- A tick that sees display `i` as just enabled. -/
def SeesEnabled (readOk : Nat → Bool) (t : TimerState) (i : Nat) : Prop :=
  t.ssGpa i ≠ 0 ∧ t.state.world.displaySsInstalled.testBit i = true ∧ readOk i = true ∧
    t.enableFlag i = 0xC ∧ t.ssEnabled.testBit i = false

/- A tick posts what it marks, and a display that is marked is not moved to a
   page that has had no event. -/
def TimerEvent.KeepsPosted (t : TimerState) : TimerEvent → Prop
  | .setup hdr _ => 8 ≤ hdr.payloadSize → hdr.word 4 ≠ 0 → hdr.word 0 < timerMaxDisplays →
      t.ssEnabled.testBit (hdr.word 0) = true → (hdr.word 0, hdr.word 4*2^12) ∈ t.online
  | .guest _ => True
  | .tick readOk writeOk => ∀ i < timerMaxDisplays, SeesEnabled readOk t i →
      (writeOk i = true ∧ t.raiseInterrupt = true) ∨ (i, t.ssGpa i) ∈ t.online

/-- Shared pages are whole pages. -/
def PagesAligned (t : TimerState) : Prop := ∀ i, 2^12 ∣ t.ssGpa i

theorem testBit_or_one_shift (m i j : Nat) :
    (m ||| 1 <<< i).testBit j = (m.testBit j || decide (i = j)) := by
  rw [Nat.testBit_or, Nat.one_shiftLeft, Nat.testBit_two_pow]

/- What the turn of display `i` does, by whether it is seen as just enabled. -/
theorem tickDisplay_cases (readOk writeOk : Nat → Bool) (t : TimerState) (ws : List (Nat × Nat))
    (i : Nat) :
    (¬ SeesEnabled readOk t i ∧ tickDisplay readOk writeOk (t, ws) i = (t, ws)) ∨
    (SeesEnabled readOk t i ∧ ∃ mem,
      (∀ x, x < t.ssGpa i+0x100 ∨ t.ssGpa i+0x104 ≤ x → mem x = t.state.mem x) ∧
      tickDisplay readOk writeOk (t, ws) i =
        ({ t with state := { t.state with mem := mem }, ssEnabled := t.ssEnabled ||| 1 <<< i },
          if writeOk i then ws++[(i, t.ssGpa i)] else ws)) := by
  simp only [tickDisplay, SeesEnabled]
  by_cases hg : t.ssGpa i = 0 ∨ t.state.world.displaySsInstalled.testBit i = false
  · refine Or.inl ⟨fun h => ?_, by simp [hg]⟩
    rcases hg with hg | hg
    · exact h.1 hg
    · simp [hg] at h
  obtain ⟨hg0, hinst⟩ := not_or.mp hg
  rw [Bool.not_eq_false] at hinst
  simp only [hg0, hinst, Bool.true_eq_false, or_self, if_false, not_false_eq_true, ne_eq, true_and]
  cases hr : readOk i with
  | false => exact Or.inl ⟨by simp, by simp⟩
  | true =>
    by_cases hf : t.enableFlag i = 0xC ∧ t.ssEnabled.testBit i = false
    · refine Or.inr ⟨⟨rfl, hf⟩, if writeOk i then
        write t.state.mem (t.ssGpa i+0x100) (putLe 4 0x4) else t.state.mem, ?_, by simp [hf]⟩
      intro x hx
      split_ifs
      · exact write_outside _ _ _ x (by simpa [putLe_length] using hx)
      · rfl
    · exact Or.inl ⟨fun h => hf h.2, by simp [hf]⟩

theorem sees_congr {readOk : Nat → Bool} {t t' : TimerState} {i : Nat}
    (hw : t'.state.world = t.state.world)
    (hm : ∀ x, t.ssGpa i+0x104 ≤ x → x < t.ssGpa i+0x108 → t'.state.mem x = t.state.mem x)
    (he : t'.ssEnabled.testBit i = t.ssEnabled.testBit i) :
    SeesEnabled readOk t' i ↔ SeesEnabled readOk t i := by
  have hg : t'.ssGpa i = t.ssGpa i := by rw [TimerState.ssGpa, hw, TimerState.ssGpa]
  have hf : t'.enableFlag i = t.enableFlag i := by
    rw [TimerState.enableFlag, TimerState.enableFlag, hg]
    congr 1
    exact read_congr fun x h1 h2 => hm x h1 (by omega)
  rw [SeesEnabled, SeesEnabled, hg, hf, he, hw]

/-- The displays `is` of a tick, each seen as it was at the start. -/
theorem tickDisplays_spec (readOk writeOk : Nat → Bool) (is : List Nat) (hnd : is.Nodup) :
    ∀ (t : TimerState) (ws : List (Nat × Nat)), PagesAligned t →
      let r := is.foldl (tickDisplay readOk writeOk) (t, ws)
      r.1.state.world = t.state.world ∧ r.1.online = t.online ∧
      (∀ j, r.1.ssEnabled.testBit j = true ↔
        t.ssEnabled.testBit j = true ∨ (j ∈ is ∧ SeesEnabled readOk t j)) ∧
      (∀ q, q ∈ r.2 ↔ q ∈ ws ∨
        (q.1 ∈ is ∧ SeesEnabled readOk t q.1 ∧ writeOk q.1 = true ∧ q.2 = t.ssGpa q.1)) := by
  induction is with
  | nil => intro t ws _; simp
  | cons i is ih =>
    intro t ws hal
    obtain ⟨hi, hnd⟩ := List.nodup_cons.mp hnd
    rw [List.foldl_cons]
    obtain ⟨hno, heq⟩ | ⟨hsee, mem, hmem, heq⟩ := tickDisplay_cases readOk writeOk t ws i
    · rw [heq]
      obtain ⟨hw, ho, he, hq⟩ := ih hnd t ws hal
      refine ⟨hw, ho, fun j => (he j).trans ?_, fun q => (hq q).trans ?_⟩
      · have hji : j = i → ¬ SeesEnabled readOk t j := fun h => h ▸ hno
        rw [List.mem_cons]
        tauto
      · have hqi : q.1 = i → ¬ SeesEnabled readOk t q.1 := fun h => h ▸ hno
        rw [List.mem_cons]
        tauto
    · rw [heq]
      -- the write in page `i` is clear of every other display's flag
      have hcongr : ∀ j ∈ is, (SeesEnabled readOk
          { t with state := { t.state with mem := mem }, ssEnabled := t.ssEnabled ||| 1 <<< i } j ↔
            SeesEnabled readOk t j) := by
        intro j hj
        have hij : i ≠ j := fun h => hi (h ▸ hj)
        refine sees_congr rfl (fun x h1 h2 => hmem x ?_) ?_
        · obtain ⟨a, ha⟩ := hal i
          obtain ⟨b, hb⟩ := hal j
          omega
        · rw [testBit_or_one_shift]
          simp [hij]
      obtain ⟨hw, ho, he, hq⟩ := ih hnd
        { t with state := { t.state with mem := mem }, ssEnabled := t.ssEnabled ||| 1 <<< i }
        (if writeOk i then ws++[(i, t.ssGpa i)] else ws) hal
      refine ⟨hw, ho, fun j => (he j).trans ?_, fun q => (hq q).trans ?_⟩
      · have hc := hcongr j
        rw [testBit_or_one_shift, Bool.or_eq_true, decide_eq_true_eq, List.mem_cons]
        constructor
        · rintro ((h | rfl) | ⟨hj, h⟩)
          · exact Or.inl h
          · exact Or.inr ⟨Or.inl rfl, hsee⟩
          · exact Or.inr ⟨Or.inr hj, (hc hj).mp h⟩
        · rintro (h | ⟨rfl | hj, h⟩)
          · exact Or.inl (Or.inl h)
          · exact Or.inl (Or.inr rfl)
          · exact Or.inr ⟨hj, (hc hj).mpr h⟩
      · have hc := hcongr q.1
        have hmem : q ∈ (if writeOk i then ws++[(i, t.ssGpa i)] else ws) ↔
            q ∈ ws ∨ (q.1 = i ∧ writeOk i = true ∧ q.2 = t.ssGpa i) := by
          cases hwr : writeOk i with
          | false => simp
          | true => simp [Prod.ext_iff]
        rw [hmem, List.mem_cons]
        constructor
        · rintro ((h | ⟨h1, h2, h3⟩) | ⟨hj, h⟩)
          · exact Or.inl h
          · exact Or.inr ⟨Or.inl h1, h1 ▸ hsee, h1 ▸ h2, by rw [h3, h1]⟩
          · exact Or.inr ⟨Or.inr hj, (hc hj).mp h.1, h.2⟩
        · rintro (h | ⟨hj | hj, h1, h2, h3⟩)
          · exact Or.inl (Or.inl h)
          · exact Or.inl (Or.inr ⟨hj, hj ▸ h2, by rw [h3, hj]⟩)
          · exact Or.inr ⟨hj, (hc hj).mpr h1, h2, h3⟩

/-- Where a setup command puts the shared page of each display. -/
theorem setup_ssGpa (t : TimerState) (hdr : CmdHeader) (ok : Bool) (i : Nat) :
    (timerStep t (.setup hdr ok)).ssGpa i =
      if 8 ≤ hdr.payloadSize ∧ hdr.word 4 ≠ 0 ∧ hdr.word 0 < 16 ∧ i = hdr.word 0
      then hdr.word 4*2^12 else t.ssGpa i := by
  simp only [timerStep, TimerState.ssGpa, vchanSetupSharedState]
  have hworld (s : State) (gpa : Nat) (bs : List UInt8) :
      (s.writeMemory gpa bs).world = s.world := by
    rw [State.writeMemory]
    split <;> rfl
  by_cases hs : hdr.payloadSize < 8
  · simp [hs, Nat.not_le.mpr hs]
  by_cases h0 : hdr.word 4 = 0
  · simp [hs, h0]
  by_cases h16 : hdr.word 0 < 16
  · simp [hs, h0, h16, hworld, Nat.not_lt.mp hs, Function.update_apply]
  · simp [hs, h0, h16, hworld]

theorem setup_posted_iff {t : TimerState} (h : OnlinePosted t) (hdr : CmdHeader) (ok : Bool) :
    OnlinePosted (timerStep t (.setup hdr ok)) ↔ TimerEvent.KeepsPosted t (.setup hdr ok) := by
  simp only [OnlinePosted, TimerEvent.KeepsPosted, setup_ssGpa]
  constructor
  · intro hp hs h0 h8 hb
    have h16 : hdr.word 0 < 16 := h8.trans (by decide)
    have hin := hp (hdr.word 0) h8 hb
    rwa [if_pos ⟨hs, h0, h16, rfl⟩] at hin
  · intro hk i hi hb
    split_ifs with hc
    · obtain ⟨hs, h0, -, rfl⟩ := hc
      exact hk hs h0 hi hb
    · exact h i hi hb

/-- The pages that have had their event after a tick. -/
theorem tick_online {t : TimerState} (hal : PagesAligned t) (readOk writeOk : Nat → Bool) {i : Nat}
    (hi : i < timerMaxDisplays) :
    (i, t.ssGpa i) ∈ (timerStep t (.tick readOk writeOk)).online ↔ (i, t.ssGpa i) ∈ t.online ∨
      (SeesEnabled readOk t i ∧ writeOk i = true ∧ t.raiseInterrupt = true) := by
  obtain ⟨-, ho, -, hq⟩ := tickDisplays_spec readOk writeOk (List.range timerMaxDisplays)
    List.nodup_range t [] hal
  simp only [timerStep, timerTickVblank]
  generalize (List.range timerMaxDisplays).foldl (tickDisplay readOk writeOk) (t, []) = r at *
  have hqi := hq (i, t.ssGpa i)
  simp only [List.not_mem_nil, List.mem_range, hi, true_and, and_true, false_or] at hqi
  rw [ho]
  split_ifs with hc
  · rw [List.mem_append, hqi, hc.2]
    simp
  · refine ⟨Or.inl, ?_⟩
    rintro (hin | ⟨hs, hwr, hr⟩)
    · exact hin
    · have hne : r.2 ≠ [] := List.ne_nil_of_mem (hqi.mpr ⟨hs, hwr⟩)
      simp [hne, hr] at hc

theorem tick_posted_iff {t : TimerState} (hal : PagesAligned t) (h : OnlinePosted t)
    (readOk writeOk : Nat → Bool) :
    OnlinePosted (timerStep t (.tick readOk writeOk)) ↔
      TimerEvent.KeepsPosted t (.tick readOk writeOk) := by
  obtain ⟨hw, -, he, -⟩ := tickDisplays_spec readOk writeOk (List.range timerMaxDisplays)
    List.nodup_range t [] hal
  have hgpa (i : Nat) : (timerStep t (.tick readOk writeOk)).ssGpa i = t.ssGpa i := by
    simp only [timerStep, timerTickVblank, TimerState.ssGpa, hw]
  have hbits (i : Nat) : (timerStep t (.tick readOk writeOk)).ssEnabled.testBit i = true ↔
      t.ssEnabled.testBit i = true ∨ (i ∈ List.range timerMaxDisplays ∧ SeesEnabled readOk t i) := by
    simp only [timerStep, timerTickVblank]
    exact he i
  simp only [OnlinePosted, TimerEvent.KeepsPosted, hgpa, hbits]
  constructor
  · intro hp i hi hs
    have hin := hp i hi (Or.inr ⟨List.mem_range.mpr hi, hs⟩)
    rcases (tick_online hal readOk writeOk hi).mp hin with hin | ⟨-, h1, h2⟩
    · exact Or.inr hin
    · exact Or.inl ⟨h1, h2⟩
  · intro hk i hi hb
    refine (tick_online hal readOk writeOk hi).mpr ?_
    rcases hb with hb | ⟨-, hs⟩
    · exact Or.inl (h i hi hb)
    · rcases hk i hi hs with ⟨h1, h2⟩ | hin
      · exact Or.inr ⟨hs, h1, h2⟩
      · exact Or.inl hin

theorem timerStep_aligned (t : TimerState) (e : TimerEvent) (h : PagesAligned t) :
    PagesAligned (timerStep t e) := by
  intro i
  cases e with
  | setup hdr ok =>
    rw [setup_ssGpa]
    split_ifs
    · exact Nat.dvd_mul_left _ _
    · exact h i
  | guest mem => exact h i
  | tick readOk writeOk =>
    obtain ⟨hw, -⟩ := tickDisplays_spec readOk writeOk (List.range timerMaxDisplays)
      List.nodup_range t [] h
    have hg : (timerStep t (.tick readOk writeOk)).ssGpa i = t.ssGpa i := by
      simp only [timerStep, timerTickVblank, TimerState.ssGpa, hw]
    rw [hg]
    exact h i

/-- One event keeps the events posted exactly under its condition. -/
theorem timerStep_posted_iff (t : TimerState) (e : TimerEvent)
    (h : PagesAligned t ∧ OnlinePosted t) :
    PagesAligned (timerStep t e) ∧ OnlinePosted (timerStep t e) ↔ e.KeepsPosted t := by
  rw [and_iff_right (timerStep_aligned t e h.1)]
  cases e with
  | setup hdr ok => exact setup_posted_iff h.2 hdr ok
  | guest mem => exact iff_of_true h.2 trivial
  | tick readOk writeOk => exact tick_posted_iff h.1 h.2 readOk writeOk

/- A tick that finds the flag at 0xC and the page without its event tries the
   write: the event is posted exactly when the write goes through. -/
def TimerEvent.Retries (t : TimerState) : TimerEvent → Prop
  | .setup _ _ => True
  | .guest _ => True
  | .tick readOk writeOk => ∀ i < timerMaxDisplays, t.ssGpa i ≠ 0 →
      t.state.world.displaySsInstalled.testBit i = true → readOk i = true → t.enableFlag i = 0xC →
      (i, t.ssGpa i) ∉ t.online →
      ((i, t.ssGpa i) ∈ (timerStep t (.tick readOk writeOk)).online ↔
        writeOk i = true ∧ t.raiseInterrupt = true)

theorem retries_of_posted {t : TimerState} (hal : PagesAligned t) (h : OnlinePosted t)
    (e : TimerEvent) : e.Retries t := by
  cases e with
  | setup hdr ok => trivial
  | guest mem => trivial
  | tick readOk writeOk =>
    intro i hi hg hinst hr hf hno
    have hs : SeesEnabled readOk t i := by
      refine ⟨hg, hinst, hr, hf, ?_⟩
      rw [← Bool.not_eq_true]
      exact fun hb => hno (h i hi hb)
    rw [tick_online hal readOk writeOk hi, or_iff_right hno, and_iff_right hs]

/-- A device as created, over any guest memory. -/
def TimerState.fresh (mem : Nat → UInt8) (raiseInterrupt : Bool) : TimerState where
  state := { mem := mem }
  raiseInterrupt := raiseInterrupt

/-- Over any run from device creation: in every state the enabled displays have
had their event posted, and every tick retries the others, exactly when each
event meets its condition. -/
theorem online_events_posted_iff (mem : Nat → UInt8) (raiseInterrupt : Bool)
    (es : List TimerEvent) :
    ((∀ t ∈ visited timerStep (.fresh mem raiseInterrupt) es, OnlinePosted t) ∧
      AllSteps timerStep (fun t e => e.Retries t) (.fresh mem raiseInterrupt) es) ↔
      AllSteps timerStep (fun t e => e.KeepsPosted t) (.fresh mem raiseInterrupt) es := by
  have hal : PagesAligned (.fresh mem raiseInterrupt) := fun i => Nat.dvd_zero _
  have hposted : OnlinePosted (.fresh mem raiseInterrupt) := by
    intro i _ hb
    simp [TimerState.fresh] at hb
  rw [← visited_inv_iff timerStep timerStep_posted_iff es _ ⟨hal, hposted⟩]
  have hpages := visited_inv timerStep timerStep_aligned es _ hal
  constructor
  · exact fun h t ht => ⟨hpages t ht, h.1 t ht⟩
  · intro h
    exact ⟨fun t ht => (h t ht).2,
      allSteps_of_visited timerStep es _ fun t ht => retries_of_posted (h t ht).1 (h t ht).2⟩

/-- Install the shared page of display 0 at page 5. -/
def setupDisplay0 : TimerEvent := .setup (CmdHeader.of 0x01 1 (putLe 4 0++putLe 4 5)) true

/-- The tick's write fails once: the display is marked and never retried. -/
theorem failed_write_loses_online_event :
    ¬ ∀ t ∈ visited timerStep (.fresh (fun _ => 0) true)
      [setupDisplay0, .tick (fun _ => true) (fun _ => false)], OnlinePosted t := by
  intro h
  have hp := h (timerStep (timerStep (.fresh (fun _ => 0) true) setupDisplay0)
    (.tick (fun _ => true) (fun _ => false))) (by simp [visited]) 0 (by decide)
  revert hp
  decide +kernel

end Lagfx
