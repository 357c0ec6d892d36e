import Lagfx.Lib.Runs

/-! Images with a layout, the commands recorded for them, and barriers that name the
layout an image is really in. -/
namespace Lagfx.ImageLayout
open Runs
variable {ι α : Type*} [DecidableEq ι]

inductive Layout where
  | undefined | general | colorAttachment | shaderReadOnly | transferSrc | transferDst
deriving DecidableEq, Repr

/-- An image; its contents are `none` when they are undefined. -/
structure Image (α : Type*) where
  layout : Layout := .undefined
  contents : Option α := none
  fresh : layout = .undefined → contents = none := by simp

/- A barrier keeps the contents only when it names the layout the image is in. What is
   undefined stays so. -/
def Image.barrier (im : Image α) (old new : Layout) : Image α where
  layout := new
  contents := if old = im.layout ∧ new ≠ .undefined then im.contents else none
  fresh := by
    intro h
    simp [h]

/-- Nothing is defined by a write to an image in no layout. -/
def Image.write (im : Image α) (contents : Option α) : Image α where
  layout := im.layout
  contents := if im.layout = .undefined then none else contents
  fresh := by
    intro h
    simp [h]

/- Commands of one submission: a barrier, a write of the whole image, a write of a part
   of it, and rendering that loads what is there. The last two may read every image. -/
inductive Cmd (ι α : Type*) where
  | barrier (i : ι) (old new : Layout)
  | overwrite (i : ι) (v : α)
  | modify (i : ι) (f : (ι → Option α) → Option α)
  | load (i : ι) (f : (ι → Option α) → Option α)

def Cmd.image : Cmd ι α → ι
  | .barrier i _ _ => i
  | .overwrite i _ => i
  | .modify i _ => i
  | .load i _ => i

def Cmd.isOverwrite : Cmd ι α → Bool
  | .overwrite _ _ => true
  | _ => false

def contents (images : ι → Image α) (i : ι) : Option α := (images i).contents

def exec (images : ι → Image α) (c : Cmd ι α) : ι → Image α :=
  Function.update images c.image <|
    match c with
    | .barrier i old new => (images i).barrier old new
    | .overwrite i v => (images i).write (some v)
    | .modify i f => (images i).write (f (contents images))
    | .load i f => (images i).write (f (contents images))

def submit (images : ι → Image α) (cmds : List (Cmd ι α)) : ι → Image α := cmds.foldl exec images

/-- The next command for the image writes all of it. -/
def overwritten (i : ι) (cmds : List (Cmd ι α)) : Bool :=
  match cmds.find? fun c => c.image = i with
  | some c => c.isOverwrite
  | none => false

/- Each barrier names the layout the image is in, or `undefined` where all of the image
   is written next. -/
def Exact (images : ι → Image α) : List (Cmd ι α) → Prop
  | [] => True
  | .barrier i old new :: cmds =>
    (old = (images i).layout ∨ old = .undefined ∧ overwritten i cmds) ∧
      Exact (exec images (.barrier i old new)) cmds
  | c :: cmds => Exact (exec images c) cmds

/- At each load the image holds what the last write to it produced: `made` is that, and
   barriers leave it alone. -/
def LoadsKept (images : ι → Image α) (made : ι → Option α) : List (Cmd ι α) → Prop
  | [] => True
  | .barrier i old new :: cmds => LoadsKept (exec images (.barrier i old new)) made cmds
  | .load i f :: cmds =>
    (images i).contents = made i ∧
      LoadsKept (exec images (.load i f))
        (Function.update made i (contents (exec images (.load i f)) i)) cmds
  | c :: cmds =>
    LoadsKept (exec images c) (Function.update made c.image (contents (exec images c) c.image)) cmds

/-- A submission is exact and its loads find what was there. -/
def Kept (images : ι → Image α) (cmds : List (Cmd ι α)) : Prop :=
  Exact images cmds ∧ LoadsKept images (contents images) cmds

@[simp] theorem exec_other {images : ι → Image α} {c : Cmd ι α} {i : ι} (h : i ≠ c.image) :
    exec images c i = images i := by
  simp [exec, h]

@[simp] theorem layout_barrier (images : ι → Image α) (i : ι) (old new : Layout) :
    (exec images (.barrier i old new) i).layout = new := by
  simp [exec, Cmd.image, Image.barrier]

/-- Only barriers change a layout. -/
@[simp] theorem layout_overwrite (images : ι → Image α) (i j : ι) (v : α) :
    (exec images (.overwrite i v) j).layout = (images j).layout := by
  by_cases h : j = i
  · subst h
    simp [exec, Cmd.image, Image.write]
  · rw [exec_other (by simpa [Cmd.image] using h)]

@[simp] theorem layout_modify (images : ι → Image α) (i j : ι) (f : (ι → Option α) → Option α) :
    (exec images (.modify i f) j).layout = (images j).layout := by
  by_cases h : j = i
  · subst h
    simp [exec, Cmd.image, Image.write]
  · rw [exec_other (by simpa [Cmd.image] using h)]

@[simp] theorem layout_load (images : ι → Image α) (i j : ι) (f : (ι → Option α) → Option α) :
    (exec images (.load i f) j).layout = (images j).layout := by
  by_cases h : j = i
  · subst h
    simp [exec, Cmd.image, Image.write]
  · rw [exec_other (by simpa [Cmd.image] using h)]

/-- An image no command names is untouched. -/
theorem submit_other {i : ι} (cmds : List (Cmd ι α)) :
    ∀ images : ι → Image α, (∀ c ∈ cmds, i ≠ c.image) → submit images cmds i = images i := by
  induction cmds with
  | nil => intro images _; rfl
  | cons c cmds ih =>
    intro images h
    have hc : i ≠ c.image := h c List.mem_cons_self
    have hrest := ih (exec images c) fun d hd => h d (List.mem_cons_of_mem c hd)
    rw [submit] at hrest ⊢
    rw [List.foldl_cons, hrest, exec_other hc]

theorem barrier_contents {im : Image α} {new : Layout} (h : new ≠ .undefined) :
    (im.barrier im.layout new).contents = im.contents := by
  simp [Image.barrier, h]

@[simp] theorem overwritten_self {c : Cmd ι α} (cmds : List (Cmd ι α)) :
    overwritten c.image (c :: cmds) = c.isOverwrite := by
  simp [overwritten]

@[simp] theorem overwritten_other {c : Cmd ι α} {i : ι} (h : i ≠ c.image)
    (cmds : List (Cmd ι α)) : overwritten i (c :: cmds) = overwritten i cmds := by
  simp [overwritten, h.symm]

/-- No barrier leads to the undefined layout. -/
def Cmd.Defined : Cmd ι α → Prop
  | .barrier _ _ new => new ≠ .undefined
  | _ => True

/-- What an image holds is what its last write made, or all of it is written next. -/
def Agrees (images : ι → Image α) (made : ι → Option α) (cmds : List (Cmd ι α)) : Prop :=
  ∀ i, (images i).contents = made i ∨ overwritten i cmds = true

theorem Agrees.of_write {images : ι → Image α} {made : ι → Option α} {c : Cmd ι α}
    {cmds : List (Cmd ι α)} (h : Agrees images made (c :: cmds)) :
    Agrees (exec images c) (Function.update made c.image (contents (exec images c) c.image))
      cmds := by
  intro i
  by_cases hi : i = c.image
  · subst hi
    exact Or.inl (by simp [contents])
  · rw [exec_other hi, Function.update_of_ne hi]
    simpa [hi] using h i

theorem Agrees.of_barrier {images : ι → Image α} {made : ι → Option α} {i : ι} {old new : Layout}
    {cmds : List (Cmd ι α)} (h : Agrees images made (.barrier i old new :: cmds))
    (hnew : new ≠ .undefined)
    (hold : old = (images i).layout ∨ old = .undefined ∧ overwritten i cmds = true) :
    Agrees (exec images (.barrier i old new)) made cmds := by
  intro j
  by_cases hj : j = i
  · subst hj
    -- the next command for the image is this barrier, so nothing was pending on it
    have hmade : (images j).contents = made j := by
      rcases h j with h | h
      · exact h
      · simp [overwritten, Cmd.image, Cmd.isOverwrite] at h
    rcases hold with rfl | ⟨_, hnext⟩
    · left
      rw [← hmade]
      simpa [exec, Cmd.image] using barrier_contents hnew
    · exact Or.inr hnext
  · have hne : j ≠ (Cmd.barrier i old new : Cmd ι α).image := hj
    rw [exec_other hne]
    simpa [hne] using h j

/-- Exact barriers lose nothing that is loaded. -/
theorem loadsKept_of_exact (cmds : List (Cmd ι α)) :
    ∀ (images : ι → Image α) (made : ι → Option α), (∀ c ∈ cmds, c.Defined) →
      Exact images cmds → Agrees images made cmds → LoadsKept images made cmds := by
  induction cmds with
  | nil => intro _ _ _ _ _; trivial
  | cons c cmds ih =>
    intro images made hdef hex hag
    have hrest : ∀ d ∈ cmds, d.Defined := fun d hd => hdef d (List.mem_cons_of_mem c hd)
    cases c with
    | barrier i old new =>
      have hnew : new ≠ .undefined := hdef _ List.mem_cons_self
      exact ih _ _ hrest hex.2 (hag.of_barrier hnew hex.1)
    | overwrite i v => exact ih _ _ hrest hex hag.of_write
    | modify i f => exact ih _ _ hrest hex hag.of_write
    | load i f =>
      have hloaded : (images i).contents = made i := by
        rcases hag i with h | h
        · exact h
        · simp [overwritten, Cmd.image, Cmd.isOverwrite] at h
      exact ⟨hloaded, ih _ _ hrest hex hag.of_write⟩

theorem kept_of_exact {images : ι → Image α} {cmds : List (Cmd ι α)}
    (hdef : ∀ c ∈ cmds, c.Defined) (h : Exact images cmds) : Kept images cmds :=
  ⟨h, loadsKept_of_exact cmds images _ hdef h fun _ => Or.inl rfl⟩

end Lagfx.ImageLayout
