import Mathlib.Data.List.Infix

/-! Variables that hold composite values: the places in them, what a place holds, and copies
from place to place. Nothing here refers to a language. -/
namespace Lagfx.Places
variable {X ι α : Type*}

/-- A member of a variable; the variable itself is at the empty path. -/
structure Place (X ι : Type*) where
  root : X
  path : List ι
deriving DecidableEq, Repr

/-- The words of a value, by the paths of its members. -/
abbrev Content (ι α : Type*) := List ι → α

abbrev Store (X ι α : Type*) := X → Content ι α

def read (m : Store X ι α) (p : Place X ι) : Content ι α := fun q => m p.root (p.path++q)

/-- Neither place is a part of the other. -/
def Place.Apart (p q : Place X ι) : Prop :=
  p.root = q.root → ¬p.path <+: q.path ∧ ¬q.path <+: p.path

theorem Place.Apart.symm {p q : Place X ι} (h : p.Apart q) : q.Apart p :=
  fun hr => (h hr.symm).symm

theorem Place.apart_of_root {p q : Place X ι} (h : p.root ≠ q.root) : p.Apart q :=
  fun hr => absurd hr h

structure Copy (X ι : Type*) where
  src : Place X ι
  dst : Place X ι

/-- No copy writes what another one reads or writes. -/
structure Independent (cs : List (Copy X ι)) : Prop where
  srcs : ∀ c ∈ cs, ∀ d ∈ cs, c.src.Apart d.dst
  dsts : cs.Pairwise fun c d => c.dst.Apart d.dst

theorem Independent.tail {c : Copy X ι} {cs : List (Copy X ι)} (h : Independent (c :: cs)) :
    Independent cs where
  srcs d hd e he := h.srcs d (List.mem_cons_of_mem c hd) e (List.mem_cons_of_mem c he)
  dsts := (List.pairwise_cons.mp h.dsts).2

variable [DecidableEq X] [DecidableEq ι]

def write (m : Store X ι α) (p : Place X ι) (v : Content ι α) : Store X ι α := fun x q =>
  if x = p.root ∧ p.path <+: q then v (q.drop p.path.length) else m x q

theorem read_write (m : Store X ι α) (p : Place X ι) (v : Content ι α) :
    read (write m p v) p = v := by
  funext q
  have hin : p.root = p.root ∧ p.path <+: p.path++q := ⟨rfl, List.prefix_append p.path q⟩
  rw [read, write, if_pos hin, List.drop_left]

theorem read_write_apart (m : Store X ι α) {p q : Place X ι} (v : Content ι α)
    (h : q.Apart p) : read (write m p v) q = read m q := by
  funext r
  have hout : ¬(q.root = p.root ∧ p.path <+: q.path++r) := by
    intro hin
    have hboth := List.prefix_or_prefix_of_prefix (List.prefix_append q.path r) hin.2
    cases hboth with
    | inl hq => exact (h hin.1).1 hq
    | inr hp => exact (h hin.1).2 hp
  rw [read, write, if_neg hout]
  rfl

theorem write_root (m : Store X ι α) {p : Place X ι} {x : X} (v : Content ι α)
    (h : x ≠ p.root) : write m p v x = m x := by
  funext q
  have hout : ¬(x = p.root ∧ p.path <+: q) := fun hin => h hin.1
  rw [write, if_neg hout]

/-- One copy after the other. -/
def copyAll (m : Store X ι α) : List (Copy X ι) → Store X ι α
  | [] => m
  | c :: cs => copyAll (write m c.dst (read m c.src)) cs

theorem copyAll_append (cs ds : List (Copy X ι)) : ∀ m : Store X ι α,
    copyAll m (cs++ds) = copyAll (copyAll m cs) ds := by
  induction cs with
  | nil => intro m; rfl
  | cons c cs ih => intro m; exact ih (write m c.dst (read m c.src))

/-- A place apart from every destination keeps its content. -/
theorem copyAll_apart {q : Place X ι} (cs : List (Copy X ι)) : ∀ m : Store X ι α,
    (∀ c ∈ cs, q.Apart c.dst) → read (copyAll m cs) q = read m q := by
  induction cs with
  | nil => intro m _; rfl
  | cons c cs ih =>
    intro m h
    rw [copyAll, ih _ fun d hd => h d (List.mem_cons_of_mem c hd)]
    exact read_write_apart m (read m c.src) (h c List.mem_cons_self)

/-- Independent copies act as one: each destination gets what its source held before all. -/
theorem copyAll_copied {c : Copy X ι} (cs : List (Copy X ι)) : ∀ m : Store X ι α,
    Independent cs → c ∈ cs → read (copyAll m cs) c.dst = read m c.src := by
  induction cs with
  | nil => intro m _ hc; cases hc
  | cons d cs ih =>
    intro m h hc
    have hd := (List.pairwise_cons.mp h.dsts).1
    rw [copyAll]
    cases List.mem_cons.mp hc with
    | inl he =>
      rw [he, copyAll_apart cs _ hd, read_write]
    | inr hm =>
      rw [ih _ h.tail hm]
      exact read_write_apart m _ (h.srcs c hc d List.mem_cons_self)

end Lagfx.Places
