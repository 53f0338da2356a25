/-!
Positions and the arithmetic on them. A block numbers its own bytes from zero; these are its
*inner* positions. Every holder of a block may number the bytes differently; these are the *outer*
positions. The two differ by a fixed signed amount, so what a holder sees is the same stretch of
bytes under either numbering.
-/

namespace SharedStream

/-- The largest position. Positions are 64-bit words, carried as natural numbers. -/
def maxOffset : Nat := 0xFFFFFFFFFFFFFFFF

/-- The signed amount by which the outer positions of a holder lie beyond the inner ones. -/
structure Shift where
  amount : Int
deriving DecidableEq

namespace Shift

def zero : Shift := ⟨0⟩

/-- The shift under which the inner position `inner` is called `outer`. -/
def placing (inner outer : Nat) : Shift := ⟨(outer : Int) - inner⟩

/-- The outer name of an inner position. A name that no word can hold is capped at `maxOffset`; the
windows that cursors carry never reach the cap. -/
def outer (shift : Shift) (inner : Nat) : Nat :=
  let position := (inner : Int) + shift.amount
  if 0 ≤ position ∧ position ≤ maxOffset then position.toNat else maxOffset

/-- The inner position that an outer one names, if a word can hold it. -/
def inner? (shift : Shift) (outer : Nat) : Option Nat :=
  let position := (outer : Int) - shift.amount
  if 0 ≤ position ∧ position ≤ maxOffset then some position.toNat else none

theorem inner?_eq_some_iff (shift : Shift) (outer inner : Nat) :
    shift.inner? outer = some inner ↔
      (inner : Int) + shift.amount = outer ∧ inner ≤ maxOffset := by
  simp only [inner?]
  split
  · rename_i h
    rw [Option.some_inj]
    omega
  · rename_i h
    simp only [reduceCtorEq, false_iff, not_and]
    omega

theorem outer_eq (shift : Shift) (inner : Nat) (hlow : 0 ≤ (inner : Int) + shift.amount)
    (hhigh : (inner : Int) + shift.amount ≤ maxOffset) :
    (shift.outer inner : Int) = inner + shift.amount := by
  simp only [outer, hlow, hhigh, and_self, if_true]
  omega

end Shift

/-- The positions from `start` up to, and without, `stop`. -/
structure Extent where
  start : Nat
  stop : Nat
deriving DecidableEq

namespace Extent

def empty : Extent := ⟨0, 0⟩

def isEmpty (e : Extent) : Bool := e.stop ≤ e.start

/-- Two extents share a position. An empty extent shares none, wherever it lies. -/
def overlaps (e f : Extent) : Bool :=
  !e.isEmpty && !f.isEmpty && decide (e.start < f.stop) && decide (f.start < e.stop)

def meet (e f : Extent) : Extent := ⟨max e.start f.start, min e.stop f.stop⟩

theorem overlaps_iff (e f : Extent) :
    e.overlaps f = true ↔
      e.start < e.stop ∧ f.start < f.stop ∧ e.start < f.stop ∧ f.start < e.stop := by
  simp [overlaps, isEmpty, and_assoc]

@[simp] theorem empty_overlaps (e : Extent) : empty.overlaps e = false := by
  simp [overlaps, isEmpty, empty]

/-- Whatever an extent shrinks to, it may shrink to nothing. -/
theorem empty_narrow (e range : Extent) (h : empty.overlaps range = true) :
    e.overlaps range = true := by
  rw [empty_overlaps] at h
  cases h

@[simp] theorem overlaps_empty (e : Extent) : e.overlaps empty = false := by
  simp [overlaps, isEmpty, empty]

end Extent

end SharedStream
