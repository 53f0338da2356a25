import SharedStream.Pool
/-!
Release hints. When a holder of a composition gives up a range, each store below hears how far its
own bytes went, from left to right. Hints are advice: a store that rejects one changes nothing but
the journal.
-/

namespace SharedStream

def rangesWeight (ranges : List (Cursor × Extent)) : Nat :=
  sumOver (fun range => range.1.block.weight) ranges

@[simp] theorem rangesWeight_nil : rangesWeight [] = 0 := rfl

@[simp] theorem rangesWeight_cons (range : Cursor × Extent)
    (ranges : List (Cursor × Extent)) :
    rangesWeight (range :: ranges) = range.1.block.weight + rangesWeight ranges := by
  simp [rangesWeight]

@[simp] theorem rangesWeight_append (ranges others : List (Cursor × Extent)) :
    rangesWeight (ranges ++ others) = rangesWeight ranges + rangesWeight others := by
  simp [rangesWeight]

namespace Ledger

/-- What a released range means to one child that the composition still holds. -/
def releasedPart (ledger : Ledger) (number : Nat) (joint : Joint) (released : Extent)
    (side : Side) (child : Cursor) : List (Cursor × Extent) :=
  if released.overlaps (joint.range side) && ledger.attached number side then
    [(child, released.meet (joint.range side))]
  else []

/-- What a released range means to the children of a composition, the left one first. -/
def releasedParts (ledger : Ledger) (number : Nat) (joint : Joint) (left right : Block)
    (released : Extent) : List (Cursor × Extent) :=
  ledger.releasedPart number joint released .left (joint.child left right .left) ++
    ledger.releasedPart number joint released .right (joint.child left right .right)

theorem rangesWeight_releasedParts (ledger : Ledger) (number : Nat) (joint : Joint)
    (left right : Block) (released : Extent) :
    rangesWeight (ledger.releasedParts number joint left right released) ≤
      left.weight + right.weight := by
  simp only [releasedParts, releasedPart, rangesWeight_append]
  split <;> split <;> simp

end Ledger

namespace Backend

variable {σ : Type} [Store σ]

/-- Tell a block's store that the bytes up to and with `position` are released, if the block's
settings want that. -/
def advise (backend : Backend σ) (settings : Settings) (store : StoreRef)
    (position : Nat) : Backend σ :=
  if settings.hints then
    match backend.hint store position with
    | (.ok (), backend) => backend
    | (.error failure, backend) => backend.log (.hintRejected store.name failure)
  else backend

/-- Tell the stores below a list of ranges, given in the positions of the compositions that hold
the children. Each store hears the last of its own released positions. -/
def adviseAll (backend : Backend σ) (ledger : Ledger) :
    List (Cursor × Extent) → Backend σ
  | [] => backend
  | (⟨block, view⟩, range) :: ranges =>
      match view.shift.inner? range.start, view.shift.inner? range.stop with
      | some start, some stop =>
          match block with
          | .composed header joint left right =>
              adviseAll backend ledger
                (ledger.releasedParts header.number joint left right ⟨start, stop⟩ ++ ranges)
          | .source header store =>
              adviseAll (backend.advise header.settings store (stop - 1)) ledger ranges
      | _, _ => adviseAll backend ledger ranges
termination_by ranges => rangesWeight ranges
decreasing_by
  · have := ledger.rangesWeight_releasedParts header.number joint left right ⟨start, stop⟩
    simp only [rangesWeight_append, rangesWeight_cons, Block.weight]
    omega
  · simp only [rangesWeight_cons, Block.weight]
    omega
  · have := block.weight_pos
    simp only [rangesWeight_cons]
    omega

end Backend

end SharedStream
