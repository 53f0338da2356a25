import SharedStream.Pool
/-!
Reading through compositions. A range of a composition is taken apart into the parts that its
children show, and these into further parts, until every part lies over one store; the parts wait in
one list in order, so the depth of the reader is not the depth of the composition.
-/

namespace SharedStream

/-- A part of a range that is still to be read, or the reason why reading has to stop there. -/
inductive Part where
  /-- So many bytes from a position of the composition that holds `child`. -/
  | range (child : Cursor) (position length : Nat)
  | missing (side : Side)

namespace Part

/-- A bound on the parts that a part can be taken apart into. -/
def weight : Part → Nat
  | range child _ _ => child.block.weight
  | missing _ => 1

def total (parts : List Part) : Nat := sumOver weight parts

@[simp] theorem total_nil : total [] = 0 := rfl

@[simp] theorem total_cons (part : Part) (parts : List Part) :
    total (part :: parts) = part.weight + total parts := by
  simp [total]

@[simp] theorem total_append (parts others : List Part) :
    total (parts ++ others) = total parts + total others := by
  simp [total]

end Part

/-- Bytes in hand, and the failure that ended the reading, if one did. -/
structure Gathered where
  bytes : List UInt8
  failure : Option Failure

/-- Where a range of a composition begins inside a child. -/
def Cursor.locate (child : Cursor) (position length : Nat) : Except Fault Nat :=
  match child.view.shift.inner? position with
  | some inner =>
      if child.view.first ≤ inner ∧ inner + length ≤ child.view.stop then .ok inner
      else .error (.outsideChild position length)
  | none => .error (.outsideChild position length)

namespace Ledger

/-- A part of a range for one child, if the composition still holds it. -/
def part (ledger : Ledger) (number : Nat) (side : Side) (child : Cursor)
    (position length : Nat) : Part :=
  if ledger.attached number side then .range child position length else .missing side

/-- The parts of the range of `length` bytes at `position`, the left child's first. -/
def parts (ledger : Ledger) (number : Nat) (joint : Joint) (left right : Block)
    (position length : Nat) : List Part :=
  let stop := position + length
  (if position < joint.boundary then
      [ledger.part number .left (joint.child left right .left) position
        (min stop joint.boundary - position)]
    else []) ++
  (if joint.boundary < stop then
      [ledger.part number .right (joint.child left right .right) (max position joint.boundary)
        (stop - max position joint.boundary)]
    else [])

theorem total_parts (ledger : Ledger) (number : Nat) (joint : Joint) (left right : Block)
    (position length : Nat) :
    Part.total (ledger.parts number joint left right position length) ≤
      left.weight + right.weight := by
  have hleft := left.weight_pos
  have hright := right.weight_pos
  simp only [parts, part, Part.total_append]
  split <;> split <;> (try split) <;> (try split) <;> simp [Part.weight] <;> omega

end Ledger

namespace Backend

variable {σ : Type} [Store σ]

/-- Ask one store again and again until `length` bytes from `position` on are in hand. A count
beyond what was asked for is cut down to it; a count of zero ends the reading. -/
def fill (backend : Backend σ) (store : StoreRef) (position length : Nat) :
    Gathered × Backend σ :=
  if length = 0 then (⟨[], none⟩, backend)
  else
    match backend.read store position length with
    | (.error failure, backend) => (⟨[], some failure⟩, backend)
    | (.ok reply, backend) =>
        if _ : reply.count = 0 then (⟨[], some (Fault.childStarved store.name)⟩, backend)
        else
          let taken := min reply.count length
          let (rest, backend) := backend.fill store (position + taken) (length - taken)
          (⟨reply.front taken ++ rest.bytes, rest.failure⟩, backend)
termination_by length
decreasing_by omega

def noteCrossing (backend : Backend σ) (joint : Joint) (position length : Nat) : Backend σ :=
  if joint.crosses position length then backend.log (.boundaryRead position length) else backend

/-- Read the pending parts in order, after the bytes that are already in hand. -/
def gather (backend : Backend σ) (ledger : Ledger) (filled : List UInt8) :
    List Part → Gathered × Backend σ
  | [] => (⟨filled, none⟩, backend)
  | .missing side :: _ => (⟨filled, some (Fault.childRetired side)⟩, backend)
  | .range ⟨block, view⟩ position length :: parts =>
      match Cursor.locate ⟨block, view⟩ position length with
      | .error fault => (⟨filled, some fault⟩, backend)
      | .ok start =>
          match block with
          | .composed header joint left right =>
              gather (backend.noteCrossing joint start length) ledger filled
                (ledger.parts header.number joint left right start length ++ parts)
          | .source _ store =>
              let (got, backend) := backend.fill store start length
              match got.failure with
              | some error => (⟨filled ++ got.bytes, some error⟩, backend)
              | none => gather backend ledger (filled ++ got.bytes) parts
termination_by parts => Part.total parts
decreasing_by
  · have := ledger.total_parts header.number joint left right start length
    simp only [Part.total_append, Part.total_cons, Part.weight, Block.weight]
    omega
  · simp only [Part.total_cons, Part.weight, Block.weight]
    omega

/-- A failure after some bytes are in hand is only a warning: the bytes count. -/
def settle (backend : Backend σ) (got : Gathered) : Except Failure (List UInt8) × Backend σ :=
  match got.failure with
  | none => (.ok got.bytes, backend)
  | some error =>
      if got.bytes.isEmpty then (.error error, backend)
      else (.ok got.bytes, backend.log (.partialRead got.bytes.length error))

def readComposed (backend : Backend σ) (ledger : Ledger) (header : Header) (joint : Joint)
    (left right : Block) (position length : Nat) :
    Except Failure (List UInt8) × Backend σ :=
  let backend := backend.noteCrossing joint position length
  let (got, backend) :=
    backend.gather ledger [] (ledger.parts header.number joint left right position length)
  backend.settle got

end Backend

end SharedStream
