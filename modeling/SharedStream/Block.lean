import SharedStream.Settings
/-!
Content blocks and what a cursor sees of them. A block stands over a store, or joins two cursors end
to end. Blocks do not change: whatever changes over time (who holds a block, which children a
composition still keeps, the state of a store) is kept in the pool, under the block's number.
-/

namespace SharedStream

/-- What a holder sees of a block: the inner positions from `first` up to `stop`, under the names
that `shift` gives them, with `current` as the next byte to read. -/
structure View where
  shift : Shift
  first : Nat
  current : Nat
  stop : Nat
deriving DecidableEq

namespace View

def whole (length : Nat) : View := ⟨.zero, 0, 0, length⟩

/-- The bytes that the holder may still come back to. -/
def extent (view : View) : Extent := ⟨view.first, view.stop⟩

/-- The outer position of the next byte. -/
def position (view : View) : Nat := view.shift.outer view.current

def remaining (view : View) : Nat := view.stop - view.current

/-- The outer position of the first byte that is not released. -/
def firstPosition (view : View) : Nat := view.shift.outer view.first

/-- The outer position after the last visible byte. -/
def stopPosition (view : View) : Nat := view.shift.outer view.stop

end View

/-- What happens when a block is freed. Hooks differ by what they leave behind. -/
inductive Hook where
  | announce (label : String)
  | tally (counter : Nat)
deriving DecidableEq

/-- What every block has, whatever it stands over. -/
structure Header where
  /-- The number of the block, never used twice. -/
  number : Nat
  settings : Settings
  dataHook : Option Hook := none
  blockHook : Option Hook := none
deriving DecidableEq

/-- A store as a block knows it. -/
structure StoreRef where
  number : Nat
  name : String
deriving DecidableEq

/-- How a composition places its children: positions from `start` up to `boundary` are those of the
left child, from `boundary` up to `stop` those of the right one, each under its own view. -/
structure Joint where
  start : Nat
  boundary : Nat
  stop : Nat
  leftView : View
  rightView : View
deriving DecidableEq

namespace Joint

def range (joint : Joint) : Side → Extent
  | .left => ⟨joint.start, joint.boundary⟩
  | .right => ⟨joint.boundary, joint.stop⟩

def whole (joint : Joint) : Extent := ⟨joint.start, joint.stop⟩

def crosses (joint : Joint) (position length : Nat) : Bool :=
  decide (position < joint.boundary) && decide (joint.boundary < position + length)

end Joint

/-- A content block with everything under it. -/
inductive Block where
  | source (header : Header) (store : StoreRef)
  | composed (header : Header) (joint : Joint) (left right : Block)

def sumOver {α : Type} (measure : α → Nat) : List α → Nat
  | [] => 0
  | x :: xs => measure x + sumOver measure xs

@[simp] theorem sumOver_nil {α : Type} (measure : α → Nat) : sumOver measure [] = 0 := rfl

@[simp] theorem sumOver_cons {α : Type} (measure : α → Nat) (x : α) (xs : List α) :
    sumOver measure (x :: xs) = measure x + sumOver measure xs := rfl

@[simp] theorem sumOver_append {α : Type} (measure : α → Nat) (xs ys : List α) :
    sumOver measure (xs ++ ys) = sumOver measure xs + sumOver measure ys := by
  induction xs with
  | nil => simp
  | cons x xs ih => simp [ih, Nat.add_assoc]

/-- A block together with what its holder sees of it. -/
structure Cursor where
  block : Block
  view : View

/-- The children of a composition, as the cursors they were when it was made. -/
def Joint.child (joint : Joint) (left right : Block) : Side → Cursor
  | .left => ⟨left, joint.leftView⟩
  | .right => ⟨right, joint.rightView⟩

@[simp] theorem Joint.block_child_left (joint : Joint) (left right : Block) :
    (joint.child left right .left).block = left := rfl

@[simp] theorem Joint.block_child_right (joint : Joint) (left right : Block) :
    (joint.child left right .right).block = right := rfl

namespace Block

def header : Block → Header
  | source header _ => header
  | composed header _ _ _ => header

def number (block : Block) : Nat := block.header.number

def settings (block : Block) : Settings := block.header.settings

def name : Block → String
  | source _ store => store.name
  | composed _ _ _ _ => "composition"

def isComposed : Block → Bool
  | source _ _ => false
  | composed _ _ _ _ => true

def child? : Block → Side → Option Cursor
  | source _ _, _ => none
  | composed _ joint left right, side => some (joint.child left right side)

/-- A bound on the work that a walk below a block can make. -/
def weight : Block → Nat
  | source _ _ => 1
  | composed _ _ left right => 2 * left.weight + 2 * right.weight + 1

theorem weight_pos (block : Block) : 0 < block.weight := by
  cases block <;> simp [weight]

end Block

namespace Cursor

def position (cursor : Cursor) : Nat := cursor.view.position

def remaining (cursor : Cursor) : Nat := cursor.view.remaining

def extent (cursor : Cursor) : Extent := cursor.view.extent

end Cursor

end SharedStream
