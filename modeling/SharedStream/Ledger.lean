import SharedStream.Block
/-!
The books of the pool: how many holders each block has, and how much each child of a composition is
needed. The need of a child counts the holders of the composition whose extent overlaps the child's
range; at zero the composition lets go of the child. A block without holders is gone; its page stays
in the books.
-/

namespace SharedStream

/-- What a composition knows about one of its children. -/
structure Slot where
  /-- The holders of the composition that can still see the child. -/
  needs : Nat
  /-- Whether the composition still holds the child. -/
  attached : Bool
deriving DecidableEq

namespace Slot

def vacant : Slot := ⟨0, false⟩

/-- A new slot is filled if the first holder sees its range. -/
def ofNeeded (needed : Bool) : Slot := if needed then ⟨1, true⟩ else vacant

/-- One holder's extent changes from `before` to `after`. The second part says whether the child is
let go. -/
def recount (slot : Slot) (range before after : Extent) : Slot × Bool :=
  match before.overlaps range, after.overlaps range with
  | false, true => ({ slot with needs := slot.needs + 1 }, false)
  | true, false =>
      if slot.needs = 1 then (vacant, slot.attached)
      else ({ slot with needs := slot.needs - 1 }, false)
  | _, _ => (slot, false)

end Slot

/-- The page of one block. -/
structure Page where
  block : Block
  /-- The holders of the block: cursors, and slots in which it is a child. -/
  refs : Nat
  left : Slot := .vacant
  right : Slot := .vacant

namespace Page

def slot (page : Page) : Side → Slot
  | .left => page.left
  | .right => page.right

def setSlot (page : Page) (slot : Slot) : Side → Page
  | .left => { page with left := slot }
  | .right => { page with right := slot }

/-- The page of a block that is gone: nobody holds it, and it holds nobody. -/
def close (page : Page) : Page := { page with refs := 0, left := .vacant, right := .vacant }

@[simp] theorem slot_close (page : Page) (side : Side) : page.close.slot side = .vacant := by
  cases side <;> rfl

end Page

/-- The pages of all blocks ever made, by number. -/
structure Ledger where
  pages : Array Page := #[]

namespace Ledger

def get? (ledger : Ledger) (number : Nat) : Option Page := ledger.pages[number]?

def fresh (ledger : Ledger) : Nat := ledger.pages.size

def add (ledger : Ledger) (page : Page) : Ledger := ⟨ledger.pages.push page⟩

def modify (ledger : Ledger) (number : Nat) (change : Page → Page) : Ledger :=
  ⟨ledger.pages.modify number change⟩

/-- The number of holders of a block; zero for a block that is gone. -/
def refs (ledger : Ledger) (number : Nat) : Nat := (ledger.get? number).elim 0 Page.refs

def slot (ledger : Ledger) (number : Nat) (side : Side) : Slot :=
  (ledger.get? number).elim .vacant fun page => page.slot side

def attached (ledger : Ledger) (number : Nat) (side : Side) : Bool :=
  (ledger.slot number side).attached

def retain (ledger : Ledger) (number : Nat) : Ledger :=
  ledger.modify number fun page => { page with refs := page.refs + 1 }

theorem get?_add_fresh (ledger : Ledger) (page : Page) :
    (ledger.add page).get? ledger.fresh = some page := by
  simp [get?, add, fresh]

theorem get?_add_of_ne (ledger : Ledger) (page : Page) {number : Nat}
    (h : number ≠ ledger.fresh) : (ledger.add page).get? number = ledger.get? number := by
  simp only [fresh] at h
  simp [get?, add, Array.getElem?_push, h]

theorem get?_modify (ledger : Ledger) (number other : Nat) (change : Page → Page) :
    (ledger.modify number change).get? other =
      if number = other then (ledger.get? other).map change else ledger.get? other := by
  simp [get?, modify, Array.getElem?_modify]

end Ledger

end SharedStream
