import SharedStream.Dispatch
import SharedStream.Hints
import SharedStream.Retirement
/-!
Moving a cursor over the bytes that it sees, and releasing those that it has passed. The stores
below hear about a release before any child is let go because of it.
-/

namespace SharedStream

namespace View

/-- Stand at an outer position, which may be that of any visible byte or the end. -/
def seek (view : View) (position : Nat) : Except Fault View :=
  match view.shift.inner? position with
  | some inner =>
      if view.first ≤ inner ∧ inner ≤ view.stop then .ok { view with current := inner }
      else .error (.outsideView position view.firstPosition view.stopPosition)
  | none => .error (.outsideView position view.firstPosition view.stopPosition)

def reset (view : View) : Except Fault View :=
  if view.first = view.stop then .error .everythingReleased
  else .ok { view with current := view.first }

/-- The first inner position that stays visible when the bytes through `position` are released. Only
bytes before the current one can be released, and no byte twice. -/
def firstKept (view : View) (position : Nat) : Except Fault Nat :=
  match view.shift.inner? position with
  | some inner =>
      if inner < view.current then
        if inner < view.first then .error (.alreadyReleased position) else .ok (inner + 1)
      else .error (.notPassed position view.position)
  | none => .error (.notPassed position view.position)

end View

namespace Cursor

def withView (cursor : Cursor) (view : View) : Cursor := ⟨cursor.block, view⟩

def reset (cursor : Cursor) : Except Fault Cursor :=
  cursor.through .reset .error (cursor.view.reset.map cursor.withView)

end Cursor

namespace Pool

variable {σ : Type}

def seek (pool : Pool σ) (cursor : Cursor) (position : Nat) : Except Fault Cursor × Pool σ :=
  cursor.through .setPosition (fun fault => (.error fault, pool))
    (match cursor.view.seek position with
      | .error fault => (.error fault, pool)
      | .ok view => (.ok (cursor.withView view), pool.log (.positionSet position)))

variable [Store σ]

/-- Tell the stores below a block that the inner positions `released` are given up. -/
def adviseBelow (pool : Pool σ) (block : Block) (released : Extent) : Pool σ :=
  match block with
  | .source header store =>
      { pool with backend := pool.backend.advise header.settings store (released.stop - 1) }
  | .composed header joint left right =>
      { pool with
          backend :=
            pool.backend.adviseAll pool.ledger
              (pool.ledger.releasedParts header.number joint left right released) }

def release (pool : Pool σ) (cursor : Cursor) (position : Nat) :
    Except Fault Cursor × Pool σ :=
  cursor.through .release (fun fault => (.error fault, pool))
    (match cursor.view.firstKept position with
      | .error fault => (.error fault, pool)
      | .ok first =>
          let kept := cursor.withView { cursor.view with first }
          let pool := pool.adviseBelow cursor.block ⟨cursor.view.first, first⟩
          (.ok kept, pool.resize cursor.block cursor.extent kept.extent))

end Pool

end SharedStream
