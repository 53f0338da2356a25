import SharedStream.Cursor.Moving
/-!
Making cursors. The first one comes with a new block over a store; more of them over the same bytes
are clones, concatenations and splits. No byte is copied: cursors share blocks, and a concatenation
is a new block over two older ones.
-/

namespace SharedStream

namespace View

/-- A view of the remaining bytes that names the current one `offset`. It fails if the end would be
named beyond `limit`. -/
def cloneAt (view : View) (limit offset : Nat) : Except Fault View :=
  if offset + view.remaining ≤ limit then
    .ok ⟨.placing view.current offset, view.current, view.current, view.stop⟩
  else .error (.cloneOverflow offset view.remaining limit)

def truncate (view : View) (stop : Nat) : Except Fault View :=
  if view.current ≤ stop ∧ stop ≤ view.stop then .ok { view with stop }
  else .error (.cannotShrink stop)

/-- Whether the remaining bytes can be split at an outer position: both halves must have bytes. -/
def splitCheck (view : View) (position : Nat) : Except Fault Unit :=
  let start := view.position
  let stop := start + view.remaining
  if maxOffset < stop then .error (.endOverflow start view.remaining)
  else if position = start ∨ position = stop then .error (.emptyHalf position start stop)
  else if position < start ∨ stop < position then .error (.splitOutside position start stop)
  else .ok ()

end View

/-- A store to be exposed, and how. -/
structure Blueprint (σ : Type) where
  store : σ
  settings : Settings := {}
  dataHook : Option Hook := none
  blockHook : Option Hook := none

variable {σ : Type} [Store σ]

/-- Whether the store may be exposed under its settings; its length, if so. -/
def Blueprint.check (plan : Blueprint σ) : Except Fault Nat :=
  match plan.settings.validate with
  | .error fault => .error fault
  | .ok () =>
      let length := Store.length plan.store
      if length = 0 then .error (.emptyStore (Store.name plan.store))
      else if plan.settings.limit < length then
        .error (.storeTooLong length plan.settings.limit)
      else .ok length

namespace Pool

/-- Take a store in without making a block of it; it is dropped at once. -/
def discardStore (pool : Pool σ) (store : σ) : Pool σ :=
  let reference : StoreRef := ⟨pool.backend.stores.size, Store.name store⟩
  { pool with backend := (pool.backend.add store).drop reference }

/-- Make a block and a cursor that sees all of it. When that is refused, the store is dropped and
no hook runs. -/
def build (pool : Pool σ) (plan : Blueprint σ) : Except Fault Cursor × Pool σ :=
  match plan.check with
  | .error fault => (.error fault, pool.discardStore plan.store)
  | .ok length =>
      let store : StoreRef := ⟨pool.backend.stores.size, Store.name plan.store⟩
      let header : Header :=
        ⟨pool.ledger.fresh, plan.settings, plan.dataHook, plan.blockHook⟩
      let block := Block.source header store
      let backend := (pool.backend.add plan.store).log (.blockCreated block.name length)
      (.ok ⟨block, View.whole length⟩, ⟨pool.ledger.add { block, refs := 1 }, backend⟩)

/-- A new cursor over the remaining bytes, with the current one at `offset`. -/
def cloneAt (pool : Pool σ) (cursor : Cursor) (offset : Nat) : Except Fault Cursor × Pool σ :=
  cursor.through .clone (fun fault => (.error fault, pool))
    (match cursor.view.cloneAt cursor.block.settings.limit offset with
      | .error fault => (.error fault, pool)
      | .ok view =>
          let clone := cursor.withView view
          let pool := { pool with ledger := pool.ledger.retain cursor.block.number }
          (.ok clone, pool.resize cursor.block .empty clone.extent))

/-- A new cursor over the remaining bytes under their present names. -/
def clone (pool : Pool σ) (cursor : Cursor) : Except Fault Cursor × Pool σ :=
  cursor.through .position (fun fault => (.error fault, pool))
    (pool.cloneAt cursor cursor.position)

@[simp] theorem clone_eq (pool : Pool σ) (cursor : Cursor) :
    pool.clone cursor = pool.cloneAt cursor cursor.position := by
  rw [clone, Cursor.through_eq]

/-- A child that the new composition does not need is disposed of at once. -/
def keepIf (pool : Pool σ) (needed : Bool) (child : Cursor) : Pool σ :=
  if needed then pool else pool.abandon child

/-- The block that joins `head` and `tail`, and a cursor over it that stands where `head` stood.
The block takes over both cursors. -/
def compose (pool : Pool σ) (head tail : Cursor) (joint : Joint) (hook : Option Hook) :
    Cursor × Pool σ :=
  let needLeft := joint.whole.overlaps (joint.range .left)
  let needRight := joint.whole.overlaps (joint.range .right)
  let pool := (pool.keepIf needLeft head).keepIf needRight tail
  let header : Header :=
    { number := pool.ledger.fresh, settings := head.block.settings, blockHook := hook }
  let block := Block.composed header joint head.block tail.block
  let page : Page :=
    { block, refs := 1, left := .ofNeeded needLeft, right := .ofNeeded needRight }
  (⟨block, ⟨.zero, joint.start, head.position, joint.stop⟩⟩,
    { pool with ledger := pool.ledger.add page })

/-- Join a copy of a head with a clone of the remaining bytes of `other`, if both sides allow the
positions that this gives. -/
def join (pool : Pool σ) (head other : Cursor) (hook : Option Hook) :
    Except Fault Cursor × Pool σ :=
  let limit := head.block.settings.limit
  let boundary := head.view.stopPosition
  let stop := boundary + other.remaining
  head.through .remaining (fun fault => (.error fault, pool)) <|
    other.through .remaining (fun fault => (.error fault, pool)) <|
      if stop ≤ limit then
        match pool.cloneAt other boundary with
        | (.error fault, pool) => (.error fault, pool)
        | (.ok tail, pool) =>
            let joint : Joint := ⟨head.view.firstPosition, boundary, stop, head.view, tail.view⟩
            let (cursor, pool) := pool.compose head tail joint hook
            (.ok cursor, pool.log (.concatenated boundary stop head.position))
      else (.error (.concatOverflow boundary other.remaining limit), pool)

/-- Append the remaining bytes of `other` to those of `head`. The cursor keeps its position and its
first visible byte; `other` stays as it is. The head is copied first. If the two are joined, the
copy lives on as the left child and the cursor lets go of its old block; if they are not, it is the
copy that goes, and nothing has changed. Either way one hold on the head's block ends. -/
def concat (pool : Pool σ) (head other : Cursor) (hook : Option Hook) :
    Except Fault Cursor × Pool σ :=
  let pool := { pool with ledger := pool.ledger.retain head.block.number }
  let (made, pool) := pool.join head other hook
  (made, pool.letGo head.block)

def disposeClone (pool : Pool σ) : Except Fault Cursor → Pool σ
  | .error _ => pool
  | .ok clone => pool.dispose clone

def cutHead (pool : Pool σ) (head tail : Cursor) (position : Nat) :
    Except Fault (Cursor × Cursor) × Pool σ :=
  match head.view.shift.inner? position with
  | none => (.error (.splitUnnamed position), pool.dispose tail)
  | some inner =>
      head.through .shrink (fun fault => (.error fault, pool.dispose tail))
        (match head.view.truncate inner with
          | .error fault => (.error fault, pool.dispose tail)
          | .ok view =>
              let cut := head.withView view
              let pool := pool.resize head.block head.extent cut.extent
              (.ok (cut, tail),
                pool.log (.streamSplit position (position - head.position)
                  (head.position + head.remaining - position))))

/-- Split the remaining bytes at `position`: the cursor keeps those before, a new one gets those
from there on. The cursor walks to the cut to clone its tail and walks back before it is cut. -/
def split (pool : Pool σ) (cursor : Cursor) (position : Nat) :
    Except Fault (Cursor × Cursor) × Pool σ :=
  cursor.through .position (fun fault => (.error fault, pool)) <|
    cursor.through .remaining (fun fault => (.error fault, pool))
      (match cursor.view.splitCheck position with
        | .error fault => (.error fault, pool)
        | .ok () =>
            match pool.seek cursor position with
            | (.error fault, pool) => (.error fault, pool)
            | (.ok moved, pool) =>
                let (clone, pool) := pool.cloneAt moved position
                match pool.seek moved cursor.position, clone with
                | (.error fault, pool), clone => (.error fault, pool.disposeClone clone)
                | (.ok _, pool), .error fault => (.error fault, pool)
                | (.ok back, pool), .ok tail => pool.cutHead back tail position)

end Pool

end SharedStream
