import SharedStream.Cursor.Moving
import SharedStream.Gathering
/-!
Reading through a cursor. A read delivers at least one byte and no more than was asked for, or says
that the end is reached, or fails and moves nothing.
-/

namespace SharedStream

/-- What a read that does not fail gives. The end of the stream is no failure. -/
inductive ReadResult where
  | atEnd
  | read (bytes : List UInt8)
deriving DecidableEq

/-- The bytes that a read delivered; at the end there are none. -/
def ReadResult.bytes : ReadResult → List UInt8
  | atEnd => []
  | read bytes => bytes

/-- How many bytes a read into a buffer of `capacity` bytes asks for; `none` at the end. A buffer
without room is refused even there. -/
def View.wanted (view : View) (capacity : Nat) : Except Fault (Option Nat) :=
  if capacity = 0 then .error .emptyBuffer
  else if view.stop ≤ view.current then .ok none
  else .ok (some (min capacity view.remaining))

def Cursor.advance (cursor : Cursor) (count : Nat) : Cursor :=
  cursor.withView { cursor.view with current := cursor.view.current + count }

namespace Backend

variable {σ : Type} [Store σ]

/-- One request to a store on behalf of a cursor. A count of nothing, or of more than was asked
for, is a failure of the store. -/
def ask (backend : Backend σ) (store : StoreRef) (position wanted : Nat) :
    Except Failure (List UInt8) × Backend σ :=
  match backend.read store position wanted with
  | (.error failure, backend) => (.error failure, backend)
  | (.ok reply, backend) =>
      if reply.count = 0 ∨ wanted < reply.count then
        (.error (Fault.badCount store.name reply.count wanted), backend)
      else (.ok (reply.front reply.count), backend)

def readBlock (backend : Backend σ) (ledger : Ledger) (block : Block)
    (position wanted : Nat) : Except Failure (List UInt8) × Backend σ :=
  match block with
  | .source _ store => backend.ask store position wanted
  | .composed header joint left right =>
      match backend.readComposed ledger header joint left right position wanted with
      | (.error error, backend) => (.error error, backend)
      | (.ok bytes, backend) =>
          if bytes.isEmpty then (.error Fault.compositionStarved, backend)
          else (.ok bytes, backend)

end Backend

namespace Block

def readEvent (block : Block) (copied position : Nat) : Event :=
  match block with
  | source _ store => .sourceRead store.name copied position
  | composed _ _ _ _ => .composedRead copied position

end Block

namespace Pool

variable {σ : Type} [Store σ]

def read (pool : Pool σ) (cursor : Cursor) (capacity : Nat) :
    Except Failure (ReadResult × Cursor) × Pool σ :=
  cursor.through .read (fun fault => (.error fault, pool))
    (match cursor.view.wanted capacity with
      | .error fault => (.error fault, pool)
      | .ok none => (.ok (.atEnd, cursor), pool)
      | .ok (some wanted) =>
          match pool.backend.readBlock pool.ledger cursor.block cursor.view.current wanted with
          | (.error error, backend) => (.error error, { pool with backend })
          | (.ok bytes, backend) =>
              let moved := cursor.advance bytes.length
              (.ok (.read bytes, moved),
                { pool with
                    backend := backend.log (cursor.block.readEvent bytes.length moved.position) }))

end Pool

end SharedStream
