import SharedStream.Store.Basic
import SharedStream.World
/-!
What cursors are to those who use them: lists of bytes with a position, each for itself. Nothing is
shared here, there are no blocks and no stores: every clone, split and concatenation copies its
bytes.
-/

namespace SharedStream

/-- Bytes at the positions from `first` on, with `position` as the next one to be read. No position
may be larger than `limit`. -/
structure Stretch where
  first : Nat
  position : Nat
  bytes : List UInt8
  limit : Nat

namespace Stretch

/-- The position after the last byte. -/
def stop (stretch : Stretch) : Nat := stretch.first + stretch.bytes.length

def remaining (stretch : Stretch) : Nat := stretch.stop - stretch.position

/-- The bytes from the current position on. -/
def ahead (stretch : Stretch) : List UInt8 :=
  stretch.bytes.drop (stretch.position - stretch.first)

/-- The positions are in order and allowed. -/
structure Placed (stretch : Stretch) : Prop where
  first_le : stretch.first ≤ stretch.position
  position_le : stretch.position ≤ stretch.stop
  stop_le : stretch.stop ≤ stretch.limit

/-- All bytes of a new block. Whatever is refused, here and below, is refused with one of the given
kinds of failure. -/
def build (plan : Blueprint MemoryStore) : Except (List FailureKind) Stretch :=
  if 0 < plan.settings.limit ∧ 0 < plan.store.data.length ∧
      plan.store.data.length ≤ plan.settings.limit then
    .ok ⟨0, 0, plan.store.data.toList, plan.settings.limit⟩
  else .error [.illegalArgument]

def seek (stretch : Stretch) (position : Nat) : Except (List FailureKind) Stretch :=
  if stretch.first ≤ position ∧ position ≤ stretch.stop then .ok { stretch with position }
  else .error [.notFound]

def reset (stretch : Stretch) : Except (List FailureKind) Stretch :=
  if stretch.bytes = [] then .error [.notFound]
  else .ok { stretch with position := stretch.first }

/-- The next bytes, as many as there is room for. -/
def read (stretch : Stretch) (capacity : Nat) :
    Except (List FailureKind) (ReadResult × Stretch) :=
  if capacity = 0 then .error [.illegalArgument]
  else if stretch.position = stretch.stop then .ok (.atEnd, stretch)
  else
    let count := min capacity stretch.remaining
    .ok (.read (stretch.ahead.take count),
      { stretch with position := stretch.position + count })

/-- Give up the bytes through `position`, all of which must have been passed. A byte that was given
up before may or may not be remembered as such. -/
def release (stretch : Stretch) (position : Nat) : Except (List FailureKind) Stretch :=
  if stretch.position ≤ position then .error [.illegalArgument]
  else if position < stretch.first then .error [.notFound, .illegalArgument]
  else
    .ok
      { stretch with
          first := position + 1
          bytes := stretch.bytes.drop (position + 1 - stretch.first) }

/-- The bytes ahead, from `offset` on. -/
def cloneAt (stretch : Stretch) (offset : Nat) : Except (List FailureKind) Stretch :=
  if offset + stretch.remaining ≤ stretch.limit then
    .ok ⟨offset, offset, stretch.ahead, stretch.limit⟩
  else .error [.illegalArgument]

/-- The bytes before `position`, and those ahead from there on. Both must have some to read. -/
def split (stretch : Stretch) (position : Nat) :
    Except (List FailureKind) (Stretch × Stretch) :=
  if position = stretch.position ∨ position = stretch.stop then .error [.illegalArgument]
  else if position < stretch.position ∨ stretch.stop < position then .error [.notFound]
  else
    .ok ({ stretch with bytes := stretch.bytes.take (position - stretch.first) },
      ⟨position, position, stretch.bytes.drop (position - stretch.first), stretch.limit⟩)

/-- The bytes of a stretch, followed by those ahead in another. -/
def concat (stretch other : Stretch) : Except (List FailureKind) Stretch :=
  if stretch.stop + other.remaining ≤ stretch.limit ∧
      stretch.stop + other.remaining ≤ other.limit then
    .ok { stretch with bytes := stretch.bytes ++ other.ahead }
  else .error [.illegalArgument]

end Stretch

/-- What an operation has to come to. -/
inductive Verdict where
  | answer (answer : Answer)
  /-- Some number that bytes alone do not settle. -/
  | someNumber
  | refusal (refusal : Refusal)
  | failure (kinds : List FailureKind)

/-- What came of an operation is what had to. -/
def Verdict.Allows : Verdict → Except Refusal Answer → Prop
  | answer expected, .ok actual => actual = expected
  | someNumber, .ok (.number _) => True
  | refusal expected, .error actual => actual = expected
  | failure kinds, .error (.failed error) => error.kind ∈ kinds
  | _, _ => False

/-- Stretches by name, as a world has cursors. -/
structure Plain where
  cursors : List (String × Stretch) := []

namespace Plain

def find? (plain : Plain) (id : String) : Option Stretch := plain.cursors.lookup id

def add (plain : Plain) (id : String) (stretch : Stretch) : Plain :=
  ⟨plain.cursors ++ [(id, stretch)]⟩

def update (plain : Plain) (id : String) (stretch : Stretch) : Plain :=
  ⟨plain.cursors.map fun entry => if entry.1 = id then (id, stretch) else entry⟩

def remove (plain : Plain) (id : String) : Plain :=
  ⟨plain.cursors.filter fun entry => entry.1 ≠ id⟩

def withCursor (plain : Plain) (id : String) (act : Stretch → Verdict × Plain) :
    Verdict × Plain :=
  match plain.find? id with
  | none => (.refusal .noSuchCursor, plain)
  | some stretch => act stretch

def claiming (plain : Plain) (id : String) (act : Verdict × Plain) : Verdict × Plain :=
  if (plain.find? id).isSome then (.refusal .idInUse, plain) else act

def settleNew (plain : Plain) (id : String) :
    Except (List FailureKind) Stretch → Verdict × Plain
  | .error kinds => (.failure kinds, plain)
  | .ok stretch => (.answer .done, plain.add id stretch)

def settleMoved (plain : Plain) (id : String) :
    Except (List FailureKind) Stretch → Verdict × Plain
  | .error kinds => (.failure kinds, plain)
  | .ok stretch => (.answer .done, plain.update id stretch)

/-- Do what is asked, on lists of bytes. -/
def apply (plain : Plain) : Operation MemoryStore → Verdict × Plain
  | .build id plan => plain.claiming id (plain.settleNew id (Stretch.build plan))
  | .position id => plain.withCursor id fun stretch =>
      (.answer (.number stretch.position), plain)
  | .remaining id => plain.withCursor id fun stretch =>
      (.answer (.number stretch.remaining), plain)
  | .refs id => plain.withCursor id fun _ => (.someNumber, plain)
  | .setPosition id position => plain.withCursor id fun stretch =>
      plain.settleMoved id (stretch.seek position)
  | .reset id => plain.withCursor id fun stretch => plain.settleMoved id stretch.reset
  | .read id capacity => plain.withCursor id fun stretch =>
      match stretch.read capacity with
      | .error kinds => (.failure kinds, plain)
      | .ok (result, stretch) => (.answer (.read result), plain.update id stretch)
  | .release id position => plain.withCursor id fun stretch =>
      plain.settleMoved id (stretch.release position)
  | .cloneAt id target offset => plain.claiming target <| plain.withCursor id fun stretch =>
      plain.settleNew target (stretch.cloneAt offset)
  | .clone id target => plain.claiming target <| plain.withCursor id fun stretch =>
      plain.settleNew target (stretch.cloneAt stretch.position)
  | .split id target position => plain.claiming target <| plain.withCursor id fun stretch =>
      match stretch.split position with
      | .error kinds => (.failure kinds, plain)
      | .ok (head, tail) => (.answer .done, (plain.update id head).add target tail)
  | .concat id other _ => plain.withCursor id fun head =>
      if id = other then (.refusal .selfConcat, plain)
      else plain.withCursor other fun tail => plain.settleMoved id (head.concat tail)
  | .dispose id => plain.withCursor id fun _ => (.answer .done, plain.remove id)

def run (plain : Plain) (operations : List (Operation MemoryStore)) : Plain :=
  operations.foldl (fun plain operation => (plain.apply operation).2) plain

end Plain

end SharedStream
