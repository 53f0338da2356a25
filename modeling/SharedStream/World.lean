import SharedStream.Cursor.Draining
import SharedStream.Cursor.Making
import SharedStream.Cursor.Moving
/-!
Any number of cursors over one pool, each under a name, and the operations on them. An operation
that is refused leaves every cursor as it was.
-/

namespace SharedStream

/-- The live cursors and the pool that they share. -/
structure World (σ : Type) where
  pool : Pool σ := {}
  /-- The live cursors by name, in the order in which they were made. -/
  cursors : List (String × Cursor) := []

/-- What can be asked of a world. The first name is that of the cursor in question. -/
inductive Operation (σ : Type) where
  | build (id : String) (plan : Blueprint σ)
  | position (id : String)
  | remaining (id : String)
  | refs (id : String)
  | setPosition (id : String) (position : Nat)
  | reset (id : String)
  | read (id : String) (capacity : Nat)
  | release (id : String) (position : Nat)
  | cloneAt (id target : String) (offset : Nat)
  | clone (id target : String)
  | split (id target : String) (position : Nat)
  | concat (id other : String) (hook : Option Hook)
  | dispose (id : String)

/-- What an operation gives. -/
inductive Answer where
  | done
  | number (n : Nat)
  | read (result : ReadResult)
deriving DecidableEq

/-- Why an operation gives nothing. -/
inductive Refusal where
  | noSuchCursor
  | idInUse
  | selfConcat
  | failed (error : Failure)
deriving DecidableEq

namespace Refusal

instance : Coe Failure Refusal := ⟨failed⟩

instance : Coe Fault Refusal := ⟨fun fault => failed fault⟩

end Refusal

namespace World

variable {σ : Type} [Store σ]

def find? (world : World σ) (id : String) : Option Cursor := world.cursors.lookup id

def isLive (world : World σ) (id : String) : Bool := (world.find? id).isSome

def withPool (world : World σ) (pool : Pool σ) : World σ := { world with pool }

def add (world : World σ) (id : String) (cursor : Cursor) : World σ :=
  { world with cursors := world.cursors ++ [(id, cursor)] }

def update (world : World σ) (id : String) (cursor : Cursor) : World σ :=
  { world with
      cursors := world.cursors.map fun entry => if entry.1 = id then (id, cursor) else entry }

def remove (world : World σ) (id : String) : World σ :=
  { world with cursors := world.cursors.filter fun entry => entry.1 ≠ id }

def withCursor {α : Type} (world : World σ) (id : String)
    (act : Cursor → Except Refusal α × World σ) : Except Refusal α × World σ :=
  match world.find? id with
  | none => (.error .noSuchCursor, world)
  | some cursor => act cursor

@[macro_inline] def claiming {α : Type} (world : World σ) (id : String)
    (act : Except Refusal α × World σ) : Except Refusal α × World σ :=
  if world.isLive id then (.error .idInUse, world) else act

def settleNew (world : World σ) (id : String) :
    Except Fault Cursor × Pool σ → Except Refusal Answer × World σ
  | (.error fault, pool) => (.error fault, world.withPool pool)
  | (.ok cursor, pool) => (.ok .done, (world.withPool pool).add id cursor)

def settleMoved (world : World σ) (id : String) :
    Except Fault Cursor × Pool σ → Except Refusal Answer × World σ
  | (.error fault, pool) => (.error fault, world.withPool pool)
  | (.ok cursor, pool) => (.ok .done, (world.withPool pool).update id cursor)

def apply (world : World σ) : Operation σ → Except Refusal Answer × World σ
  | .build id plan => world.claiming id (world.settleNew id (world.pool.build plan))
  | .position id => world.withCursor id fun cursor =>
      cursor.through .position (fun fault => (.error fault, world))
        (.ok (.number cursor.position), world)
  | .remaining id => world.withCursor id fun cursor =>
      cursor.through .remaining (fun fault => (.error fault, world))
        (.ok (.number cursor.remaining), world)
  | .refs id => world.withCursor id fun cursor => (.ok (.number (world.pool.refs cursor)), world)
  | .setPosition id position => world.withCursor id fun cursor =>
      world.settleMoved id (world.pool.seek cursor position)
  | .reset id => world.withCursor id fun cursor => world.settleMoved id (cursor.reset, world.pool)
  | .read id capacity => world.withCursor id fun cursor =>
      match world.pool.read cursor capacity with
      | (.error error, pool) => (.error error, world.withPool pool)
      | (.ok (result, cursor), pool) =>
          (.ok (.read result), (world.withPool pool).update id cursor)
  | .release id position => world.withCursor id fun cursor =>
      world.settleMoved id (world.pool.release cursor position)
  | .cloneAt id target offset => world.claiming target <| world.withCursor id fun cursor =>
      world.settleNew target (world.pool.cloneAt cursor offset)
  | .clone id target => world.claiming target <| world.withCursor id fun cursor =>
      world.settleNew target (world.pool.clone cursor)
  | .split id target position => world.claiming target <| world.withCursor id fun cursor =>
      match world.pool.split cursor position with
      | (.error fault, pool) => (.error fault, world.withPool pool)
      | (.ok (head, tail), pool) =>
          (.ok .done, ((world.withPool pool).update id head).add target tail)
  | .concat id other hook => world.withCursor id fun head =>
      if id = other then (.error .selfConcat, world)
      else world.withCursor other fun tail =>
        world.settleMoved id (world.pool.concat head tail hook)
  | .dispose id => world.withCursor id fun cursor =>
      match world.pool.tryDispose cursor with
      | (.error fault, pool) => (.error fault, (world.withPool pool).remove id)
      | (.ok (), pool) => (.ok .done, (world.withPool pool).remove id)

/-- Run operations one after another, whether they are refused or not. -/
def run (world : World σ) (operations : List (Operation σ)) : World σ :=
  operations.foldl (fun world operation => (world.apply operation).2) world

end World

end SharedStream
