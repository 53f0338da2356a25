import SharedStream.Cursor.Reading
/-!
Reading in loops: to the end in chunks, and exactly so many bytes through the plain byte reader.
-/

namespace SharedStream

/-- The chunks that a loop of reads delivered, and the failure that ended it; without one it ran to
the end. -/
structure Drained where
  chunks : List (List UInt8)
  failure : Option Failure

def Drained.bytes (drained : Drained) : List UInt8 := drained.chunks.flatten

/-- How an attempt to read an exact number of bytes ended. -/
inductive ExactEnd where
  | filled
  | endReached
  | failed (error : Failure)
  | brokenOff

/-- The bytes of an exact read, all of which are consumed, and how it ended. -/
structure ExactRead where
  bytes : List UInt8
  outcome : ExactEnd

namespace Pool

variable {σ : Type} [Store σ]

/-- Read with a buffer of `capacity` bytes until the end or a failure, at most `rounds` times. -/
def drainWithin (pool : Pool σ) (cursor : Cursor) (capacity : Nat) :
    (rounds : Nat) → Drained × Cursor × Pool σ
  | 0 => (⟨[], none⟩, cursor, pool)
  | rounds + 1 =>
      match pool.read cursor capacity with
      | (.error error, pool) => (⟨[], some error⟩, cursor, pool)
      | (.ok (.atEnd, cursor), pool) => (⟨[], none⟩, cursor, pool)
      | (.ok (.read bytes, cursor), pool) =>
          let (rest, cursor, pool) := drainWithin pool cursor capacity rounds
          (⟨bytes :: rest.chunks, rest.failure⟩, cursor, pool)

/-- Read with a buffer of `capacity` bytes until the end or a failure. Every read but the last
delivers a byte, so there is one round for each remaining byte and one for the end. -/
def drain (pool : Pool σ) (cursor : Cursor) (capacity : Nat) : Drained × Cursor × Pool σ :=
  pool.drainWithin cursor capacity (cursor.remaining + 1)

def drainChunk : Nat := 4096

def readToEnd (pool : Pool σ) (cursor : Cursor) : Drained × Cursor × Pool σ :=
  pool.drain cursor drainChunk

/-- The plain byte reader: no room and no bytes left are both an empty answer. -/
def readBytes (pool : Pool σ) (cursor : Cursor) (capacity : Nat) :
    Except Failure (List UInt8 × Cursor) × Pool σ :=
  if capacity = 0 then (.ok ([], cursor), pool)
  else
    match pool.read cursor capacity with
    | (.error error, pool) => (.error error, pool)
    | (.ok (result, cursor), pool) => (.ok (result.bytes, cursor), pool)

/-- Read exactly `wanted` bytes with the plain byte reader in at most `rounds` rounds. An
interruption is tried again. -/
def readExactWithin (pool : Pool σ) (cursor : Cursor) (wanted : Nat) :
    (rounds : Nat) → ExactRead × Cursor × Pool σ
  | 0 => (⟨[], if wanted = 0 then .filled else .brokenOff⟩, cursor, pool)
  | rounds + 1 =>
      if wanted = 0 then (⟨[], .filled⟩, cursor, pool)
      else
        match pool.readBytes cursor wanted with
        | (.error error, pool) =>
            if error.ioKind = .interrupted then readExactWithin pool cursor wanted rounds
            else (⟨[], .failed error⟩, cursor, pool)
        | (.ok ([], cursor), pool) => (⟨[], .endReached⟩, cursor, pool)
        | (.ok (bytes, cursor), pool) =>
            let (rest, cursor, pool) :=
              readExactWithin pool cursor (wanted - bytes.length) rounds
            (⟨bytes ++ rest.bytes, rest.outcome⟩, cursor, pool)

/-- Read exactly `wanted` bytes, putting up with so many interruptions. -/
def readExact (pool : Pool σ) (cursor : Cursor) (wanted interruptions : Nat) :
    ExactRead × Cursor × Pool σ :=
  pool.readExactWithin cursor wanted (wanted + interruptions + 1)

end Pool

end SharedStream
