import SharedStream.World
/-!
The same operations on words of 64 bits. Wherever positions and lengths are added or taken away from
each other, the operations given here first make sure that a word can hold the result; they stop if
it cannot, if a name would have to be capped, or if bytes would go beyond the buffer that they are
read into. A sum that is not needed is not made. Sums that are tried before they are used, for the
sake of a refusal, need no such care. The guards of the tables do not calculate and are left out.
-/

namespace SharedStream

namespace Word

/-- The sum of two words, unless it is beyond the largest one. -/
def add? (a b : Nat) : Option Nat := if a + b ≤ maxOffset then some (a + b) else none

/-- What is left of `a` without `b`, unless `b` is more than there is. -/
def sub? (a b : Nat) : Option Nat := if b ≤ a then some (a - b) else none

/-- So many bytes of a buffer from `start` on, unless the buffer ends before them. -/
def slice? (room start length : Nat) : Option Unit := do
  let stop ← add? start length
  if stop ≤ room then some () else none

theorem add?_eq {a b : Nat} (h : a + b ≤ maxOffset) : add? a b = some (a + b) := if_pos h

theorem sub?_eq {a b : Nat} (h : b ≤ a) : sub? a b = some (a - b) := if_pos h

theorem add?_eq_some {a b sum : Nat} (h : add? a b = some sum) : sum = a + b := by
  obtain ⟨-, hsum⟩ := Option.ite_none_right_eq_some.mp h
  exact (Option.some.inj hsum).symm

theorem sub?_eq_some {a b rest : Nat} (h : sub? a b = some rest) : rest = a - b := by
  obtain ⟨-, hrest⟩ := Option.ite_none_right_eq_some.mp h
  exact (Option.some.inj hrest).symm

example : add? maxOffset 1 = none ∧ sub? 0 1 = none ∧ slice? 4 3 2 = none := by decide

theorem slice?_eq {room start length : Nat} (hfits : start + length ≤ room)
    (hword : start + length ≤ maxOffset) : slice? room start length = some () := by
  simp [slice?, add?_eq hword, hfits]

end Word

/-- The outer name of an inner position, unless no word can hold it. -/
def Shift.outer? (shift : Shift) (inner : Nat) : Option Nat :=
  let position := (inner : Int) + shift.amount
  if 0 ≤ position ∧ position ≤ maxOffset then some position.toNat else none

namespace View

def remaining? (view : View) : Option Nat := Word.sub? view.stop view.current

def position? (view : View) : Option Nat := view.shift.outer? view.current

def firstPosition? (view : View) : Option Nat := view.shift.outer? view.first

def stopPosition? (view : View) : Option Nat := view.shift.outer? view.stop

/-- The refusal of a position that is out of sight names both ends of what is in sight. -/
def refuseSeek? (view : View) (position : Nat) : Option (Except Fault View) := do
  let first ← view.firstPosition?
  let stop ← view.stopPosition?
  some (.error (.outsideView position first stop))

def seek? (view : View) (position : Nat) : Option (Except Fault View) :=
  match view.shift.inner? position with
  | some inner =>
      if view.first ≤ inner ∧ inner ≤ view.stop then some (.ok { view with current := inner })
      else view.refuseSeek? position
  | none => view.refuseSeek? position

def wanted? (view : View) (capacity : Nat) : Option (Except Fault (Option Nat)) :=
  if capacity = 0 then some (.error .emptyBuffer)
  else if view.stop ≤ view.current then some (.ok none)
  else do
    let remaining ← view.remaining?
    some (.ok (some (min capacity remaining)))

/-- The refusal to release a byte that is not passed names the current position. -/
def refuseRelease? (view : View) (position : Nat) : Option (Except Fault Nat) := do
  let current ← view.position?
  some (.error (.notPassed position current))

def firstKept? (view : View) (position : Nat) : Option (Except Fault Nat) :=
  match view.shift.inner? position with
  | some inner =>
      if inner < view.current then
        if inner < view.first then some (.error (.alreadyReleased position))
        else do
          let first ← Word.add? inner 1
          some (.ok first)
      else view.refuseRelease? position
  | none => view.refuseRelease? position

def cloneAt? (view : View) (limit offset : Nat) : Option (Except Fault View) := do
  let remaining ← view.remaining?
  if offset + remaining ≤ limit then
    some (.ok ⟨.placing view.current offset, view.current, view.current, view.stop⟩)
  else some (.error (.cloneOverflow offset remaining limit))

def splitCheck? (view : View) (position : Nat) : Option (Except Fault Unit) := do
  let start ← view.position?
  let remaining ← view.remaining?
  let stop := start + remaining
  if maxOffset < stop then some (.error (.endOverflow start remaining))
  else if position = start ∨ position = stop then some (.error (.emptyHalf position start stop))
  else if position < start ∨ stop < position then
    some (.error (.splitOutside position start stop))
  else some (.ok ())

end View

/-- The end of a range is only worked out for one that begins on the left. -/
def Joint.crosses? (joint : Joint) (position length : Nat) : Option Bool :=
  if position < joint.boundary then do
    let stop ← Word.add? position length
    some (decide (joint.boundary < stop))
  else some false

namespace Ledger

/-- The part from `start` up to `stop`, if it is needed. A part without bytes is not one. -/
def part? (ledger : Ledger) (number : Nat) (side : Side) (child : Cursor) (needed : Prop)
    [Decidable needed] (start stop : Nat) : Option (List Part) :=
  if needed then do
    let length ← Word.sub? stop start
    if 0 < length then some [ledger.part number side child start length] else none
  else some []

def parts? (ledger : Ledger) (number : Nat) (joint : Joint) (left right : Block)
    (position length : Nat) : Option (List Part) := do
  let stop ← Word.add? position length
  let rightParts ← ledger.part? number .right (joint.child left right .right)
    (joint.boundary < stop) (max position joint.boundary) stop
  let leftParts ← ledger.part? number .left (joint.child left right .left)
    (position < joint.boundary) position (min stop joint.boundary)
  some (leftParts ++ rightParts)

theorem part?_eq_some {ledger : Ledger} {number : Nat} {side : Side} {child : Cursor}
    {needed : Prop} [Decidable needed] {start stop : Nat} {parts : List Part}
    (h : ledger.part? number side child needed start stop = some parts) :
    parts = if needed then [ledger.part number side child start (stop - start)] else [] := by
  unfold part? at h
  split at h
  · obtain ⟨length, hlength, hpart⟩ := Option.bind_eq_some_iff.mp h
    obtain rfl := Word.sub?_eq_some hlength
    obtain ⟨-, hpart⟩ := Option.ite_none_right_eq_some.mp hpart
    rw [if_pos ‹needed›]
    exact (Option.some.inj hpart).symm
  · rw [if_neg ‹¬ needed›]
    exact (Option.some.inj h).symm

/-- Where the parts can be worked out on words, they are the parts. -/
theorem parts?_eq_some {ledger : Ledger} {number : Nat} {joint : Joint} {left right : Block}
    {position length : Nat} {parts : List Part}
    (h : ledger.parts? number joint left right position length = some parts) :
    parts = ledger.parts number joint left right position length := by
  obtain ⟨stop, hstop, h⟩ := Option.bind_eq_some_iff.mp h
  obtain ⟨rightParts, hright, h⟩ := Option.bind_eq_some_iff.mp h
  obtain ⟨leftParts, hleft, h⟩ := Option.bind_eq_some_iff.mp h
  rw [← Option.some.inj h, part?_eq_some hleft, part?_eq_some hright, Word.add?_eq_some hstop]
  rfl

end Ledger

namespace Backend

variable {σ : Type} [Store σ]

/-- Fill a buffer of `room` bytes of which so many are filled, from a store's position `start`
on. -/
def fill? (backend : Backend σ) (store : StoreRef) (start room filled : Nat) :
    Option (Gathered × Backend σ) :=
  if _ : filled < room then do
    let position ← Word.add? start filled
    let length ← Word.sub? room filled
    match backend.read store position length with
    | (.error failure, backend) => some (⟨[], some failure⟩, backend)
    | (.ok reply, backend) =>
        if _ : reply.count = 0 then some (⟨[], some (Fault.childStarved store.name)⟩, backend)
        else do
          let taken := min reply.count (room - filled)
          let _ ← Word.add? filled taken
          let (rest, backend) ← backend.fill? store start room (filled + taken)
          some (⟨reply.front taken ++ rest.bytes, rest.failure⟩, backend)
  else some (⟨[], none⟩, backend)
termination_by room - filled
decreasing_by omega

def noteCrossing? (backend : Backend σ) (joint : Joint) (position length : Nat) :
    Option (Backend σ) := do
  let crossing ← joint.crosses? position length
  some (if crossing then backend.log (.boundaryRead position length) else backend)

/-- Read the pending parts into a buffer of `room` bytes. -/
def gather? (backend : Backend σ) (ledger : Ledger) (room : Nat) (filled : List UInt8) :
    List Part → Option (Gathered × Backend σ)
  | [] => some (⟨filled, none⟩, backend)
  | .missing side :: _ => some (⟨filled, some (Fault.childRetired side)⟩, backend)
  | .range ⟨block, view⟩ position length :: parts =>
      match Cursor.locate ⟨block, view⟩ position length with
      | .error fault => some (⟨filled, some fault⟩, backend)
      | .ok start =>
          match block with
          | .composed header joint left right => do
              let backend ← backend.noteCrossing? joint start length
              match _hparts : ledger.parts? header.number joint left right start length with
              | none => none
              | some found => gather? backend ledger room filled (found ++ parts)
          | .source _ store => do
              Word.slice? room filled.length length
              let (got, backend) ← backend.fill? store start length 0
              let _ ← Word.add? filled.length got.bytes.length
              match got.failure with
              | some error => some (⟨filled ++ got.bytes, some error⟩, backend)
              | none => gather? backend ledger room (filled ++ got.bytes) parts
termination_by parts => Part.total parts
decreasing_by
  · have := ledger.total_parts header.number joint left right start length
    simp only [Ledger.parts?_eq_some _hparts, Part.total_append, Part.total_cons, Part.weight,
      Block.weight]
    omega
  · simp only [Part.total_cons, Part.weight, Block.weight]
    omega

/-- Read into a buffer of `length` bytes. -/
def readComposed? (backend : Backend σ) (ledger : Ledger) (header : Header) (joint : Joint)
    (left right : Block) (position length : Nat) :
    Option (Except Failure (List UInt8) × Backend σ) := do
  let backend ← backend.noteCrossing? joint position length
  let parts ← ledger.parts? header.number joint left right position length
  let (got, backend) ← backend.gather? ledger length [] parts
  some (backend.settle got)

def readBlock? (backend : Backend σ) (ledger : Ledger) (block : Block) (position wanted : Nat) :
    Option (Except Failure (List UInt8) × Backend σ) :=
  match block with
  | .source _ store => some (backend.ask store position wanted)
  | .composed header joint left right => do
      match ← backend.readComposed? ledger header joint left right position wanted with
      | (.error error, backend) => some (.error error, backend)
      | (.ok bytes, backend) =>
          if bytes.isEmpty then some (.error Fault.compositionStarved, backend)
          else some (.ok bytes, backend)

/-- A store hears of the last byte before the end of a range. -/
def adviseAll? (backend : Backend σ) (ledger : Ledger) :
    List (Cursor × Extent) → Option (Backend σ)
  | [] => some backend
  | (⟨block, view⟩, range) :: ranges =>
      match view.shift.inner? range.start, view.shift.inner? range.stop with
      | some start, some stop =>
          match block with
          | .composed header joint left right =>
              adviseAll? backend ledger
                (ledger.releasedParts header.number joint left right ⟨start, stop⟩ ++ ranges)
          | .source header store => do
              let last ← Word.sub? stop 1
              adviseAll? (backend.advise header.settings store last) ledger ranges
      | _, _ => adviseAll? backend ledger ranges
termination_by ranges => rangesWeight ranges
decreasing_by
  · have := ledger.rangesWeight_releasedParts header.number joint left right ⟨start, stop⟩
    simp only [rangesWeight_append, rangesWeight_cons, Block.weight]
    omega
  · simp only [rangesWeight_cons, Block.weight]
    omega
  · have := block.weight_pos
    simp only [rangesWeight_cons]
    omega

end Backend

namespace Pool

variable {σ : Type}

def seek? (pool : Pool σ) (cursor : Cursor) (position : Nat) :
    Option (Except Fault Cursor × Pool σ) := do
  match ← cursor.view.seek? position with
  | .error fault => some (.error fault, pool)
  | .ok view => some (.ok (cursor.withView view), pool.log (.positionSet position))

variable [Store σ]

def read? (pool : Pool σ) (cursor : Cursor) (capacity : Nat) :
    Option (Except Failure (ReadResult × Cursor) × Pool σ) := do
  match ← cursor.view.wanted? capacity with
  | .error fault => some (.error fault, pool)
  | .ok none => some (.ok (.atEnd, cursor), pool)
  | .ok (some wanted) =>
      Word.slice? capacity 0 wanted
      match ← pool.backend.readBlock? pool.ledger cursor.block cursor.view.current wanted with
      | (.error error, backend) => some (.error error, { pool with backend })
      | (.ok bytes, backend) =>
          let current ← Word.add? cursor.view.current bytes.length
          let moved := cursor.withView { cursor.view with current }
          let position ← moved.view.position?
          some (.ok (.read bytes, moved),
            { pool with backend := backend.log (cursor.block.readEvent bytes.length position) })

def adviseBelow? (pool : Pool σ) (block : Block) (released : Extent) : Option (Pool σ) :=
  match block with
  | .source header store => do
      let last ← Word.sub? released.stop 1
      some { pool with backend := pool.backend.advise header.settings store last }
  | .composed header joint left right => do
      let backend ← pool.backend.adviseAll? pool.ledger
        (pool.ledger.releasedParts header.number joint left right released)
      some { pool with backend }

def release? (pool : Pool σ) (cursor : Cursor) (position : Nat) :
    Option (Except Fault Cursor × Pool σ) := do
  match ← cursor.view.firstKept? position with
  | .error fault => some (.error fault, pool)
  | .ok first =>
      let kept := cursor.withView { cursor.view with first }
      let pool ← pool.adviseBelow? cursor.block ⟨cursor.view.first, first⟩
      some (.ok kept, pool.resize cursor.block cursor.extent kept.extent)

def cloneAt? (pool : Pool σ) (cursor : Cursor) (offset : Nat) :
    Option (Except Fault Cursor × Pool σ) := do
  match ← cursor.view.cloneAt? cursor.block.settings.limit offset with
  | .error fault => some (.error fault, pool)
  | .ok view =>
      let clone := cursor.withView view
      let pool := { pool with ledger := pool.ledger.retain cursor.block.number }
      some (.ok clone, pool.resize cursor.block .empty clone.extent)

def clone? (pool : Pool σ) (cursor : Cursor) : Option (Except Fault Cursor × Pool σ) := do
  let offset ← cursor.view.position?
  pool.cloneAt? cursor offset

def join? (pool : Pool σ) (head other : Cursor) (hook : Option Hook) :
    Option (Except Fault Cursor × Pool σ) := do
  let _ ← head.view.remaining?
  let remaining ← other.view.remaining?
  let limit := head.block.settings.limit
  let start ← head.view.firstPosition?
  let boundary ← head.view.stopPosition?
  let stop := boundary + remaining
  if stop ≤ limit then
    match ← pool.cloneAt? other boundary with
    | (.error fault, pool) => some (.error fault, pool)
    | (.ok tail, pool) =>
        let current ← head.view.position?
        let joint : Joint := ⟨start, boundary, stop, head.view, tail.view⟩
        let (cursor, pool) := pool.compose head tail joint hook
        some (.ok cursor, pool.log (.concatenated boundary stop current))
  else some (.error (.concatOverflow boundary remaining limit), pool)

def concat? (pool : Pool σ) (head other : Cursor) (hook : Option Hook) :
    Option (Except Fault Cursor × Pool σ) := do
  let pool := { pool with ledger := pool.ledger.retain head.block.number }
  let (made, pool) ← pool.join? head other hook
  some (made, pool.letGo head.block)

/-- The lengths of both halves are worked out for the log, when the split is done. -/
def cutHead? (pool : Pool σ) (head tail : Cursor) (position : Nat) :
    Option (Except Fault (Cursor × Cursor) × Pool σ) :=
  match head.view.shift.inner? position with
  | none => some (.error (.splitUnnamed position), pool.dispose tail)
  | some inner =>
      match head.view.truncate inner with
      | .error fault => some (.error fault, pool.dispose tail)
      | .ok view => do
          let cut := head.withView view
          let pool := pool.resize head.block head.extent cut.extent
          let start ← head.view.position?
          let remaining ← head.view.remaining?
          let stop ← Word.add? start remaining
          let before ← Word.sub? position start
          let after ← Word.sub? stop position
          some (.ok (cut, tail), pool.log (.streamSplit position before after))

def split? (pool : Pool σ) (cursor : Cursor) (position : Nat) :
    Option (Except Fault (Cursor × Cursor) × Pool σ) := do
  match ← cursor.view.splitCheck? position with
  | .error fault => some (.error fault, pool)
  | .ok () =>
      let start ← cursor.view.position?
      match ← pool.seek? cursor position with
      | (.error fault, pool) => some (.error fault, pool)
      | (.ok moved, pool) =>
          let (clone, pool) ← pool.cloneAt? moved position
          match ← pool.seek? moved start, clone with
          | (.error fault, pool), clone => some (.error fault, pool.disposeClone clone)
          | (.ok _, pool), .error fault => some (.error fault, pool)
          | (.ok back, pool), .ok tail => pool.cutHead? back tail position

/-- Read until the end or a failure, keeping count of the bytes in a word. -/
def drainWithin? (pool : Pool σ) (cursor : Cursor) (capacity total : Nat) :
    (rounds : Nat) → Option (Drained × Cursor × Pool σ)
  | 0 => some (⟨[], none⟩, cursor, pool)
  | rounds + 1 => do
      match ← pool.read? cursor capacity with
      | (.error error, pool) => some (⟨[], some error⟩, cursor, pool)
      | (.ok (.atEnd, cursor), pool) => some (⟨[], none⟩, cursor, pool)
      | (.ok (.read bytes, cursor), pool) =>
          let total ← Word.add? total bytes.length
          let (rest, cursor, pool) ← drainWithin? pool cursor capacity total rounds
          some (⟨bytes :: rest.chunks, rest.failure⟩, cursor, pool)

def readToEnd? (pool : Pool σ) (cursor : Cursor) : Option (Drained × Cursor × Pool σ) :=
  pool.drainWithin? cursor drainChunk 0 (cursor.remaining + 1)

def readBytes? (pool : Pool σ) (cursor : Cursor) (capacity : Nat) :
    Option (Except Failure (List UInt8 × Cursor) × Pool σ) :=
  if capacity = 0 then some (.ok ([], cursor), pool)
  else do
    match ← pool.read? cursor capacity with
    | (.error error, pool) => some (.error error, pool)
    | (.ok (result, cursor), pool) => some (.ok (result.bytes, cursor), pool)

end Pool

namespace World

variable {σ : Type} [Store σ]

def withCursor? {α : Type} (world : World σ) (id : String)
    (act : Cursor → Option (Except Refusal α × World σ)) :
    Option (Except Refusal α × World σ) :=
  match world.find? id with
  | none => some (.error .noSuchCursor, world)
  | some cursor => act cursor

def claiming? {α : Type} (world : World σ) (id : String)
    (act : Option (Except Refusal α × World σ)) : Option (Except Refusal α × World σ) :=
  if world.isLive id then some (.error .idInUse, world) else act

/-- An operation on words. Making a block, counting its holders, resetting and letting go do not
calculate with positions; they only compare them. -/
def applyInWords (world : World σ) : Operation σ → Option (Except Refusal Answer × World σ)
  | .build id plan => some (world.apply (.build id plan))
  | .position id => world.withCursor? id fun cursor => do
      let position ← cursor.view.position?
      some (.ok (.number position), world)
  | .remaining id => world.withCursor? id fun cursor => do
      let remaining ← cursor.view.remaining?
      some (.ok (.number remaining), world)
  | .refs id => some (world.apply (.refs id))
  | .setPosition id position => world.withCursor? id fun cursor => do
      let outcome ← world.pool.seek? cursor position
      some (world.settleMoved id outcome)
  | .reset id => some (world.apply (.reset id))
  | .read id capacity => world.withCursor? id fun cursor => do
      match ← world.pool.read? cursor capacity with
      | (.error error, pool) => some (.error error, world.withPool pool)
      | (.ok (result, cursor), pool) =>
          some (.ok (.read result), (world.withPool pool).update id cursor)
  | .release id position => world.withCursor? id fun cursor => do
      let outcome ← world.pool.release? cursor position
      some (world.settleMoved id outcome)
  | .cloneAt id target offset => world.claiming? target <| world.withCursor? id fun cursor => do
      let outcome ← world.pool.cloneAt? cursor offset
      some (world.settleNew target outcome)
  | .clone id target => world.claiming? target <| world.withCursor? id fun cursor => do
      let outcome ← world.pool.clone? cursor
      some (world.settleNew target outcome)
  | .split id target position => world.claiming? target <| world.withCursor? id fun cursor => do
      match ← world.pool.split? cursor position with
      | (.error fault, pool) => some (.error fault, world.withPool pool)
      | (.ok (head, tail), pool) =>
          some (.ok .done, ((world.withPool pool).update id head).add target tail)
  | .concat id other hook => world.withCursor? id fun head =>
      if id = other then some (.error .selfConcat, world)
      else world.withCursor? other fun tail => do
        let outcome ← world.pool.concat? head tail hook
        some (world.settleMoved id outcome)
  | .dispose id => some (world.apply (.dispose id))

end World

end SharedStream
