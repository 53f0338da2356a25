import SharedStream.Description
import SharedStream.Session.Step
/-!
The state of a session, and what each step does to it.
-/

namespace SharedStream.Session

/-- The cursors of a session, and the names of what stands behind them. -/
structure State where
  world : World StockStore := {}
  /-- The latest store with a fault panel made under each name, by its number. -/
  probes : List (String × Nat) := []
  /-- The latest scripted store made under each name, by its number. -/
  scripts : List (String × Nat) := []
  /-- The latest counter made under each name, by its number. -/
  counters : List (String × Nat) := []

def rename (names : List (String × Nat)) (id : String) (number : Nat) : List (String × Nat) :=
  (id, number) :: names.filter fun entry => entry.1 ≠ id

/-- How often a counter was run by hooks of one kind. -/
def tallyOf (journal : Array Event) (counter : Nat) (role : HookRole) : Nat :=
  journal.toList.countP fun event =>
    match event with
    | .hookRan _ ran (.tally number) => ran == role && number == counter
    | _ => false

def HookChoice.hooks (choice : HookChoice) (id : String) (counter : Nat) :
    Option Hook × Option Hook :=
  match choice with
  | .none => (.none, .none)
  | .data => (some (.announce id), .none)
  | .block => (.none, some (.announce id))
  | .both => (some (.announce id), some (.announce id))
  | .counter => (some (.tally counter), some (.tally counter))

namespace State

def pool (state : State) : Pool StockStore := state.world.pool

def journal (state : State) : Array Event := state.pool.backend.journal

def withWorld (state : State) (world : World StockStore) : State := { state with world }

def freshCounter (state : State) : Nat :=
  state.counters.foldl (fun bound entry => max bound (entry.2 + 1)) 0

def register (state : State) (id : String) (store : StockStore) : State :=
  let number := state.pool.backend.stores.size
  match store with
  | .bytes _ => state
  | .probe _ => { state with probes := rename state.probes id number }
  | .script _ => { state with scripts := rename state.scripts id number }

def pending (state : State) : Nat :=
  state.pool.backend.stores.foldl (fun sum store => sum + store.pending) 0

/-- Reach for a store behind the cursors. -/
def changeStore (state : State) (number : Nat) (change : StockStore → StockStore) : State :=
  let backend := state.pool.backend
  state.withWorld
    (state.world.withPool
      { state.pool with
          backend := { backend with stores := backend.stores.modify number change } })

def panel? (state : State) (number : Nat) : Option Panel :=
  (state.pool.backend.stores[number]?).bind StockStore.panel?

def withCursor (state : State) (id : String) (act : Cursor → Outcome × State) :
    Outcome × State :=
  match state.world.find? id with
  | none => (.refused .noSuchCursor, state)
  | some cursor => act cursor

def moved (state : State) (id : String) (cursor : Cursor) (pool : Pool StockStore) : State :=
  state.withWorld ((state.world.withPool pool).update id cursor)

def operate (state : State) (op : Operation StockStore) : Outcome × State :=
  match state.world.apply op with
  | (.error refusal, world) => (.refused refusal, state.withWorld world)
  | (.ok .done, world) => (.done, state.withWorld world)
  | (.ok (.number n), world) => (.number n, state.withWorld world)
  | (.ok (.read result), world) => (.read result, state.withWorld world)

/-- Make a block over a store. Its settings are read before there is a store at all. -/
def new (state : State) (id : String) (store : StockStore) (settings : SettingsSource)
    (choice : HookChoice) : Outcome × State :=
  if state.world.isLive id then (.refused .idInUse, state)
  else
    match settings.resolve with
    | .error fault => (.refused fault, state)
    | .ok settings =>
        let counter := state.freshCounter
        let (dataHook, blockHook) := choice.hooks id counter
        let state := state.register id store
        let state :=
          if choice = .counter then { state with counters := rename state.counters id counter }
          else state
        state.operate (.build id { store, settings, dataHook, blockHook })

/-- Describe a block over a store that is not made; the store is dropped. -/
def describePlan (state : State) (id : String) (store : StockStore) (settings : SettingsSource) :
    Outcome × State :=
  match settings.resolve with
  | .error fault => (.refused fault, state)
  | .ok settings =>
      let state := state.register id store
      let plan : Blueprint StockStore := { store, settings }
      (.text plan.describe,
        state.withWorld (state.world.withPool (state.pool.discardStore store)))

/-- Append one block for each byte to a cursor; `links` counts those appended before. The cursor
over a block of its own is disposed of as soon as the block is appended, or was refused. -/
def chainFrom (pool : Pool StockStore) (head : Cursor) (label : Nat → Option String) :
    (links : Nat) → List UInt8 → Except Fault Nat × Cursor × Pool StockStore
  | links, [] => (.ok links, head, pool)
  | links, byte :: bytes =>
      let store := StockStore.bytes ⟨Data.ofArray #[byte]⟩
      match pool.build { store, dataHook := (label links).map Hook.announce } with
      | (.error fault, pool) => (.error fault, head, pool)
      | (.ok link, pool) =>
          match pool.concat head link .none with
          | (.error fault, pool) => (.error fault, head, pool.dispose link)
          | (.ok head, pool) => chainFrom (pool.dispose link) head label (links + 1) bytes

def chain (state : State) (id : String) (bytes : List UInt8) (announce : Bool) :
    Outcome × State :=
  state.withCursor id fun cursor =>
    let label (link : Nat) : Option String :=
      if announce then some (id ++ "." ++ toString link) else .none
    let (result, cursor, pool) := chainFrom state.pool cursor label 0 bytes
    (match result with
      | .ok links => .links links
      | .error fault => .refused fault,
      state.moved id cursor pool)

def exactOutcome (result : ExactRead) : Outcome :=
  match result.outcome with
  | .filled => .bytes result.bytes
  | .endReached => .unexpectedEnd
  | .brokenOff => .brokenOff
  | .failed error => .ioFailed error

def perform (state : State) : Step → Outcome × State
  | .new id store settings hooks => state.new id store settings hooks
  | .describePlan id store settings => state.describePlan id store settings
  | .operation op => state.operate op
  | .describe id => state.withCursor id fun cursor => (.text (state.pool.describe cursor), state)
  | .readAll id capacity => state.withCursor id fun cursor =>
      let (result, cursor, pool) := state.pool.drain cursor capacity
      (.drained result, state.moved id cursor pool)
  | .readToEnd id before => state.withCursor id fun cursor =>
      let (result, cursor, pool) := state.pool.readToEnd cursor
      (.total before result, state.moved id cursor pool)
  | .readBytes id capacity => state.withCursor id fun cursor =>
      match state.pool.readBytes cursor capacity with
      | (.error error, pool) => (.ioFailed error, state.withWorld (state.world.withPool pool))
      | (.ok (bytes, cursor), pool) => (.bytes bytes, state.moved id cursor pool)
  | .readExact id wanted => state.withCursor id fun cursor =>
      let (result, cursor, pool) := state.pool.readExact cursor wanted state.pending
      (exactOutcome result, state.moved id cursor pool)
  | .chain id bytes announce => state.chain id bytes announce
  | .probe id change =>
      match state.probes.lookup id with
      | none => (.noSuchGauge, state)
      | some number =>
          let state := state.changeStore number (StockStore.changePanel change.apply)
          ((state.panel? number).elim .noSuchGauge .panel, state)
  | .script id reads releases =>
      match state.scripts.lookup id with
      | none => (.noSuchGauge, state)
      | some number =>
          (.done, state.changeStore number (StockStore.extendScript reads releases))
  | .counter id =>
      match state.counters.lookup id with
      | none => (.noSuchGauge, state)
      | some number =>
          let tally := tallyOf state.journal number
          (.counts (tally .data) (tally .block), state)

end State

end SharedStream.Session
