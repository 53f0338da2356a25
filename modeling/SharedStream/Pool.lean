import SharedStream.Event
import SharedStream.Ledger
import SharedStream.Store.Basic
/-!
Everything that changes: the stores in use, the journal of everything that happened, and the books
on the blocks. Each request to a store is noted in the journal together with its answer, so what a
reader asked for can be read off afterwards.
-/

namespace SharedStream

/-- The stores, and what was asked of them and happened around them, in order. -/
structure Backend (σ : Type) where
  /-- Every store ever used, by number. -/
  stores : Array σ := #[]
  journal : Array Event := #[]

namespace Backend

variable {σ : Type}

def log (backend : Backend σ) (event : Event) : Backend σ :=
  { backend with journal := backend.journal.push event }

def add (backend : Backend σ) (store : σ) : Backend σ :=
  { backend with stores := backend.stores.push store }

def runHook (backend : Backend σ) (block : Nat) (role : HookRole) : Option Hook → Backend σ
  | none => backend
  | some hook => backend.log (.hookRan block role hook)

variable [Store σ]

/-- Ask a store for `length` bytes from `position` on. A number that belongs to no store delivers
nothing. -/
def read (backend : Backend σ) (store : StoreRef) (position length : Nat) :
    Except StoreFailure Reply × Backend σ :=
  match backend.stores[store.number]? with
  | none => (.ok (Reply.honest []), backend)
  | some state =>
      let (answer, state) := Store.readAt state position length
      (answer,
        { backend with
            stores := backend.stores.setIfInBounds store.number state
            journal := backend.journal.push
              (.storeRead store.number position length (answer.map Reply.count)) })

/-- Tell a store that the bytes up to and with `position` are not needed. -/
def hint (backend : Backend σ) (store : StoreRef) (position : Nat) :
    Except StoreFailure Unit × Backend σ :=
  match backend.stores[store.number]? with
  | none => (.ok (), backend)
  | some state =>
      let (answer, state) := Store.release state position
      (answer,
        { backend with
            stores := backend.stores.setIfInBounds store.number state
            journal := backend.journal.push (.storeHinted store.number position) })

/-- Drop a store. Its last state stays readable. -/
def drop (backend : Backend σ) (store : StoreRef) : Backend σ :=
  { backend with
      stores := backend.stores.modify store.number Store.drop
      journal := backend.journal.push (.storeDropped store.number) }

end Backend

/-- The changing part of a set of blocks over stores with states in `σ`. -/
structure Pool (σ : Type) where
  ledger : Ledger := {}
  backend : Backend σ := {}

namespace Pool

variable {σ : Type}

def log (pool : Pool σ) (event : Event) : Pool σ :=
  { pool with backend := pool.backend.log event }

def refs (pool : Pool σ) (cursor : Cursor) : Nat := pool.ledger.refs cursor.block.number

end Pool

end SharedStream
