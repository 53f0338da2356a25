import SharedStream.Store.Stock
/-!
Asking a store directly, without a block over it.
-/

namespace SharedStream

namespace StockStore

/-- What a store can be asked. -/
inductive Request where
  | info
  /-- Ask for bytes into a buffer of `length` bytes that were marked before. -/
  | read (position length : Nat)
  | release (position : Nat)
  | panel (change : Panel → Panel)

/-- What it answers. -/
inductive Response where
  | info (length : Nat) (name : String)
  /-- The count that was claimed, and the whole buffer. -/
  | read (count : Nat) (buffer : List UInt8)
  | accepted
  | failed (failure : StoreFailure)
  | panel (panel : Panel)
  | noPanel

def marker : UInt8 := 0xEE

def respond (store : StockStore) : Request → Response × StockStore
  | .info => (.info (Store.length store) (Store.name store), store)
  | .read position length =>
      match Store.readAt store position length with
      | (.ok reply, store) =>
          (.read reply.count
            (reply.bytes ++ List.replicate (length - reply.bytes.length) marker), store)
      | (.error failure, store) => (.failed failure, store)
  | .release position =>
      match Store.release store position with
      | (.ok (), store) => (.accepted, store)
      | (.error failure, store) => (.failed failure, store)
  | .panel change =>
      let store := store.changePanel change
      (store.panel?.elim .noPanel .panel, store)

/-- Make requests one after another, and drop the store in the end. -/
def trial (store : StockStore) : List Request → List Response × StockStore
  | [] => ([], Store.drop store)
  | request :: requests =>
      let (response, store) := store.respond request
      let (responses, store) := store.trial requests
      (response :: responses, store)

end StockStore

end SharedStream
