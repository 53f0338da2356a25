import SharedStream.Store.Basic
import SharedStream.Store.Panel
import SharedStream.Store.Script
/-!
The stores that a session can hold, side by side.
-/

namespace SharedStream

/-- One of the stores of this library. -/
inductive StockStore where
  | bytes (store : MemoryStore)
  | probe (store : PanelStore)
  | script (store : ScriptStore)

namespace StockStore

/-- An answer and the next state of one kind of store, as those of the stock. -/
private def lift {σ α : Type} (wrap : σ → StockStore) (answer : α × σ) : α × StockStore :=
  (answer.1, wrap answer.2)

instance : Store StockStore where
  length
    | bytes store => Store.length store
    | probe store => Store.length store
    | script store => Store.length store
  name
    | bytes store => Store.name store
    | probe store => Store.name store
    | script store => Store.name store
  readAt
    | bytes store, position, length => lift bytes (Store.readAt store position length)
    | probe store, position, length => lift probe (Store.readAt store position length)
    | script store, position, length => lift script (Store.readAt store position length)
  release
    | bytes store, position => lift bytes (Store.release store position)
    | probe store, position => lift probe (Store.release store position)
    | script store, position => lift script (Store.release store position)
  drop
    | bytes store => bytes (Store.drop store)
    | probe store => probe (Store.drop store)
    | script store => script (Store.drop store)

def panel? : StockStore → Option Panel
  | probe store => some store.panel
  | _ => none

def label? : StockStore → Option String
  | script store => some store.label
  | _ => none

def changePanel (change : Panel → Panel) : StockStore → StockStore
  | probe store => probe { store with panel := change store.panel }
  | store => store

def extendScript (reads : List ReadAction) (releases : List (Option StoreFailure)) :
    StockStore → StockStore
  | script store => script (store.extend reads releases)
  | store => store

/-- How many read actions are still to be acted out. -/
def pending : StockStore → Nat
  | script store => store.reads.length
  | _ => 0

end StockStore

end SharedStream
