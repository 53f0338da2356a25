import SharedStream.Store.Basic
/-!
Bytes in memory behind a fault panel: reads fail from a chosen position on or come in small chunks,
and the panel keeps account of what the store was asked and told.
-/

namespace SharedStream

/-- Controls and gauges of a probe store. -/
structure Panel where
  /-- Reads at this position or beyond it fail; `maxOffset` stands for no injected failure. -/
  failFrom : Nat := maxOffset
  chunkLimit : Nat := maxOffset
  reads : Nat := 0
  hints : Array Nat := #[]
  /-- Whether the block over the store is gone. -/
  dropped : Bool := false
deriving DecidableEq

namespace Panel

def breakFrom (panel : Panel) (position : Nat) : Panel :=
  { panel with failFrom := position }

def heal (panel : Panel) : Panel := { panel with failFrom := maxOffset }

/-- A limit of zero counts as one, so that every read can make progress. -/
def setChunk (panel : Panel) (limit : Nat) : Panel :=
  { panel with chunkLimit := max limit 1 }

end Panel

/-- Bytes in memory behind a panel. -/
structure PanelStore where
  data : Data
  panel : Panel := {}

namespace PanelStore

/-- Where a read of `length` bytes at `position` stops: at the end of the data, before the injected
failure, after the wanted length or after one chunk, whichever comes first. -/
def readStop (store : PanelStore) (position length : Nat) : Nat :=
  min (min (min store.data.length store.panel.failFrom) (min (position + length) maxOffset))
    (min (position + store.panel.chunkLimit) maxOffset)

def read (store : PanelStore) (position length : Nat) : Except StoreFailure Reply :=
  if store.panel.failFrom ≤ position then
    .error ⟨.system, s!"injected read failure at position {position}", none⟩
  else if store.readStop position length < position then
    .error ⟨.notFound, s!"ProbeStore::read_at position {position} out of range", none⟩
  else
    .ok (Reply.honest (store.data.slice position (store.readStop position length - position)))

def readAt (store : PanelStore) (position length : Nat) :
    Except StoreFailure Reply × PanelStore :=
  match store.read position length with
  | .error failure => (.error failure, store)
  | .ok reply =>
      (.ok reply, { store with panel := { store.panel with reads := store.panel.reads + 1 } })

instance : Store PanelStore where
  length store := store.data.length
  name _ := "probe"
  readAt := readAt
  release store position :=
    (.ok (), { store with panel := { store.panel with hints := store.panel.hints.push position } })
  drop store := { store with panel := { store.panel with dropped := true } }

end PanelStore

end SharedStream
