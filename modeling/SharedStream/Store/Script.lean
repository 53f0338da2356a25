import SharedStream.Store.Basic
/-!
Stores that act out a script: each request takes the next action off a queue, so that any run of
failures, short and overlong answers can be arranged.
-/

namespace SharedStream

/-- What a scripted store does with one read request. -/
inductive ReadAction where
  | fail (failure : StoreFailure)
  | short (count : Nat)
  /-- Deliver everything and claim so many bytes too many. -/
  | over (excess : Nat)
  | full

/-- Bytes, and what is still to be acted out before they are simply delivered. -/
structure ScriptStore where
  name : String
  label : String
  data : Data
  reads : List ReadAction := []
  releases : List (Option StoreFailure) := []

namespace ScriptStore

/-- The answer to a request for `length` bytes at `position` under one action. -/
def act (store : ScriptStore) (position length : Nat) : ReadAction → Except StoreFailure Reply
  | .fail failure => .error failure
  | .short count => .ok (Reply.honest (store.data.slice position (min count length)))
  | .over excess => .ok ⟨store.data.slice position length, length + excess⟩
  | .full => .ok (Reply.honest (store.data.slice position length))

def readAt (store : ScriptStore) (position length : Nat) :
    Except StoreFailure Reply × ScriptStore :=
  (store.act position length (store.reads.head?.getD .full),
    { store with reads := store.reads.tail })

def release (store : ScriptStore) (_position : Nat) : Except StoreFailure Unit × ScriptStore :=
  (match store.releases.head?.getD none with
    | some failure => .error failure
    | none => .ok (),
    { store with releases := store.releases.tail })

def extend (store : ScriptStore) (reads : List ReadAction)
    (releases : List (Option StoreFailure)) : ScriptStore :=
  { store with reads := store.reads ++ reads, releases := store.releases ++ releases }

instance : Store ScriptStore where
  length store := store.data.length
  name store := store.name
  readAt := readAt
  release := release
  drop store := store

end ScriptStore

end SharedStream
