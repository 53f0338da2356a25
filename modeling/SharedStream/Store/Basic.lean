import SharedStream.Error
/-!
Backing stores. A store holds bytes at positions from zero up to its length and delivers them on
request. It may fail, deliver less than was asked for, or misreport how much it delivered; the
readers above it have to cope with all of that. The simplest store is a run of bytes in memory,
read without failure.
-/

namespace SharedStream

/-- A fixed run of bytes: how many there are, and which one stands at each position. -/
structure Data where
  length : Nat
  byteAt : Nat → UInt8

namespace Data

def ofArray (bytes : Array UInt8) : Data := ⟨bytes.size, fun p => bytes.getD p 0⟩

/-- Byte `p` is `p` modulo 251, so that neighbouring stretches look different. -/
def cyclic (length : Nat) : Data := ⟨length, fun p => UInt8.ofNat (p % 251)⟩

/-- The bytes from `position` on, at most `count` of them and none beyond the end. -/
def slice (data : Data) (position count : Nat) : List UInt8 :=
  (List.range' position (min count (data.length - position))).map data.byteAt

def toList (data : Data) : List UInt8 := data.slice 0 data.length

@[simp] theorem length_slice (data : Data) (position count : Nat) :
    (data.slice position count).length = min count (data.length - position) := by
  simp [slice]

@[simp] theorem slice_zero (data : Data) (position : Nat) : data.slice position 0 = [] := by
  simp [slice]

theorem slice_eq_take_drop (data : Data) (position count : Nat) :
    data.slice position count = (data.toList.drop position).take count := by
  apply List.ext_getElem
  · simp [toList]
  · intro i hslice hwhole
    simp [toList, slice]

end Data

/-- What a store says it delivered, beside the bytes it did deliver. -/
structure Reply where
  bytes : List UInt8
  count : Nat

namespace Reply

/-- A reply that tells the truth. -/
def honest (bytes : List UInt8) : Reply := ⟨bytes, bytes.length⟩

/-- The first `n` bytes of the reader's buffer after the reply. A store may count bytes that it did
not write. They are taken as zero here, as in a fresh buffer: what an earlier read left in a buffer
that is used again is not modelled, and only a store that misreports its count makes it show. -/
def front (reply : Reply) (n : Nat) : List UInt8 :=
  reply.bytes.take n ++ List.replicate (n - reply.bytes.length) 0

@[simp] theorem length_front (reply : Reply) (n : Nat) : (reply.front n).length = n := by
  simp [front]
  omega

theorem front_honest (bytes : List UInt8) : (honest bytes).front bytes.length = bytes := by
  simp [front, honest]

end Reply

/-- What the library asks of a backing store with state `σ`. -/
class Store (σ : Type) where
  /-- The number of bytes, which never changes. -/
  length : σ → Nat
  /-- The name that messages use. -/
  name : σ → String
  /-- Ask for `length` bytes from `position` on. -/
  readAt : σ → (position length : Nat) → Except StoreFailure Reply × σ
  /-- Tell the store that no byte up to and with `position` is needed by the caller any more. -/
  release : σ → (position : Nat) → Except StoreFailure Unit × σ
  /-- The store after its block is gone. -/
  drop : σ → σ

/-- Bytes in memory. -/
structure MemoryStore where
  data : Data

namespace MemoryStore

/-- A position one past the last byte reads nothing; beyond it there is no such position. -/
def read (store : MemoryStore) (position length : Nat) : Except StoreFailure Reply :=
  if store.data.length < position then
    .error ⟨.notFound,
      s!"BytesStore::read_at position {position} beyond length " ++ toString store.data.length,
      none⟩
  else
    .ok (Reply.honest (store.data.slice position length))

instance : Store MemoryStore where
  length store := store.data.length
  name _ := "bytes"
  readAt store position length := (store.read position length, store)
  release store _ := (.ok (), store)
  drop store := store

end MemoryStore

end SharedStream
