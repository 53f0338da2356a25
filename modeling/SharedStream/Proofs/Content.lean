import SharedStream.Proofs.Journal
import SharedStream.Proofs.Pieces
import SharedStream.Store.Basic
/-!
The bytes that pieces of memory stores stand for. Stores in memory never change and never fail, so
pieces that lie within their stores keep their bytes for good, cutting pieces cuts their bytes, and
filling them delivers every byte.
-/

namespace SharedStream

theorem Data.slice_slice (data : Data) (start length skip count : Nat) :
    data.slice (start + skip) (min (length - skip) count) =
      ((data.slice start length).drop skip).take count := by
  rw [slice_eq_take_drop, slice_eq_take_drop, List.drop_take, List.take_take, List.drop_drop,
    Nat.min_comm count]

theorem Data.slice_add (data : Data) (start count more : Nat) :
    data.slice start (count + more) =
      data.slice start count ++ data.slice (start + count) more := by
  simp only [slice_eq_take_drop, List.take_add, List.drop_drop]

/-- What one table of stores holds, another one holds too. -/
def Extends (before after : Array MemoryStore) : Prop :=
  ∀ {number : Nat} {store : MemoryStore}, before[number]? = some store →
    after[number]? = some store

/-- Whatever a memory store was asked and told, it is the same as before. -/
theorem MemoryStore.eq_of_evolves {store next : MemoryStore} (h : Store.Evolves store next) :
    next = store := by
  induction h with
  | refl => rfl
  | read _ _ _ ih => exact ih
  | release _ _ ih => exact ih
  | drop _ ih => exact ih

theorem Backend.Evolves.extends {before after : Backend MemoryStore} (h : before.Evolves after) :
    Extends before.stores after.stores := by
  intro number store hstore
  obtain ⟨next, hnext, hevolves⟩ := h.found hstore
  rw [hnext, MemoryStore.eq_of_evolves hevolves]

namespace Piece

variable {stores after : Array MemoryStore}

/-- The bytes of a piece. Where there is no store there are none. -/
def bytes (stores : Array MemoryStore) (piece : Piece) : List UInt8 :=
  match stores[piece.store.number]? with
  | none => []
  | some store => store.data.slice piece.start piece.length

def content (stores : Array MemoryStore) (pieces : List Piece) : List UInt8 :=
  pieces.flatMap (bytes stores)

def Fits (stores : Array MemoryStore) (piece : Piece) : Prop :=
  ∃ store, stores[piece.store.number]? = some store ∧
    piece.start + piece.length ≤ store.data.length

def AllFit (stores : Array MemoryStore) (pieces : List Piece) : Prop :=
  ∀ piece ∈ pieces, piece.Fits stores

@[simp] theorem content_nil : content stores [] = [] := rfl

@[simp] theorem content_cons (piece : Piece) (pieces : List Piece) :
    content stores (piece :: pieces) = piece.bytes stores ++ content stores pieces := by
  simp [content]

@[simp] theorem content_append (pieces more : List Piece) :
    content stores (pieces ++ more) = content stores pieces ++ content stores more := by
  simp [content]

theorem Fits.length_bytes {piece : Piece} (h : piece.Fits stores) :
    (piece.bytes stores).length = piece.length := by
  obtain ⟨store, hstore, hlength⟩ := h
  simp only [bytes, hstore, Data.length_slice]
  omega

theorem Fits.extend {piece : Piece} (h : piece.Fits stores) (hextends : Extends stores after) :
    piece.Fits after ∧ piece.bytes after = piece.bytes stores := by
  obtain ⟨store, hstore, hlength⟩ := h
  refine ⟨⟨store, hextends hstore, hlength⟩, ?_⟩
  simp only [bytes, hstore, hextends hstore]

namespace AllFit

variable {piece : Piece} {pieces more : List Piece}

theorem head (h : AllFit stores (piece :: pieces)) : piece.Fits stores :=
  h piece (List.mem_cons_self ..)

theorem tail (h : AllFit stores (piece :: pieces)) : AllFit stores pieces :=
  fun other hmem => h other (List.mem_cons_of_mem _ hmem)

theorem append (h : AllFit stores pieces) (hmore : AllFit stores more) :
    AllFit stores (pieces ++ more) := by
  intro piece hmem
  rcases List.mem_append.mp hmem with hfront | hback
  · exact h piece hfront
  · exact hmore piece hback

theorem extend (h : AllFit stores pieces) (hextends : Extends stores after) :
    AllFit after pieces ∧ content after pieces = content stores pieces := by
  constructor
  · intro piece hmem
    exact ((h piece hmem).extend hextends).1
  · simp only [content, List.flatMap_def]
    congr 1
    exact List.map_congr_left fun piece hmem => ((h piece hmem).extend hextends).2

theorem length_content (h : AllFit stores pieces) :
    (content stores pieces).length = total pieces := by
  induction pieces with
  | nil => rfl
  | cons piece pieces ih =>
      rw [content_cons, List.length_append, h.head.length_bytes, ih h.tail, total_cons]

/-- Cutting pieces cuts what they stand for. -/
theorem clip (h : AllFit stores pieces) (skip count : Nat) :
    AllFit stores (Piece.clip pieces skip count) ∧
      content stores (Piece.clip pieces skip count) =
        ((content stores pieces).drop skip).take count := by
  induction pieces generalizing skip count with
  | nil => exact ⟨h, by simp [Piece.clip]⟩
  | cons piece pieces ih =>
      have hlength := h.head.length_bytes
      rw [content_cons, List.drop_append, hlength, Piece.clip]
      by_cases hpassed : piece.length ≤ skip
      · obtain ⟨hfit, hcontent⟩ := ih h.tail (skip - piece.length) count
        have hnone : (piece.bytes stores).drop skip = [] := List.drop_eq_nil_of_le (by omega)
        rw [if_pos hpassed, hnone, List.nil_append]
        exact ⟨hfit, hcontent⟩
      · obtain ⟨store, hstore, hbound⟩ := h.head
        let taken := min (piece.length - skip) count
        obtain ⟨hfit, hcontent⟩ := ih h.tail 0 (count - taken)
        have hskip : skip - piece.length = 0 := by omega
        have hrest : count - (piece.length - skip) = count - taken := by omega
        have hcut : content stores (if taken = 0 then []
            else [⟨piece.store, piece.start + skip, taken⟩]) =
            ((piece.bytes stores).drop skip).take count := by
          have hslice := store.data.slice_slice piece.start piece.length skip count
          simp only [bytes, hstore]
          rw [← hslice]
          split
          · rename_i hzero
            simp only [taken] at hzero
            rw [hzero, Data.slice_zero, content_nil]
          · simp [bytes, hstore, taken]
        rw [if_neg hpassed, List.take_append, List.length_drop, hlength, hskip, hrest]
        refine ⟨append ?_ hfit, ?_⟩
        · intro cut hmem
          split at hmem
          · cases hmem
          · obtain rfl := List.mem_singleton.mp hmem
            refine ⟨store, hstore, ?_⟩
            dsimp only [taken]
            omega
        · rw [content_append, hcontent, ← hcut]

end AllFit

end Piece

namespace Backend

variable {backend : Backend MemoryStore}

theorem read_fits {piece : Piece} (h : piece.Fits backend.stores) :
    (backend.read piece.store piece.start piece.length).1 =
        .ok (Reply.honest (piece.bytes backend.stores)) ∧
      (backend.read piece.store piece.start piece.length).2.stores = backend.stores := by
  obtain ⟨store, hstore, hlength⟩ := h
  have hinside : ¬ store.data.length < piece.start := by omega
  constructor
  · simp only [read, hstore, Store.readAt, MemoryStore.read, Piece.bytes]
    rw [if_neg hinside]
  · simp only [read, hstore, Store.readAt]
    obtain ⟨hlt, -⟩ := Array.getElem?_eq_some_iff.mp hstore
    apply Array.ext_getElem?
    intro number
    by_cases hsame : piece.store.number = number
    · subst hsame
      rw [hstore, Array.getElem?_setIfInBounds_self_of_lt hlt]
    · rw [Array.getElem?_setIfInBounds_ne hsame]

theorem ask_fits {piece : Piece} (h : piece.Fits backend.stores) (hpos : 0 < piece.length) :
    (backend.ask piece.store piece.start piece.length).1 = .ok (piece.bytes backend.stores) := by
  have hlength := h.length_bytes
  obtain ⟨hanswer, -⟩ := read_fits h
  rw [ask]
  generalize backend.read piece.store piece.start piece.length = got at hanswer
  obtain ⟨answer, after⟩ := got
  change answer = _ at hanswer
  subst hanswer
  have hcount : (Reply.honest (piece.bytes backend.stores)).count =
      (piece.bytes backend.stores).length := rfl
  simp only [hcount, Reply.front_honest]
  rw [if_neg (by omega)]

theorem fill_fits {piece : Piece} (h : piece.Fits backend.stores) :
    (backend.fill piece.store piece.start piece.length).1 =
        ⟨piece.bytes backend.stores, none⟩ ∧
      (backend.fill piece.store piece.start piece.length).2.stores = backend.stores := by
  have hlength := h.length_bytes
  obtain ⟨hanswer, hstores⟩ := read_fits h
  rw [fill]
  by_cases hnone : piece.length = 0
  · rw [if_pos hnone]
    exact ⟨by rw [List.length_eq_zero_iff.mp (hlength.trans hnone)], rfl⟩
  · rw [if_neg hnone]
    generalize backend.read piece.store piece.start piece.length = got at hanswer hstores
    obtain ⟨answer, after⟩ := got
    change answer = _ at hanswer
    change after.stores = _ at hstores
    subst hanswer
    have hcount : (Reply.honest (piece.bytes backend.stores)).count = piece.length := hlength
    have hfront := Reply.front_honest (piece.bytes backend.stores)
    rw [hlength] at hfront
    simp only [hcount, hnone, dite_false, Nat.min_self, Nat.sub_self, hfront]
    rw [fill, if_pos rfl]
    exact ⟨by simp, hstores⟩

/-- Filling pieces that lie within memory stores delivers all of their bytes. -/
theorem fillAll_fits {pieces : List Piece} (h : Piece.AllFit backend.stores pieces) :
    (backend.fillAll pieces).1 = ⟨Piece.content backend.stores pieces, none⟩ ∧
      (backend.fillAll pieces).2.stores = backend.stores := by
  induction pieces generalizing backend with
  | nil => exact ⟨rfl, rfl⟩
  | cons piece pieces ih =>
      obtain ⟨hanswer, hstores⟩ := fill_fits h.head
      have hafter : Piece.AllFit (backend.fill piece.store piece.start piece.length).2.stores
          pieces := by
        rw [hstores]
        exact h.tail
      obtain ⟨hrest, hlast⟩ := ih hafter
      rw [hstores] at hrest hlast
      rw [fillAll, andThen, hanswer, Piece.content_cons]
      exact ⟨by rw [hrest], hlast⟩

end Backend

end SharedStream
