import SharedStream.Proofs.Faithful
import SharedStream.Session.Step
import SharedStream.Store.Panel
/-!
Reading up to an injected fault. Behind a fault panel a store fails for every byte from one position
on and delivers the bytes before it in chunks. A read through a composition of such stores brings
exactly the bytes before the first one that lies at or past the failure point of its store, whatever
the chunks, the pieces and the tree; and the panels count one request for each chunk.
-/

namespace SharedStream

/-- How a store behind a panel fails for the byte at a position. -/
def injectedFailure (position : Nat) : StoreFailure :=
  ⟨.system, s!"injected read failure at position {position}", none⟩

/-- A store behind a fault panel as it can come to be: its bytes have positions, and its chunks have
bytes. -/
structure Probe extends PanelStore where
  length_le : data.length ≤ maxOffset
  chunk_pos : 0 < panel.chunkLimit

theorem Data.slice_of_le (data : Data) (position : Nat) {count length : Nat}
    (h : count ≤ length) :
    data.slice position count = (data.slice position length).take count := by
  have hcut := data.slice_slice position length 0 count
  rwa [Nat.add_zero, Nat.sub_zero, Nat.min_eq_right h, List.drop_zero] at hcut

theorem Data.slice_min (data : Data) (position count : Nat) :
    data.slice position (min count (data.length - position)) = data.slice position count := by
  simp [slice]

namespace PanelStore

variable {store : PanelStore} {position length : Nat}

theorem readAt_faulty (h : store.panel.failFrom ≤ position) (length : Nat) :
    store.readAt position length = (.error (injectedFailure position), store) := by
  rw [readAt, read, if_pos h]
  rfl

/-- Where the data have positions, the bound of a word is not what stops a read. -/
theorem readStop_eq (store : PanelStore) (position length : Nat)
    (hlength : store.data.length ≤ maxOffset) :
    store.readStop position length =
      min (min (min store.data.length store.panel.failFrom) (position + length))
        (position + store.panel.chunkLimit) := by
  have hlow : min store.data.length store.panel.failFrom ≤ maxOffset :=
    Nat.le_trans (Nat.min_le_left ..) hlength
  rw [readStop]
  generalize min store.data.length store.panel.failFrom = low at hlow ⊢
  omega

/-- A request before the failure point ends there, with the data or after one chunk. -/
theorem readAt_intact (hinside : position ≤ store.data.length)
    (hlength : store.data.length ≤ maxOffset) (h : position < store.panel.failFrom) :
    store.readAt position length =
      (.ok (.honest (store.data.slice position
        (min length (min (store.panel.failFrom - position) store.panel.chunkLimit)))),
      { store with panel := { store.panel with reads := store.panel.reads + 1 } }) := by
  obtain ⟨room, hroom⟩ := Nat.exists_eq_add_of_le hinside
  obtain ⟨clear, hclear⟩ := Nat.exists_eq_add_of_le (Nat.le_of_lt h)
  have hstop : store.readStop position length = position +
      min (min length (min (store.panel.failFrom - position) store.panel.chunkLimit))
        (store.data.length - position) := by
    rw [store.readStop_eq position length hlength, hroom, hclear]
    simp only [Nat.add_min_add_left, Nat.add_sub_cancel_left]
    ac_rfl
  rw [readAt, read, if_neg (Nat.not_le_of_lt h), hstop, if_neg (by omega), Nat.add_sub_cancel_left,
    Data.slice_min]

theorem chunkLimit_readAt (store : PanelStore) (position length : Nat) :
    (store.readAt position length).2.panel.chunkLimit = store.panel.chunkLimit := by
  rw [readAt]
  split <;> rfl

theorem data_readAt (store : PanelStore) (position length : Nat) :
    (store.readAt position length).2.data = store.data := by
  rw [readAt]
  split <;> rfl

end PanelStore

theorem Session.PanelChange.chunkLimit_pos (change : Session.PanelChange) {panel : Panel}
    (h : 0 < panel.chunkLimit) : 0 < (change.apply panel).chunkLimit := by
  obtain ⟨failFrom, heal, chunkLimit⟩ := change
  have hkept : 0 < (apply ⟨failFrom, heal, none⟩ panel).chunkLimit := by
    cases failFrom <;> cases heal <;> exact h
  cases chunkLimit with
  | none => exact hkept
  | some limit => exact Nat.lt_of_lt_of_le Nat.zero_lt_one (Nat.le_max_right limit 1)

namespace Probe

/-- The panel under the hand of whoever controls it. -/
def change (probe : Probe) (change : Session.PanelChange) : Probe where
  data := probe.data
  panel := change.apply probe.panel
  length_le := probe.length_le
  chunk_pos := change.chunkLimit_pos probe.chunk_pos

/-- After so many more successful requests. -/
def counted (probe : Probe) (calls : Nat) : Probe where
  data := probe.data
  panel := { probe.panel with reads := probe.panel.reads + calls }
  length_le := probe.length_le
  chunk_pos := probe.chunk_pos

/-- How many requests it takes to get so many bytes. -/
def callsFor (probe : Probe) (count : Nat) : Nat :=
  (count + probe.panel.chunkLimit - 1) / probe.panel.chunkLimit

instance : Store Probe where
  length store := store.data.length
  name store := Store.name store.toPanelStore
  readAt store position length :=
    ((store.toPanelStore.readAt position length).1, {
      toPanelStore := (store.toPanelStore.readAt position length).2
      length_le := by rw [PanelStore.data_readAt]; exact store.length_le
      chunk_pos := by rw [PanelStore.chunkLimit_readAt]; exact store.chunk_pos })
  release store position :=
    ((Store.release store.toPanelStore position).1, {
      toPanelStore := (Store.release store.toPanelStore position).2
      length_le := store.length_le
      chunk_pos := store.chunk_pos })
  drop store := {
    toPanelStore := Store.drop store.toPanelStore
    length_le := store.length_le
    chunk_pos := store.chunk_pos }

variable {probe other : Probe} {position length : Nat}

theorem eq_of_store (h : probe.toPanelStore = other.toPanelStore) : probe = other := by
  cases probe
  cases other
  cases h
  rfl

theorem counted_zero (probe : Probe) : probe.counted 0 = probe := rfl

theorem counted_counted (probe : Probe) (calls more : Nat) :
    (probe.counted calls).counted more = probe.counted (calls + more) := by
  simp only [counted, Nat.add_assoc]

theorem readAt_faulty (h : probe.panel.failFrom ≤ position) (length : Nat) :
    Store.readAt probe position length = (.error (injectedFailure position), probe) := by
  have hread := PanelStore.readAt_faulty h length
  have hanswer := congrArg Prod.fst hread
  have hstore := congrArg Prod.snd hread
  exact Prod.ext hanswer (eq_of_store hstore)

theorem readAt_intact (hbound : position + length ≤ probe.data.length)
    (h : position < probe.panel.failFrom) :
    Store.readAt probe position length =
      (.ok (.honest (probe.data.slice position
        (min length (min (probe.panel.failFrom - position) probe.panel.chunkLimit)))),
      probe.counted 1) := by
  have hinside : position ≤ probe.data.length := by omega
  have hread : probe.toPanelStore.readAt position length = _ :=
    PanelStore.readAt_intact hinside probe.length_le h
  have hanswer := congrArg Prod.fst hread
  have hstore := congrArg Prod.snd hread
  exact Prod.ext hanswer (eq_of_store hstore)

/-- However it fails, such a store delivers nothing but its bytes. -/
instance : FaithfulStore Probe where
  data store := store.data
  length_eq _ := rfl
  data_readAt store position length := store.toPanelStore.data_readAt position length
  data_release _ _ := rfl
  data_drop _ := rfl
  delivers store position length reply hpos hbound hreply := by
    by_cases hfaulty : store.panel.failFrom ≤ position
    · rw [readAt_faulty hfaulty] at hreply
      cases hreply
    · rw [readAt_intact hbound (Nat.lt_of_not_le hfaulty)] at hreply
      have hchunk := store.chunk_pos
      exact ⟨_, by omega, Nat.min_le_left _ _, (Except.ok.inj hreply).symm⟩

theorem callsFor_zero : probe.callsFor 0 = 0 := by
  have hchunk := probe.chunk_pos
  exact Nat.div_eq_of_lt (by omega)

/-- One request more for a chunk and then those for the rest, or one for all. -/
theorem callsFor_chunk {count : Nat} (hpos : 0 < count) :
    1 + probe.callsFor (count - min count probe.panel.chunkLimit) = probe.callsFor count := by
  have hchunk := probe.chunk_pos
  simp only [callsFor]
  by_cases hlast : count ≤ probe.panel.chunkLimit
  · rw [Nat.min_eq_left hlast, Nat.sub_self, Nat.zero_add, Nat.div_eq_of_lt (by omega)]
    exact (Nat.div_eq_of_lt_le (by omega) (by omega)).symm
  · rw [Nat.min_eq_right (by omega), Nat.add_comm 1]
    rw [← Nat.add_div_right _ hchunk]
    congr 1
    omega

end Probe

/-- Where the bytes of a piece lie, in order. -/
def Piece.spots (piece : Piece) : List (StoreRef × Nat) :=
  (List.range' piece.start piece.length).map fun position => (piece.store, position)

theorem Piece.getElem?_spots (pieces : List Piece) (skip : Nat) :
    (pieces.flatMap Piece.spots)[skip]? = Piece.spot? pieces skip := by
  induction pieces generalizing skip with
  | nil => rfl
  | cons piece pieces ih =>
      rw [List.flatMap_cons, List.getElem?_append, spots, List.length_map, List.length_range',
        spot?]
      split
      · rename_i hinside
        rw [List.getElem?_map, List.getElem?_range' hinside]
        simp
      · exact ih _

theorem Piece.clip_none (pieces : List Piece) (skip : Nat) : Piece.clip pieces skip 0 = [] := by
  induction pieces generalizing skip with
  | nil => rfl
  | cons piece pieces ih =>
      rw [clip, Nat.min_zero]
      split
      · exact ih _
      · exact ih 0

namespace Backend

/-- The byte lies before the failure point of its store. -/
def intact (backend : Backend Probe) (spot : StoreRef × Nat) : Bool :=
  backend.stores[spot.1.number]?.any fun probe => decide (spot.2 < probe.panel.failFrom)

/-- How many bytes of the pieces come before the first one that fails. -/
def reach (backend : Backend Probe) (pieces : List Piece) : Nat :=
  ((pieces.flatMap Piece.spots).takeWhile backend.intact).length

/-- How many requests a store gets when the pieces are read one after another. -/
def calls (backend : Backend Probe) (pieces : List Piece) (number : Nat) : Nat :=
  sumOver (fun piece =>
    if piece.store.number = number then
      (backend.stores[number]?).elim 0 fun probe => probe.callsFor piece.length
    else 0) pieces

/-- The stores are the same but for their counts of requests. -/
def Counted (before after : Backend Probe) (calls : Nat → Nat) : Prop :=
  ∀ number, after.stores[number]? =
    before.stores[number]?.map fun probe : Probe => probe.counted (calls number)

variable {backend middle after : Backend Probe}

theorem Counted.refl (backend : Backend Probe) : backend.Counted backend fun _ => 0 := by
  intro number
  cases backend.stores[number]? <;> rfl

theorem Counted.trans {calls more : Nat → Nat} (hfirst : backend.Counted middle calls)
    (hsecond : middle.Counted after more) :
    backend.Counted after fun number => calls number + more number := by
  intro number
  rw [hsecond, hfirst, Option.map_map]
  congr 1
  funext probe
  exact probe.counted_counted _ _

theorem Counted.congr {calls more : Nat → Nat} (h : backend.Counted after calls)
    (hsame : ∀ number, more number = calls number) : backend.Counted after more :=
  (funext hsame : more = calls) ▸ h

/-- Counting changes no failure point. -/
theorem Counted.intact {calls : Nat → Nat} (h : backend.Counted after calls) :
    after.intact = backend.intact := by
  funext spot
  rw [Backend.intact, Backend.intact, h]
  cases backend.stores[spot.1.number]? <;> rfl

theorem Counted.memory {calls : Nat → Nat} (h : backend.Counted after calls) :
    after.memory = backend.memory := by
  apply Array.ext_getElem?
  intro number
  rw [Backend.memory, Backend.memory, Array.getElem?_map, Array.getElem?_map, h, Option.map_map]
  rfl

theorem Counted.reach {calls : Nat → Nat} (h : backend.Counted after calls)
    (pieces : List Piece) : after.reach pieces = backend.reach pieces := by
  rw [Backend.reach, h.intact, Backend.reach]

theorem Counted.calls {calls : Nat → Nat} (h : backend.Counted after calls)
    (pieces : List Piece) : after.calls pieces = backend.calls pieces := by
  funext number
  rw [Backend.calls, Backend.calls, h]
  cases backend.stores[number]? <;> rfl

theorem Counted.found {calls : Nat → Nat} (h : backend.Counted after calls) {number : Nat}
    {probe : Probe} (hstate : backend.stores[number]? = some probe) :
    after.stores[number]? = some (probe.counted (calls number)) := by
  rw [h number, hstate, Option.map_some]

/-- One store has counted more requests. -/
theorem Counted.set {number count : Nat} {probe : Probe}
    (hstate : backend.stores[number]? = some probe)
    (hstores : after.stores = backend.stores.setIfInBounds number (probe.counted count)) :
    backend.Counted after fun other => if other = number then count else 0 := by
  intro other
  dsimp only
  rw [hstores]
  by_cases hsame : other = number
  · subst hsame
    obtain ⟨hlt, -⟩ := Array.getElem?_eq_some_iff.mp hstate
    rw [Array.getElem?_setIfInBounds_self_of_lt hlt, hstate, if_pos rfl]
    rfl
  · rw [Array.getElem?_setIfInBounds_ne (Ne.symm hsame), if_neg hsame]
    exact Counted.refl backend other

theorem probe_of_memory {number : Nat} {memory : MemoryStore}
    (h : backend.memory[number]? = some memory) :
    ∃ probe, backend.stores[number]? = some probe ∧ memory.data = probe.data := by
  simp only [Backend.memory, Array.getElem?_map, Option.map_eq_some_iff] at h
  obtain ⟨probe, hstate, rfl⟩ := h
  exact ⟨probe, hstate, rfl⟩

/-! ### Single requests -/

section Requests

variable {σ : Type} [Store σ] {backend after : Backend σ} {store : StoreRef}
  {position length : Nat}

theorem fill_of_error {failure : StoreFailure} (hpos : 0 < length)
    (hread : backend.read store position length = (.error failure, after)) :
    backend.fill store position length = (⟨[], some (.store failure)⟩, after) := by
  rw [fill, if_neg (Nat.ne_of_gt hpos), hread]

/-- The bytes of an honest answer are in hand, and the rest is asked for after them. -/
theorem fill_of_honest {bytes : List UInt8} (hsome : 0 < bytes.length)
    (hless : bytes.length ≤ length)
    (hread : backend.read store position length = (.ok (.honest bytes), after)) :
    let rest := after.fill store (position + bytes.length) (length - bytes.length)
    backend.fill store position length = (⟨bytes ++ rest.1.bytes, rest.1.failure⟩, rest.2) := by
  intro rest
  have hcount : (Reply.honest bytes).count = bytes.length := rfl
  rw [fill, if_neg (by omega), hread]
  simp only [hcount, dif_neg (Nat.ne_of_gt hsome), Nat.min_eq_left hless, Reply.front_honest, rest]

theorem ask_of_honest {bytes : List UInt8} (hsome : 0 < bytes.length)
    (hless : bytes.length ≤ length)
    (hread : backend.read store position length = (.ok (.honest bytes), after)) :
    backend.ask store position length = (.ok bytes, after) := by
  have hcount : (Reply.honest bytes).count = bytes.length := rfl
  simp only [ask, hread, hcount, Reply.front_honest]
  rw [if_neg (by omega)]

end Requests

section Chunks

variable {store : StoreRef} {position length : Nat} {probe : Probe}

theorem read_faulty (hstate : backend.stores[store.number]? = some probe) (length : Nat)
    (hfaulty : probe.panel.failFrom ≤ position) :
    ∃ after, backend.read store position length = (.error (injectedFailure position), after) ∧
      backend.Counted after fun _ => 0 := by
  have hread := Probe.readAt_faulty hfaulty length
  have hset : (backend.read store position length).2.stores =
      backend.stores.setIfInBounds store.number (probe.counted 0) := by
    simp only [read, hstate, hread, Probe.counted_zero]
  refine ⟨(backend.read store position length).2, ?_,
    (Counted.set hstate hset).congr fun number => (ite_self 0).symm⟩
  simp only [read, hstate, hread]

theorem read_intact (hstate : backend.stores[store.number]? = some probe)
    (hbound : position + length ≤ probe.data.length) (hintact : position < probe.panel.failFrom) :
    ∃ after, backend.read store position length =
        (.ok (.honest (probe.data.slice position
          (min length (min (probe.panel.failFrom - position) probe.panel.chunkLimit)))), after) ∧
      backend.Counted after fun number => if number = store.number then 1 else 0 := by
  have hread := Probe.readAt_intact hbound hintact
  have hset : (backend.read store position length).2.stores =
      backend.stores.setIfInBounds store.number (probe.counted 1) := by
    simp only [read, hstate, hread]
  refine ⟨(backend.read store position length).2, ?_, Counted.set hstate hset⟩
  simp only [read, hstate, hread]

/-- A store under a cursor is asked once, and what it gives is one chunk at most. -/
theorem ask_probe (hstate : backend.stores[store.number]? = some probe)
    (hbound : position + length ≤ probe.data.length) (hpos : 0 < length) :
    let count := min length (min (probe.panel.failFrom - position) probe.panel.chunkLimit)
    ∃ after, backend.ask store position length =
        (if 0 < count then .ok (probe.data.slice position count)
          else .error (.store (injectedFailure position)), after) ∧
      backend.Counted after fun number => if number = store.number ∧ 0 < count then 1 else 0 := by
  have hchunk := probe.chunk_pos
  intro count
  by_cases hfaulty : probe.panel.failFrom ≤ position
  · obtain ⟨after, hread, hcounted⟩ := read_faulty hstate length hfaulty
    have hnone : ¬ 0 < count := by omega
    refine ⟨after, ?_, hcounted.congr fun number => if_neg fun h => hnone h.2⟩
    rw [ask, hread, if_neg hnone]
  · obtain ⟨after, hread, hcounted⟩ := read_intact hstate hbound (Nat.lt_of_not_le hfaulty)
    have hsome : 0 < count := by omega
    have hlength : (probe.data.slice position count).length = count := by
      rw [Data.length_slice]
      omega
    refine ⟨after, ?_, hcounted.congr fun number => by simp only [hsome, and_true]⟩
    rw [if_pos hsome]
    exact ask_of_honest (by omega) (by omega) hread

end Chunks

/-- Filling from one store takes a chunk, and then goes on after it. -/
theorem fill_chunk {store : StoreRef} {position length : Nat} {probe : Probe}
    (hstate : backend.stores[store.number]? = some probe)
    (hbound : position + length ≤ probe.data.length) (hpos : 0 < length)
    (hintact : position < probe.panel.failFrom) :
    let count := min (min length (probe.panel.failFrom - position)) probe.panel.chunkLimit
    ∃ after, backend.Counted after (fun number => if number = store.number then 1 else 0) ∧
      let rest := after.fill store (position + count) (length - count)
      backend.fill store position length =
        (⟨probe.data.slice position count ++ rest.1.bytes, rest.1.failure⟩, rest.2) := by
  have hchunk := probe.chunk_pos
  intro count
  obtain ⟨after, hread, hcounted⟩ := read_intact hstate hbound hintact
  have hcount : min length (min (probe.panel.failFrom - position) probe.panel.chunkLimit) = count :=
    (Nat.min_assoc ..).symm
  rw [hcount] at hread
  have hlength : (probe.data.slice position count).length = count := by
    rw [Data.length_slice]
    omega
  have hfill := fill_of_honest (by omega) (by omega) hread
  rw [hlength] at hfill
  exact ⟨after, hcounted, hfill⟩

/-- Filling from one store takes the bytes before its failure point, chunk by chunk. The induction
is on the bytes that are wanted: each request brings one. -/
theorem fill_probe (length : Nat) : ∀ {backend : Backend Probe} {store : StoreRef}
    {position : Nat} {probe : Probe}, backend.stores[store.number]? = some probe →
    position + length ≤ probe.data.length →
    let taken := min length (probe.panel.failFrom - position)
    let failure :=
      if taken = length then none else some (.store (injectedFailure (position + taken)))
    ∃ after, backend.fill store position length =
        (⟨probe.data.slice position taken, failure⟩, after) ∧
      backend.Counted after fun number =>
        if number = store.number then probe.callsFor taken else 0 := by
  induction length using Nat.strongRecOn with
  | _ length ih =>
  intro backend store position probe hstate hbound
  dsimp only
  have hchunk := probe.chunk_pos
  generalize htaken : min length (probe.panel.failFrom - position) = taken
  obtain rfl | hpos := Nat.eq_zero_or_pos length
  · obtain rfl : taken = 0 := by omega
    rw [fill, if_pos rfl, Data.slice_zero, if_pos rfl, Probe.callsFor_zero]
    exact ⟨backend, rfl, (Counted.refl backend).congr fun number => ite_self 0⟩
  by_cases hfaulty : probe.panel.failFrom ≤ position
  · obtain ⟨after, hread, hcounted⟩ := read_faulty hstate length hfaulty
    obtain rfl : taken = 0 := by omega
    rw [fill_of_error hpos hread, Data.slice_zero, if_neg (by omega), Probe.callsFor_zero]
    exact ⟨after, rfl, hcounted.congr fun number => ite_self 0⟩
  · obtain ⟨after, hcounted, hfill⟩ :=
      fill_chunk hstate hbound hpos (Nat.lt_of_not_le hfaulty)
    rw [htaken] at hfill
    generalize hcount : min taken probe.panel.chunkLimit = count at hfill
    have hlater : after.stores[store.number]? = some (probe.counted 1) := by
      simpa only [if_true] using hcounted.found hstate
    obtain ⟨last, hrest, hmore⟩ := ih (length - count) (by omega) hlater
      (show position + count + (length - count) ≤ probe.data.length by omega)
    have hleft : min (length - count) ((probe.counted 1).panel.failFrom - (position + count)) =
        taken - count := by
      simp only [Probe.counted]
      omega
    have hall : count + (taken - count) = taken := by omega
    rw [hleft] at hrest hmore
    refine ⟨last, ?_, (hcounted.trans hmore).congr fun number => ?_⟩
    · have hbytes := probe.data.slice_add position count (taken - count)
      have hdone : taken - count = length - count ↔ taken = length := by omega
      rw [hall] at hbytes
      simp only [hfill, hrest, hbytes, hdone, Nat.add_assoc, hall, Probe.counted]
    · split
      · rw [← hcount]
        exact (Probe.callsFor_chunk (show 0 < taken by omega)).symm
      · rfl

/-! ### Pieces -/

/-- A piece that fits is a slice of its store. -/
theorem probe_of_fits {piece : Piece} (h : piece.Fits backend.memory) :
    ∃ probe, backend.stores[piece.store.number]? = some probe ∧
      piece.start + piece.length ≤ probe.data.length ∧
      piece.bytes backend.memory = probe.data.slice piece.start piece.length := by
  obtain ⟨memory, hmemory, hbound⟩ := h
  obtain ⟨probe, hstate, hdata⟩ := probe_of_memory hmemory
  rw [hdata] at hbound
  refine ⟨probe, hstate, hbound, ?_⟩
  simp only [Piece.bytes, hmemory, hdata]

theorem takeWhile_range' (start failFrom : Nat) (length : Nat) :
    (List.range' start length).takeWhile (fun position => decide (position < failFrom)) =
      List.range' start (min length (failFrom - start)) := by
  induction length generalizing start with
  | zero => simp
  | succ length ih =>
      rw [List.range'_succ, List.takeWhile_cons, ih]
      by_cases hintact : start < failFrom
      · have hcount : min (length + 1) (failFrom - start) =
            min length (failFrom - (start + 1)) + 1 := by omega
        rw [if_pos (decide_eq_true hintact), hcount, List.range'_succ]
      · have hcount : min (length + 1) (failFrom - start) = 0 := by omega
        rw [if_neg (by simpa using hintact), hcount, List.range'_zero]

/-- Of a piece, the bytes before the failure point are read, and if these are all, those of the
pieces after it. -/
theorem reach_cons {piece : Piece} {probe : Probe}
    (hstate : backend.stores[piece.store.number]? = some probe) (pieces : List Piece) :
    let taken := min piece.length (probe.panel.failFrom - piece.start)
    backend.reach (piece :: pieces) =
      if taken = piece.length then piece.length + backend.reach pieces else taken := by
  intro taken
  have hspots : piece.spots.takeWhile backend.intact =
      (List.range' piece.start taken).map fun position => (piece.store, position) := by
    rw [Piece.spots, List.takeWhile_map, ← takeWhile_range']
    congr 2
    funext position
    simp [intact, hstate]
  rw [reach, List.flatMap_cons, List.takeWhile_append, hspots]
  simp only [Piece.spots, List.length_map, List.length_range']
  split
  · rw [List.length_append, List.length_map, List.length_range']
    rfl
  · rw [List.length_map, List.length_range']

theorem reach_le_total (pieces : List Piece) : backend.reach pieces ≤ Piece.total pieces := by
  have hspots : (pieces.flatMap Piece.spots).length = Piece.total pieces := by
    induction pieces with
    | nil => rfl
    | cons piece pieces ih =>
        rw [List.flatMap_cons, List.length_append, ih, Piece.total_cons, Piece.spots,
          List.length_map, List.length_range']
  rw [← hspots]
  exact (List.takeWhile_prefix _).length_le

/-- If the first byte is intact, it is reached. -/
theorem reach_pos {pieces : List Piece} {spot : StoreRef × Nat}
    (hspot : Piece.spot? pieces 0 = some spot) (hintact : backend.intact spot = true) :
    0 < backend.reach pieces := by
  rw [← Piece.getElem?_spots] at hspot
  rw [reach]
  cases hspots : pieces.flatMap Piece.spots with
  | nil =>
      rw [hspots] at hspot
      cases hspot
  | cons first spots =>
      rw [hspots] at hspot
      obtain rfl : first = spot := Option.some.inj hspot
      rw [List.takeWhile_cons, if_pos hintact]
      exact Nat.succ_pos _

theorem calls_append (pieces more : List Piece) (number : Nat) :
    backend.calls (pieces ++ more) number =
      backend.calls pieces number + backend.calls more number := sumOver_append ..

theorem calls_single {store : StoreRef} {probe : Probe}
    (hstate : backend.stores[store.number]? = some probe) (position count number : Nat) :
    backend.calls [⟨store, position, count⟩] number =
      if number = store.number then probe.callsFor count else 0 := by
  by_cases hsame : number = store.number
  · subst hsame
    simp [calls, hstate]
  · simp [calls, hsame, Ne.symm hsame]

/-- What is read of the first piece, and what is read after it. -/
theorem calls_clip_cons {piece : Piece} {probe : Probe}
    (hstate : backend.stores[piece.store.number]? = some probe) (pieces : List Piece)
    (count number : Nat) :
    backend.calls (Piece.clip (piece :: pieces) 0 count) number =
      (if number = piece.store.number then probe.callsFor (min piece.length count) else 0) +
        backend.calls (Piece.clip pieces 0 (count - piece.length)) number := by
  rw [Piece.clip, Nat.sub_zero, Nat.add_zero]
  by_cases hnone : piece.length ≤ 0
  · rw [if_pos hnone, Nat.le_zero.mp hnone, Nat.zero_min, Probe.callsFor_zero, ite_self,
      Nat.zero_add]
    rfl
  · have hrest : count - min piece.length count = count - piece.length := by omega
    rw [if_neg hnone, calls_append, hrest]
    congr 1
    split
    · rename_i hzero
      rw [hzero, Probe.callsFor_zero, ite_self]
      rfl
    · exact calls_single hstate _ _ number

/-- Pieces were filled up to the first byte that fails. -/
structure Reached (backend : Backend Probe) (pieces : List Piece)
    (run : Gathered × Backend Probe) : Prop where
  bytes : run.1.bytes = (Piece.content backend.memory pieces).take (backend.reach pieces)
  whole : backend.reach pieces = Piece.total pieces → run.1.failure = none
  broken : backend.reach pieces < Piece.total pieces → ∃ store position,
    Piece.spot? pieces (backend.reach pieces) = some (store, position) ∧
      run.1.failure = some (.store (injectedFailure position))
  counted : backend.Counted run.2
    (backend.calls (Piece.clip pieces 0 (backend.reach pieces)))

/-- The first piece has a byte that fails, and is read up to there. -/
theorem reached_of_cut {piece : Piece} {probe : Probe}
    (hstate : backend.stores[piece.store.number]? = some probe)
    (hbytes : piece.bytes backend.memory = probe.data.slice piece.start piece.length)
    (hlength : (piece.bytes backend.memory).length = piece.length) (pieces : List Piece)
    {taken : Nat} (htaken : min piece.length (probe.panel.failFrom - piece.start) = taken)
    (hpart : taken < piece.length)
    (hcounted : backend.Counted after fun number =>
      if number = piece.store.number then probe.callsFor taken else 0) :
    backend.Reached (piece :: pieces) (⟨probe.data.slice piece.start taken,
      some (.store (injectedFailure (piece.start + taken)))⟩, after) := by
  have hreach := reach_cons hstate pieces
  dsimp only at hreach
  rw [htaken, if_neg (Nat.ne_of_lt hpart)] at hreach
  refine ⟨?_, fun hdone => ?_, fun _ => ⟨piece.store, _, ?_, rfl⟩, ?_⟩
  · rw [hreach, Piece.content_cons, List.take_append_of_le_length (by omega), hbytes]
    exact probe.data.slice_of_le piece.start (Nat.le_of_lt hpart)
  · rw [hreach, Piece.total_cons] at hdone
    omega
  · rw [hreach, Piece.spot?, if_pos hpart]
  · refine hcounted.congr fun number => ?_
    rw [hreach, calls_clip_cons hstate, Nat.sub_eq_zero_of_le (Nat.le_of_lt hpart),
      Piece.clip_none, Nat.min_eq_right (Nat.le_of_lt hpart)]
    rfl

/-- The first piece is read whole, and the others up to the first byte that fails. -/
theorem Reached.cons {piece : Piece} {pieces : List Piece} {probe : Probe}
    {run : Gathered × Backend Probe} (h : middle.Reached pieces run)
    (hstate : backend.stores[piece.store.number]? = some probe)
    (hlength : (piece.bytes backend.memory).length = piece.length)
    (hwhole : min piece.length (probe.panel.failFrom - piece.start) = piece.length)
    (hcounted : backend.Counted middle fun number =>
      if number = piece.store.number then probe.callsFor piece.length else 0) :
    backend.Reached (piece :: pieces)
      (⟨piece.bytes backend.memory ++ run.1.bytes, run.1.failure⟩, run.2) := by
  obtain ⟨hmore, hdone, hbroken, hrest⟩ := h
  rw [hcounted.memory, hcounted.reach] at hmore
  rw [hcounted.reach] at hdone hbroken hrest
  have hreach := reach_cons hstate pieces
  dsimp only at hreach
  rw [if_pos hwhole] at hreach
  refine ⟨?_, fun hall => ?_, fun hless => ?_, ?_⟩
  · rw [hreach, Piece.content_cons, List.take_append, hlength, Nat.add_sub_cancel_left, ← hmore,
      List.take_of_length_le (by omega)]
  · rw [hreach, Piece.total_cons] at hall
    exact hdone (by omega)
  · rw [hreach, Piece.total_cons] at hless
    rw [hreach, Piece.spot?, if_neg (by omega), Nat.add_sub_cancel_left]
    exact hbroken (by omega)
  · refine (hcounted.trans hrest).congr fun number => ?_
    rw [hreach, calls_clip_cons hstate, hcounted.calls, Nat.add_sub_cancel_left,
      Nat.min_eq_left (Nat.le_add_right _ _)]

theorem fillAll_reached {pieces : List Piece} : ∀ {backend : Backend Probe},
    Piece.AllFit backend.memory pieces → backend.Reached pieces (backend.fillAll pieces) := by
  induction pieces with
  | nil =>
      intro backend _
      exact ⟨rfl, fun _ => rfl, fun hless => absurd hless (Nat.lt_irrefl 0), .refl backend⟩
  | cons piece pieces ih =>
      intro backend hfits
      have hlength := hfits.head.length_bytes
      obtain ⟨probe, hstate, hbound, hbytes⟩ := probe_of_fits hfits.head
      obtain ⟨after, hfirst, hcounted⟩ := fill_probe piece.length hstate hbound
      rw [fillAll, andThen, hfirst]
      generalize htaken : min piece.length (probe.panel.failFrom - piece.start) = taken
        at hcounted ⊢
      by_cases hall : taken = piece.length
      · rw [if_pos hall]
        subst hall
        have hrest : Piece.AllFit after.memory pieces := hcounted.memory ▸ hfits.tail
        rw [← hbytes]
        exact (ih hrest).cons hstate hlength htaken hcounted
      · rw [if_neg hall]
        exact reached_of_cut hstate hbytes hlength pieces htaken (by omega) hcounted

end Backend

end SharedStream
