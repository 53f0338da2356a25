import SharedStream.Proofs.Content
import SharedStream.Proofs.Reads
import SharedStream.Store.Script
/-!
Stores that keep to their bytes. A *faithful* store has bytes that never change, and a read of it
either fails or delivers at least one of the bytes that were asked for, from the first one on.
Filling pieces of such stores delivers the first bytes of the pieces, and breaks off at the very
byte for which a store fails.
-/

namespace SharedStream

/-- A store that fails as often as it likes, but never delivers anything but its own bytes. -/
class FaithfulStore (σ : Type) [Store σ] where
  data : σ → Data
  length_eq (store : σ) : Store.length store = (data store).length
  data_readAt (store : σ) (position length : Nat) :
    data (Store.readAt store position length).2 = data store
  data_release (store : σ) (position : Nat) :
    data (Store.release store position).2 = data store
  data_drop (store : σ) : data (Store.drop store) = data store
  delivers (store : σ) {position length : Nat} {reply : Reply} (hpos : 0 < length)
    (hbound : position + length ≤ (data store).length)
    (hreply : (Store.readAt store position length).1 = .ok reply) :
    ∃ count, 0 < count ∧ count ≤ length ∧
      reply = Reply.honest ((data store).slice position count)

theorem MemoryStore.readAt_ok {store : MemoryStore} {position length : Nat} {reply : Reply}
    (hbound : position + length ≤ store.data.length)
    (hreply : (Store.readAt store position length).1 = .ok reply) :
    reply = .honest (store.data.slice position length) := by
  simp only [Store.readAt, MemoryStore.read] at hreply
  rw [if_neg (by omega)] at hreply
  exact (Except.ok.inj hreply).symm

instance : FaithfulStore MemoryStore where
  data := MemoryStore.data
  length_eq _ := rfl
  data_readAt _ _ _ := rfl
  data_release _ _ := rfl
  data_drop _ := rfl
  delivers _ _ length _ hpos hbound hreply :=
    ⟨length, hpos, Nat.le_refl _, MemoryStore.readAt_ok hbound hreply⟩

/-- The action fails, or delivers at least one byte and owns up to what it delivers. -/
def ReadAction.isFaithful : ReadAction → Bool
  | .fail _ | .full => true
  | .short count => decide (0 < count)
  | .over _ => false

/-- Acting faithfully, a script delivers some of the bytes that it was asked for. -/
theorem ScriptStore.act_ok (store : ScriptStore) {action : ReadAction} {position length : Nat}
    {reply : Reply} (haction : action.isFaithful = true) (hpos : 0 < length)
    (hreply : store.act position length action = .ok reply) :
    ∃ count, 0 < count ∧ count ≤ length ∧
      reply = Reply.honest (store.data.slice position count) := by
  match action with
  | .fail failure => cases hreply
  | .short count =>
      have hcount : 0 < count := of_decide_eq_true haction
      exact ⟨min count length, by omega, Nat.min_le_right _ _, (Except.ok.inj hreply).symm⟩
  | .full => exact ⟨length, hpos, Nat.le_refl _, (Except.ok.inj hreply).symm⟩
  | .over excess => cases haction

/-- A script of failures and short answers. -/
structure FaithfulScript extends ScriptStore where
  faithful : ∀ action ∈ reads, action.isFaithful = true

namespace FaithfulScript

instance : Store FaithfulScript where
  length store := store.data.length
  name store := store.name
  readAt store position length :=
    ((store.toScriptStore.readAt position length).1,
      ⟨(store.toScriptStore.readAt position length).2,
        fun action hmem => store.faithful action (List.mem_of_mem_tail hmem)⟩)
  release store position :=
    ((store.toScriptStore.release position).1,
      ⟨(store.toScriptStore.release position).2, store.faithful⟩)
  drop store := store

/-- Whatever it acts out, such a script is faithful. -/
instance : FaithfulStore FaithfulScript where
  data store := store.data
  length_eq _ := rfl
  data_readAt _ _ _ := rfl
  data_release _ _ := rfl
  data_drop _ := rfl
  delivers store position length reply hpos hbound hreply := by
    have hfaithful : (store.reads.head?.getD .full).isFaithful = true := by
      cases hreads : store.reads with
      | nil => rfl
      | cons action actions => exact store.faithful action (by simp [hreads])
    exact store.act_ok hfaithful hpos hreply

end FaithfulScript

namespace Piece

/-- Where the byte lies that comes after `skip` bytes: its store, and its position there. -/
def spot? : List Piece → (skip : Nat) → Option (StoreRef × Nat)
  | [], _ => none
  | piece :: pieces, skip =>
      if skip < piece.length then some (piece.store, piece.start + skip)
      else spot? pieces (skip - piece.length)

theorem spot?_singleton {piece : Piece} {skip : Nat} (h : skip < piece.length) :
    spot? [piece] skip = some (piece.store, piece.start + skip) := if_pos h

theorem spot?_append (pieces more : List Piece) (skip : Nat) :
    spot? (pieces ++ more) skip =
      if skip < total pieces then spot? pieces skip else spot? more (skip - total pieces) := by
  induction pieces generalizing skip with
  | nil => rfl
  | cons piece pieces ih =>
      simp only [List.cons_append, spot?, total_cons, ih]
      split
      · rw [if_pos (by omega)]
      · by_cases hinside : skip - piece.length < total pieces
        · rw [if_pos hinside, if_pos (by omega)]
        · rw [if_neg hinside, if_neg (by omega), Nat.sub_sub]

theorem lt_total_of_spot? {pieces : List Piece} {skip : Nat} {spot : StoreRef × Nat}
    (h : spot? pieces skip = some spot) : skip < total pieces := by
  induction pieces generalizing skip with
  | nil => cases h
  | cons piece pieces ih =>
      rw [spot?] at h
      rw [total_cons]
      split at h
      · omega
      · have hrest := ih h
        omega

/-- Every byte of the pieces lies somewhere, and there are no others. -/
theorem isSome_spot?_iff {pieces : List Piece} {skip : Nat} :
    (spot? pieces skip).isSome = true ↔ skip < total pieces := by
  constructor
  · intro hsome
    obtain ⟨spot, hspot⟩ := Option.isSome_iff_exists.mp hsome
    exact lt_total_of_spot? hspot
  · intro hless
    induction pieces generalizing skip with
    | nil => exact absurd hless (Nat.not_lt_zero skip)
    | cons piece pieces ih =>
        rw [total_cons] at hless
        rw [spot?]
        split
        · rfl
        · exact ih (by omega)

/-- The bytes of a part lie where they lie in the whole. -/
theorem spot?_clip (pieces : List Piece) (skip count more : Nat) (h : more < count) :
    spot? (clip pieces skip count) more = spot? pieces (skip + more) := by
  induction pieces generalizing skip count more with
  | nil => rfl
  | cons piece pieces ih =>
      rw [clip, spot?]
      by_cases hpassed : piece.length ≤ skip
      · rw [if_pos hpassed, if_neg (by omega), ih _ _ _ h]
        congr 1
        omega
      · rw [if_neg hpassed]
        dsimp only
        have htaken : ¬ min (piece.length - skip) count = 0 := by omega
        rw [if_neg htaken, List.singleton_append, spot?]
        dsimp only
        by_cases hinside : more < min (piece.length - skip) count
        · rw [if_pos hinside, if_pos (by omega), Nat.add_assoc]
        · rw [if_neg hinside, if_neg (by omega), ih _ _ _ (by omega)]
          congr 1
          omega

/-- Every byte of fitting pieces is one of its store. -/
theorem AllFit.byte {stores : Array MemoryStore} {pieces : List Piece}
    (h : AllFit stores pieces) {skip position : Nat} {store : StoreRef}
    (hspot : Piece.spot? pieces skip = some (store, position)) :
    ∃ memory, stores[store.number]? = some memory ∧ position < memory.data.length := by
  induction pieces generalizing skip with
  | nil => cases hspot
  | cons piece pieces ih =>
      rw [Piece.spot?] at hspot
      split at hspot
      · obtain ⟨rfl, rfl⟩ := Prod.mk.inj (Option.some.inj hspot)
        obtain ⟨memory, hmemory, hbound⟩ := h.head
        exact ⟨memory, hmemory, by omega⟩
      · exact ih h.tail hspot

theorem AllFit.spot? {stores : Array MemoryStore} {pieces : List Piece}
    (h : AllFit stores pieces) {skip position : Nat} {store : StoreRef}
    (hspot : Piece.spot? pieces skip = some (store, position)) : store.number < stores.size := by
  obtain ⟨memory, hmemory, -⟩ := h.byte hspot
  exact (Array.getElem?_eq_some_iff.mp hmemory).1

theorem Fits.single {stores : Array MemoryStore} {piece : Piece} (h : Fits stores piece) :
    AllFit stores [piece] := by
  intro other hmem
  obtain rfl := List.mem_singleton.mp hmem
  exact h

/-- A piece may be cut in two. -/
theorem Fits.cut {stores : Array MemoryStore} {store : StoreRef} {position length count : Nat}
    (h : Fits stores ⟨store, position, length⟩) (hcount : count ≤ length) :
    Fits stores ⟨store, position, count⟩ ∧
      Fits stores ⟨store, position + count, length - count⟩ := by
  obtain ⟨memory, hmemory, hbound⟩ := h
  exact ⟨⟨memory, hmemory, by dsimp only at hbound ⊢; omega⟩,
    ⟨memory, hmemory, by dsimp only at hbound ⊢; omega⟩⟩

theorem bytes_cut (stores : Array MemoryStore) (store : StoreRef) (position : Nat)
    {length count : Nat} (hcount : count ≤ length) :
    bytes stores ⟨store, position, length⟩ =
      bytes stores ⟨store, position, count⟩ ++
        bytes stores ⟨store, position + count, length - count⟩ := by
  simp only [bytes]
  cases stores[store.number]? with
  | none => rfl
  | some memory =>
      have hslice := memory.data.slice_add position count (length - count)
      rw [Nat.add_sub_cancel' hcount] at hslice
      exact hslice

end Piece

variable {σ : Type} [Store σ]

section Requests

theorem Backend.Writes.requests {kind : Event → Bool} {before after : Backend σ}
    (h : before.Writes kind after) : ∃ more, after.requests = before.requests ++ more := by
  obtain ⟨events, hjournal, -⟩ := h.journal
  exact ⟨events.filter Event.isRequest, by
    rw [Backend.requests, Backend.requests, hjournal, List.filter_append]⟩

namespace Backend

theorem read_requests {backend : Backend σ} {store : StoreRef}
    (hstored : store.number < backend.stores.size) (position length : Nat) :
    (backend.read store position length).2.requests = backend.requests ++
      [.storeRead store.number position length
        ((backend.read store position length).1.map Reply.count)] := by
  simp [read, requests, Array.getElem?_eq_getElem hstored, Event.isRequest]

/-- Filling begins with a request for the first byte. -/
theorem fill_asks_first {backend : Backend σ} {store : StoreRef} {position length : Nat}
    (hstored : store.number < backend.stores.size) (hpos : 0 < length) :
    ∃ answer more, (backend.fill store position length).2.requests =
      backend.requests ++ .storeRead store.number position length answer :: more := by
  have hread := backend.read_requests hstored position length
  rw [fill, if_neg (Nat.ne_of_gt hpos)]
  generalize backend.read store position length = run at hread
  obtain ⟨answer, after⟩ := run
  cases answer with
  | error failure => exact ⟨_, [], hread⟩
  | ok reply =>
      dsimp only at hread ⊢
      by_cases hcount : reply.count = 0
      · rw [dif_pos hcount]
        exact ⟨_, [], hread⟩
      · rw [dif_neg hcount]
        obtain ⟨more, hmore⟩ := (after.fill_asks store (position + min reply.count length)
          (length - min reply.count length)).requests
        refine ⟨.ok reply.count, more, hmore.trans ?_⟩
        rw [hread, List.append_assoc]
        rfl

theorem fillAll_asks (pieces : List Piece) (backend : Backend σ) :
    backend.Writes Event.isAsking (backend.fillAll pieces).2 := by
  induction pieces generalizing backend with
  | nil => exact .refl backend
  | cons piece pieces ih =>
      have hfirst := backend.fill_asks piece.store piece.start piece.length
      rw [fillAll, andThen]
      split
      · exact hfirst
      · exact hfirst.trans (ih _)

theorem fillAll_asks_first {pieces : List Piece} {backend : Backend σ} {store : StoreRef}
    {position : Nat} (hspot : Piece.spot? pieces 0 = some (store, position))
    (hstored : store.number < backend.stores.size) :
    ∃ length answer more, (backend.fillAll pieces).2.requests =
      backend.requests ++ .storeRead store.number position length answer :: more := by
  induction pieces with
  | nil => cases hspot
  | cons piece pieces ih =>
      rw [Piece.spot?] at hspot
      split at hspot
      · rename_i hpos
        obtain ⟨rfl, rfl⟩ := Prod.mk.inj (Option.some.inj hspot)
        obtain ⟨answer, more, hfill⟩ :=
          @fill_asks_first _ _ backend _ piece.start _ hstored hpos
        rw [fillAll, andThen]
        split
        · exact ⟨piece.length, answer, more, hfill⟩
        · obtain ⟨rest, hrest⟩ := (fillAll_asks pieces
            (backend.fill piece.store piece.start piece.length).2).requests
          refine ⟨piece.length, answer, more ++ rest, hrest.trans ?_⟩
          rw [hfill, List.append_assoc]
          rfl
      · rename_i hempty
        have hnone : piece.length = 0 := by omega
        rw [hnone] at hspot
        rw [fillAll, hnone, fill, if_pos rfl, nothing_andThen]
        exact ih hspot

end Backend

end Requests

variable [FaithfulStore σ]

theorem Store.Evolves.data_eq {state next : σ} (h : Store.Evolves state next) :
    FaithfulStore.data next = FaithfulStore.data state := by
  induction h with
  | refl => rfl
  | read _ position length ih => exact (FaithfulStore.data_readAt _ position length).trans ih
  | release _ position ih => exact (FaithfulStore.data_release _ position).trans ih
  | drop _ ih => exact (FaithfulStore.data_drop _).trans ih

namespace Backend

/-- The bytes of all stores. -/
def memory (backend : Backend σ) : Array MemoryStore :=
  backend.stores.map fun store => ⟨FaithfulStore.data store⟩

theorem memory_of_stored {backend : Backend σ} {number : Nat} {state : σ}
    (h : backend.stores[number]? = some state) :
    backend.memory[number]? = some ⟨FaithfulStore.data state⟩ := by
  simp [memory, h]

theorem Evolves.memory {before after : Backend σ} (h : before.Evolves after) :
    Extends before.memory after.memory := by
  intro number store hstore
  simp only [Backend.memory, Array.getElem?_map, Option.map_eq_some_iff] at hstore
  obtain ⟨state, hstate, rfl⟩ := hstore
  obtain ⟨next, hnext, hevolves⟩ := h.found hstate
  rw [memory_of_stored hnext, hevolves.data_eq]

theorem Writes.memory {kind : Event → Bool} {before after : Backend σ}
    (h : before.Writes kind after) : after.memory = before.memory := by
  have hsize : after.memory.size = before.memory.size := by
    simp [Backend.memory, h.size]
  apply Array.ext_getElem?
  intro number
  cases hbefore : before.memory[number]? with
  | some store => exact h.stores.memory hbefore
  | none =>
      rw [Array.getElem?_eq_none_iff] at hbefore ⊢
      omega

/-- How filling pieces ended, after the requests that it took: every byte is in hand, or the last
request failed, and it was one for the next byte. With no byte in hand there was no other. -/
inductive Ends (pieces : List Piece) (got : Gathered) : List Event → Prop where
  | full {calls : List Event} (hnone : got.failure = none)
      (hlength : got.bytes.length = Piece.total pieces) (hquiet : got.bytes = [] → calls = []) :
      Ends pieces got calls
  | failed {earlier : List Event} {failure : StoreFailure} {store : StoreRef}
      {position length : Nat} (hfailure : got.failure = some (.store failure))
      (hspot : Piece.spot? pieces got.bytes.length = some (store, position))
      (hfirst : got.bytes = [] → earlier = []) :
      Ends pieces got (earlier ++ [.storeRead store.number position length (.error failure)])

/-- Filling pieces delivered their first bytes, and ended in one of the two ways. -/
structure Fetched (backend : Backend σ) (pieces : List Piece) (run : Gathered × Backend σ) :
    Prop where
  memory : run.2.memory = backend.memory
  front : run.1.bytes <+: Piece.content backend.memory pieces
  ended : ∃ calls, run.2.requests = backend.requests ++ calls ∧ Ends pieces run.1 calls

theorem Fetched.andThen {backend : Backend σ} {pieces more : List Piece}
    {run : Gathered × Backend σ} {next : Backend σ → Gathered × Backend σ}
    (hfits : Piece.AllFit backend.memory pieces) (hfirst : backend.Fetched pieces run)
    (hrest : run.1.failure = none → run.2.Fetched more (next run.2)) :
    backend.Fetched (pieces ++ more) (Backend.andThen run next) := by
  obtain ⟨hmemory, hfront, calls, hcalls, hended⟩ := hfirst
  unfold Backend.andThen
  cases hended with
  | @failed earlier failure store position length hfailure hspot hearlier =>
      simp only [hfailure]
      refine ⟨hmemory, ?_, _, hcalls, .failed hfailure ?_ hearlier⟩
      · rw [Piece.content_append]
        exact hfront.trans (List.prefix_append _ _)
      · rw [Piece.spot?_append, if_pos (Piece.lt_total_of_spot? hspot), hspot]
  | full hnone hlength hquiet =>
      simp only [hnone]
      -- All of the first pieces is in hand, so what follows counts from their end.
      obtain ⟨hmemory', hfront', calls', hcalls', hended'⟩ := hrest hnone
      have hall : run.1.bytes = Piece.content backend.memory pieces :=
        hfront.eq_of_length (by rw [hfits.length_content, hlength])
      rw [hmemory] at hmemory' hfront'
      refine ⟨hmemory', ?_, calls ++ calls', by rw [hcalls', hcalls, List.append_assoc], ?_⟩
      · rw [Piece.content_append, hall]
        exact (List.prefix_append_right_inj _).mpr hfront'
      · cases hended' with
        | full hnone' hlength' hquiet' =>
            refine .full hnone' (by simp [hlength, hlength']) fun hempty => ?_
            obtain ⟨hbefore, hafter⟩ := List.append_eq_nil_iff.mp hempty
            rw [hquiet hbefore, hquiet' hafter, List.append_nil]
        | @failed earlier failure store position length hfailure hspot hearlier =>
            rw [← List.append_assoc]
            refine .failed hfailure ?_ fun hempty => ?_
            · rw [Piece.spot?_append, List.length_append, hlength, if_neg (by omega),
                Nat.add_sub_cancel_left, hspot]
            · obtain ⟨hbefore, hafter⟩ := List.append_eq_nil_iff.mp hempty
              rw [hquiet hbefore, hearlier hafter, List.append_nil]

/-- Two pieces that are next to each other in a store are as good as one. -/
theorem Fetched.whole {backend : Backend σ} {store : StoreRef} {position length count : Nat}
    {run : Gathered × Backend σ} (hcount : count ≤ length)
    (h : backend.Fetched
      [⟨store, position, count⟩, ⟨store, position + count, length - count⟩] run) :
    backend.Fetched [⟨store, position, length⟩] run := by
  have hcontent : Piece.content backend.memory [⟨store, position, length⟩] =
      Piece.content backend.memory
        [⟨store, position, count⟩, ⟨store, position + count, length - count⟩] := by
    simp only [Piece.content_cons, Piece.content_nil, List.append_nil,
      Piece.bytes_cut backend.memory store position hcount]
  obtain ⟨hmemory, hfront, calls, hcalls, hended⟩ := h
  refine ⟨hmemory, by rw [hcontent]; exact hfront, calls, hcalls, ?_⟩
  cases hended with
  | full hnone hlength hquiet =>
      refine .full hnone ?_ hquiet
      simp only [Piece.total_cons, Piece.total_nil] at hlength ⊢
      omega
  | failed hfailure hspot hfirst =>
      refine .failed hfailure ?_ hfirst
      simp only [Piece.spot?] at hspot ⊢
      split at hspot
      · rw [if_pos (by omega)]
        exact hspot
      · split at hspot
        · rw [if_pos (by omega), ← hspot]
          congr 2
          omega
        · cases hspot

section Requests

variable {backend after : Backend σ} {store : StoreRef} {position length : Nat}

theorem stored_of_fits (hfits : Piece.Fits backend.memory ⟨store, position, length⟩) :
    store.number < backend.stores.size := by
  obtain ⟨memory, hmemory, -⟩ := hfits
  simpa [Backend.memory] using (Array.getElem?_eq_some_iff.mp hmemory).1

theorem read_failed {failure : StoreFailure}
    (hfits : Piece.Fits backend.memory ⟨store, position, length⟩) (hpos : 0 < length)
    (hread : backend.read store position length = (.error failure, after)) :
    backend.Fetched [⟨store, position, length⟩] (⟨[], some (.store failure)⟩, after) := by
  have hasks := backend.read_asks store position length
  have hcall := read_requests (stored_of_fits hfits) position length
  rw [hread] at hasks hcall
  have hfailed : Ends [⟨store, position, length⟩] ⟨[], some (.store failure)⟩
      ([] ++ [.storeRead store.number position length (.error failure)]) :=
    .failed rfl (Piece.spot?_singleton hpos) fun _ => rfl
  exact ⟨hasks.memory, List.nil_prefix, _, hcall, hfailed⟩

/-- A faithful store that answers a request delivers the first few bytes of the piece. -/
theorem read_fetched {reply : Reply}
    (hfits : Piece.Fits backend.memory ⟨store, position, length⟩) (hpos : 0 < length)
    (hread : backend.read store position length = (.ok reply, after)) :
    0 < reply.count ∧ reply.count ≤ length ∧
      backend.Fetched [⟨store, position, reply.count⟩]
        (⟨reply.front reply.count, none⟩, after) := by
  have hasks := backend.read_asks store position length
  have hcall := read_requests (stored_of_fits hfits) position length
  rw [hread] at hasks hcall
  obtain ⟨memory, hmemory, hbound⟩ := hfits
  simp only [Backend.memory, Array.getElem?_map, Option.map_eq_some_iff] at hmemory
  obtain ⟨state, hstate, rfl⟩ := hmemory
  dsimp only at hbound
  have hreply : (backend.read store position length).1 = .ok reply := congrArg Prod.fst hread
  simp only [read, hstate] at hreply
  obtain ⟨count, hsome, hless, rfl⟩ := FaithfulStore.delivers state hpos hbound hreply
  let bytes := (FaithfulStore.data state).slice position count
  have hcount : (Reply.honest bytes).count = count := by
    simp only [bytes, Reply.honest, Data.length_slice]
    omega
  have hfront : (Reply.honest bytes).front count = bytes := by
    have hwhole := Reply.front_honest bytes
    rwa [show bytes.length = count from hcount] at hwhole
  have hsame : bytes = Piece.bytes backend.memory ⟨store, position, count⟩ := by
    simp only [bytes, Piece.bytes, memory_of_stored hstate]
  rw [hcount, hfront]
  refine ⟨hsome, hless, hasks.memory, ?_, _, hcall, .full rfl ?_ fun hempty => ?_⟩
  · simp [hsame]
  · rw [Piece.total_cons, Piece.total_nil, Nat.add_zero]
    exact hcount
  · rw [show bytes = [] from hempty] at hcount
    exact absurd hcount (Nat.ne_of_lt hsome)

end Requests

/-- Filling a piece of a faithful store. The induction is on the requests: each delivers a byte. -/
theorem fill_fetched {backend : Backend σ} {store : StoreRef} {position length : Nat}
    (hfits : Piece.Fits backend.memory ⟨store, position, length⟩) :
    backend.Fetched [⟨store, position, length⟩] (backend.fill store position length) := by
  fun_induction fill backend store position length with
  | case1 backend position =>
    exact ⟨rfl, List.nil_prefix, [], by simp, .full rfl rfl fun _ => rfl⟩
  | case2 backend position length hpos failure after hread =>
      exact read_failed hfits (Nat.pos_of_ne_zero hpos) hread
  | case3 backend position length hpos reply after hread hcount =>
      have hsome := (read_fetched hfits (Nat.pos_of_ne_zero hpos) hread).1
      omega
  | case4 backend position length hpos reply after hread hcount taken rest last hrest ih =>
      obtain ⟨-, hless, hgot⟩ := read_fetched hfits (Nat.pos_of_ne_zero hpos) hread
      -- A faithful store never claims more than it was asked for, so nothing is cut off.
      have htaken : taken = reply.count := Nat.min_eq_left hless
      rw [htaken] at hrest ih ⊢
      obtain ⟨hfirstFits, hrestFits⟩ := hfits.cut hless
      have hmore : after.Fetched [⟨store, position + reply.count, length - reply.count⟩]
          (rest, last) := by
        rw [← hrest]
        apply ih
        rw [show after.memory = _ from hgot.memory]
        exact hrestFits
      have hboth : backend.Fetched _
          (andThen (⟨reply.front reply.count, none⟩, after) fun _ => (rest, last)) :=
        hgot.andThen hfirstFits.single fun _ => hmore
      exact hboth.whole hless

/-- Filling pieces of faithful stores, one after another. -/
theorem fillAll_fetched {pieces : List Piece} {backend : Backend σ}
    (hfits : Piece.AllFit backend.memory pieces) :
    backend.Fetched pieces (backend.fillAll pieces) := by
  induction pieces generalizing backend with
  | nil => exact ⟨rfl, List.nil_prefix, [], by simp [fillAll], .full rfl rfl fun _ => rfl⟩
  | cons piece pieces ih =>
      have hfirst := fill_fetched hfits.head
      refine hfirst.andThen hfits.head.single fun _ => ih ?_
      rw [hfirst.memory]
      exact hfits.tail

end Backend

end SharedStream
