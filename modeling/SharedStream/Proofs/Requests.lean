import SharedStream.Proofs.Layout
import SharedStream.Proofs.Resuming
/-!
What stores are asked for. The bytes ahead of a cursor lie here and there in the stores; a read asks
for them in order. Every request is for at least one byte, lies within its store and among the bytes
that the reader wants, and begins right after the last byte that was accepted before it, whatever
the stores answer.
-/

namespace SharedStream

/-- How many bytes a reader takes from the answer to a request. A count beyond what was asked for is
cut down to it. -/
def Event.accepted : Event → Nat
  | storeRead _ _ length (.ok count) => min count length
  | _ => 0

/-- Requests follow the bytes from `skip` up to `wanted` of those that lie where `spot` says, in
stores of the given lengths. A request that brings no byte is the last one. -/
inductive Asks (lengths : Array Nat) (spot : Nat → Option (StoreRef × Nat)) (wanted : Nat) :
    (skip : Nat) → List Event → Prop where
  | none {skip : Nat} : Asks lengths spot wanted skip []
  | call {skip position length : Nat} {store : StoreRef} {answer : Except StoreFailure Nat}
      {rest : List Event} (hpos : 0 < length) (hwanted : skip + length ≤ wanted)
      (hspots : ∀ more < length, spot (skip + more) = some (store, position + more))
      (hstored : ∃ whole, lengths[store.number]? = some whole ∧ position + length ≤ whole)
      (hlast : (Event.storeRead store.number position length answer).accepted = 0 → rest = [])
      (hrest : Asks lengths spot wanted
        (skip + (Event.storeRead store.number position length answer).accepted) rest) :
      Asks lengths spot wanted skip (.storeRead store.number position length answer :: rest)

namespace Asks

variable {lengths : Array Nat} {spot : Nat → Option (StoreRef × Nat)} {wanted skip : Nat}
  {calls more : List Event}

/-- A request on its own. -/
theorem single {position length : Nat} {store : StoreRef} (hpos : 0 < length)
    (hwanted : skip + length ≤ wanted)
    (hspots : ∀ more < length, spot (skip + more) = some (store, position + more))
    (hstored : ∃ whole, lengths[store.number]? = some whole ∧ position + length ≤ whole)
    (answer : Except StoreFailure Nat) :
    Asks lengths spot wanted skip [.storeRead store.number position length answer] :=
  .call hpos hwanted hspots hstored (fun _ => rfl) .none

/-- Further requests may follow once every request has brought bytes. -/
theorem append (h : Asks lengths spot wanted skip calls)
    (hmore : Asks lengths spot wanted (skip + sumOver Event.accepted calls) more)
    (hall : ∀ call ∈ calls, 0 < call.accepted) :
    Asks lengths spot wanted skip (calls ++ more) := by
  induction h with
  | none => exact hmore
  | @call skip position length store answer rest hpos hwanted hspots hstored hlast hrest ih =>
      refine .call hpos hwanted hspots hstored ?_ (ih ?_ ?_)
      · intro hzero
        have hsome := hall _ (List.mem_cons_self ..)
        omega
      · rw [Nat.add_assoc]
        exact hmore
      · exact fun call hmem => hall call (List.mem_cons_of_mem _ hmem)

theorem eq_nil (h : Asks lengths spot 0 skip calls) : calls = [] := by
  cases h with
  | none => rfl
  | call hpos hwanted => omega

end Asks

variable {σ : Type} [Store σ]

namespace Backend

/-- The lengths of all stores. -/
def lengths (backend : Backend σ) : Array Nat := backend.stores.map Store.length

theorem lengths_eq_some {backend : Backend σ} {number bound : Nat} :
    (∃ whole, backend.lengths[number]? = some whole ∧ bound ≤ whole) ↔
      ∃ state, backend.stores[number]? = some state ∧ bound ≤ Store.length state := by
  simp only [lengths, Array.getElem?_map, Option.map_eq_some_iff]
  constructor
  · rintro ⟨_, ⟨state, hstate, rfl⟩, hbound⟩
    exact ⟨state, hstate, hbound⟩
  · rintro ⟨state, hstate, hbound⟩
    exact ⟨_, ⟨state, hstate, rfl⟩, hbound⟩

theorem Writes.lengths [FixedLength σ] {kind : Event → Bool} {before after : Backend σ}
    (h : before.Writes kind after) : after.lengths = before.lengths := by
  apply Array.ext_getElem?
  intro number
  simp only [Backend.lengths, Array.getElem?_map]
  cases hbefore : before.stores[number]? with
  | some state =>
      obtain ⟨next, hnext, hevolves⟩ := h.stores.found hbefore
      simp [hnext, hevolves.length_eq]
  | none =>
      have hsize := h.size
      have hafter : after.stores[number]? = none := by
        rw [Array.getElem?_eq_none_iff] at hbefore ⊢
        omega
      rw [hafter]

/-- The pieces lie within the stores. -/
def Holds (backend : Backend σ) (pieces : List Piece) : Prop :=
  ∀ piece ∈ pieces,
    ∃ whole, backend.lengths[piece.store.number]? = some whole ∧
      piece.start + piece.length ≤ whole

/-- What was gathered was asked for in order, from `skip` on, and is as much as was accepted. If
nothing failed, every request brought bytes. -/
structure Orderly (backend : Backend σ) (spot : Nat → Option (StoreRef × Nat))
    (wanted skip : Nat) (run : Gathered × Backend σ) (calls : List Event) : Prop where
  requests : run.2.requests = backend.requests ++ calls
  lengths : run.2.lengths = backend.lengths
  asks : Asks backend.lengths spot wanted skip calls
  accepted : run.1.bytes.length = sumOver Event.accepted calls
  served : run.1.failure = none → ∀ call ∈ calls, 0 < call.accepted

variable {spot : Nat → Option (StoreRef × Nat)} {wanted skip : Nat}

theorem Orderly.nothing (backend : Backend σ) :
    backend.Orderly spot wanted skip (⟨[], none⟩, backend) [] := by
  constructor
  · simp
  · rfl
  · exact .none
  · rfl
  · intro _ call hmem
    cases hmem

theorem Orderly.andThen {backend : Backend σ} {run : Gathered × Backend σ} {calls : List Event}
    {next : Backend σ → Gathered × Backend σ}
    (hfirst : backend.Orderly spot wanted skip run calls)
    (hrest : run.1.failure = none → ∃ more,
      run.2.Orderly spot wanted (skip + run.1.bytes.length) (next run.2) more) :
    ∃ all, backend.Orderly spot wanted skip (Backend.andThen run next) all := by
  unfold Backend.andThen
  cases hfailure : run.1.failure with
  | some error => exact ⟨calls, hfirst⟩
  | none =>
      obtain ⟨more, hmore⟩ := hrest hfailure
      have hserved := hfirst.served hfailure
      have hasks := hmore.asks
      rw [hfirst.lengths, hfirst.accepted] at hasks
      refine ⟨calls ++ more, ?_, hmore.lengths.trans hfirst.lengths,
        hfirst.asks.append hasks hserved, ?_, ?_⟩
      · rw [hmore.requests, hfirst.requests, List.append_assoc]
      · simp [hfirst.accepted, hmore.accepted]
      · intro hnone call hmem
        rcases List.mem_append.mp hmem with hbefore | hafter
        · exact hserved call hbefore
        · exact hmore.served hnone call hafter

variable [FixedLength σ] {backend after : Backend σ} {store : StoreRef} {position length : Nat}

/-- One request, and what it leaves behind. -/
theorem read_call (hstored : ∃ whole, backend.lengths[store.number]? = some whole ∧
      position + length ≤ whole) {answer : Except StoreFailure Reply}
    (hread : backend.read store position length = (answer, after)) :
    after.requests = backend.requests ++
        [.storeRead store.number position length (answer.map Reply.count)] ∧
      after.lengths = backend.lengths := by
  obtain ⟨state, hstate, -⟩ := lengths_eq_some.mp hstored
  have hcall := read_requests (Array.getElem?_eq_some_iff.mp hstate).1 position length
  have hwrites := backend.read_asks store position length
  rw [hread] at hcall hwrites
  exact ⟨hcall, hwrites.lengths⟩

/-- A store under a cursor is asked once. A count that is taken at all is taken as it is. -/
theorem ask_orderly (hpos : 0 < length) (hwanted : skip + length ≤ wanted)
    (hspots : ∀ more < length, spot (skip + more) = some (store, position + more))
    (hstored : ∃ whole, backend.lengths[store.number]? = some whole ∧
      position + length ≤ whole) :
    ∃ calls, (backend.ask store position length).2.requests = backend.requests ++ calls ∧
      Asks backend.lengths spot wanted skip calls ∧
      ∀ bytes, (backend.ask store position length).1 = .ok bytes →
        bytes.length = sumOver Event.accepted calls := by
  cases hread : backend.read store position length with
  | mk answer after =>
      obtain ⟨hrequests, -⟩ := read_call hstored hread
      refine ⟨_, ?_, .single hpos hwanted hspots hstored (answer.map Reply.count), ?_⟩
      · rw [ask_backend, hread]
        exact hrequests
      · intro bytes hanswer
        simp only [ask, hread] at hanswer
        cases answer with
        | error failure => cases hanswer
        | ok reply =>
            dsimp only at hanswer
            split at hanswer
            · cases hanswer
            · obtain rfl := Except.ok.inj hanswer
              simp only [Reply.length_front, Except.map, sumOver_cons, sumOver_nil, Event.accepted]
              omega

/-- Filling asks for the rest of the range again and again. -/
theorem fill_orderly : ∀ {skip : Nat}, skip + length ≤ wanted →
    (∀ more < length, spot (skip + more) = some (store, position + more)) →
    (∃ whole, backend.lengths[store.number]? = some whole ∧ position + length ≤ whole) →
    ∃ calls, backend.Orderly spot wanted skip (backend.fill store position length) calls := by
  fun_induction fill backend store position length with
  | case1 => exact fun _ _ _ => ⟨[], .nothing _⟩
  | case2 backend position length hpos failure after hread =>
      intro skip hwanted hspots hstored
      obtain ⟨hrequests, hlengths⟩ := read_call hstored hread
      exact ⟨_, hrequests, hlengths,
        .single (Nat.pos_of_ne_zero hpos) hwanted hspots hstored _, rfl,
        fun hnone => by cases hnone⟩
  | case3 backend position length hpos reply after hread hcount =>
      intro skip hwanted hspots hstored
      obtain ⟨hrequests, hlengths⟩ := read_call hstored hread
      refine ⟨_, hrequests, hlengths,
        .single (Nat.pos_of_ne_zero hpos) hwanted hspots hstored _, ?_,
        fun hnone => by cases hnone⟩
      simp [Event.accepted, Except.map, hcount]
  | case4 backend position length hpos reply after hread hcount taken rest last hrest =>
      rename_i ih
      intro skip hwanted hspots hstored
      obtain ⟨hrequests, hlengths⟩ := read_call hstored hread
      obtain ⟨whole, hwhole, hbound⟩ := hstored
      have htaken : taken = min reply.count length := rfl
      -- what is left of the range begins right after the bytes that were taken
      have hleft : ∀ more < length - taken,
          spot (skip + taken + more) = some (store, position + taken + more) := by
        intro more hmore
        rw [Nat.add_assoc, Nat.add_assoc]
        exact hspots _ (by omega)
      obtain ⟨calls, hcalls⟩ := ih (by omega) hleft
        ⟨whole, by rw [hlengths]; exact hwhole, by omega⟩
      rw [hrest] at hcalls
      have hfirst : backend.Orderly spot wanted skip (⟨reply.front taken, none⟩, after)
          [.storeRead store.number position length (.ok reply.count)] := by
        refine ⟨hrequests, hlengths,
          .single (Nat.pos_of_ne_zero hpos) hwanted hspots ⟨whole, hwhole, hbound⟩ _, ?_, ?_⟩
        · simp [Event.accepted, htaken]
        · intro _ call hmem
          obtain rfl := List.mem_singleton.mp hmem
          simp only [Event.accepted]
          omega
      have hmore : after.Orderly spot wanted (skip + (reply.front taken).length)
        (rest, last) calls := by
        rw [Reply.length_front]
        exact hcalls
      have hboth : ∃ all, backend.Orderly spot wanted skip
          (andThen (⟨reply.front taken, none⟩, after) fun _ => (rest, last)) all :=
        hfirst.andThen fun _ => ⟨calls, hmore⟩
      exact hboth

/-- Filling pieces asks for them one after another. -/
theorem fillAll_orderly {pieces : List Piece} (hwanted : skip + Piece.total pieces ≤ wanted)
    (hspots : ∀ more < Piece.total pieces, spot (skip + more) = Piece.spot? pieces more)
    (hholds : backend.Holds pieces) :
    ∃ calls, backend.Orderly spot wanted skip (backend.fillAll pieces) calls := by
  induction pieces generalizing backend skip with
  | nil => exact ⟨[], .nothing _⟩
  | cons piece pieces ih =>
      rw [Piece.total_cons] at hwanted hspots
      have hinside : ∀ more < piece.length,
          spot (skip + more) = some (piece.store, piece.start + more) := by
        intro more hmore
        rw [hspots more (by omega), Piece.spot?, if_pos hmore]
      obtain ⟨calls, hfirst⟩ := fill_orderly
        (show skip + piece.length ≤ wanted by omega) hinside
        (hholds piece (List.mem_cons_self ..))
      apply hfirst.andThen
      intro hnone
      have hfills := backend.fill_fills piece.store piece.start piece.length
      obtain ⟨-, hlength⟩ | ⟨error, hsome, -⟩ := hfills
      · rw [hlength]
        apply ih
        · omega
        · intro more hmore
          rw [Nat.add_assoc, hspots _ (by omega), Piece.spot?, if_neg (by omega),
            Nat.add_sub_cancel_left]
        · intro other hmem
          rw [hfirst.lengths]
          exact hholds other (List.mem_cons_of_mem _ hmem)
      · rw [hnone] at hsome
        cases hsome

omit [FixedLength σ] in
/-- The part of a range on one side lies within the stores if what the child shows does. -/
theorem side_holds {header : Header} {joint : Joint} {left right : Block}
    (hsound : (Block.composed header joint left right).Sound) (side : Side) {position length : Nat}
    (hstart : (joint.range side).start ≤ position)
    (hstop : length ≠ 0 → position + length ≤ (joint.range side).stop)
    (hchild : ∀ {inner},
      (joint.child left right side).block.Covers ⟨inner, inner + length⟩ →
      inner + length ≤ (joint.view side).stop →
      backend.Holds ((joint.child left right side).block.pieces inner length)) :
    backend.Holds ((joint.child left right side).block.pieces
      ((joint.view side).shift.inner position) length) := by
  by_cases hpart : length = 0
  · rw [hpart, Block.pieces_zero]
    intro piece hmem
    cases hmem
  · obtain ⟨-, hwithin, hcovers⟩ := hsound.side hstart (hstop hpart)
    exact hchild hcovers hwithin.2

omit [FixedLength σ] in
/-- What a sound block shows lies within the stores, piece by piece. -/
theorem Houses.holds (block : Block) : ∀ {position length stop : Nat}, block.Sound →
    block.Covers ⟨position, position + length⟩ → backend.Houses block stop →
    position + length ≤ stop → backend.Holds (block.pieces position length) := by
  induction block with
  | source header store =>
      intro position length stop _ _ hhouses hstop piece hmem
      rw [Block.pieces] at hmem
      split at hmem
      · cases hmem
      · obtain rfl := List.mem_singleton.mp hmem
        obtain ⟨state, hstate, hbound⟩ := hhouses
        exact lengths_eq_some.mpr ⟨state, hstate, Nat.le_trans hstop hbound⟩
  | composed header joint left right ihleft ihright =>
      intro position length stop hsound hcovers hhouses _ piece hmem
      obtain ⟨hstart, hlast⟩ := hcovers
      simp only [Joint.whole] at hstart hlast
      rw [Block.pieces] at hmem
      rcases List.mem_append.mp hmem with hleft | hright
      · refine side_holds hsound .left hstart ?_ (ihleft hsound.1 · hhouses.1 ·) piece hleft
        intro hpart
        simp only [Joint.range]
        omega
      · refine side_holds hsound .right (Nat.le_max_right ..) ?_
          (ihright hsound.2.1 · hhouses.2 ·) piece hright
        intro hpart
        simp only [Joint.range]
        omega

end Backend

namespace Pool

/-- Whatever there is to be had for a cursor is asked for in order. -/
theorem gathered_orderly [FixedLength σ] {pool : Pool σ} {cursor : Cursor} (hsound : cursor.Sound)
    (hhouses : pool.backend.Houses cursor.block cursor.view.stop) {wanted : Nat} (hpos : 0 < wanted)
    (hless : wanted ≤ cursor.remaining) :
    ∃ calls, (pool.gathered cursor wanted).2.requests = pool.backend.requests ++ calls ∧
      Asks pool.backend.lengths (fun skip => (cursor.advance skip).next?) wanted 0 calls ∧
      ∀ bytes, (pool.gathered cursor wanted).1.answer = .ok bytes →
        bytes.length = sumOver Event.accepted calls := by
  have hfirst := hsound.placed.view.first_le
  have hcurrent := hsound.placed.view.current_le
  have hstop : cursor.view.current + wanted ≤ cursor.view.stop := by
    simp only [Cursor.remaining, View.remaining] at hless
    omega
  have hwithin : Extent.Within ⟨cursor.view.current, cursor.view.current + wanted⟩
    cursor.extent :=
    ⟨hfirst, hstop⟩
  have hspots : ∀ skip < wanted,
    Piece.spot? (cursor.block.pieces cursor.view.current wanted) skip =
      (cursor.advance skip).next? := fun skip hskip => hsound.spot?_ahead hless hskip
  have hholds := hhouses.holds cursor.block hsound.block (hsound.placed.covered.mono hwithin) hstop
  obtain ⟨block, view⟩ := cursor
  cases block with
  | source header store =>
      dsimp only at hspots hholds
      rw [Block.pieces_source header store view.current hpos] at hspots hholds
      have hahead : ∀ more < wanted,
          (Cursor.advance ⟨.source header store, view⟩ (0 + more)).next? =
            some (store, view.current + more) := by
        intro more hmore
        rw [Nat.zero_add, ← hspots more hmore]
        exact Piece.spot?_singleton hmore
      obtain ⟨calls, hrequests, hasks, haccepted⟩ := @Backend.ask_orderly _ _
        (fun skip => (Cursor.advance ⟨.source header store, view⟩ skip).next?) wanted 0 _
        pool.backend _ _ _ hpos (Nat.le_of_eq (Nat.zero_add wanted)) hahead
        (hholds _ (List.mem_singleton_self _))
      obtain ⟨hafter, hanswer⟩ := pool.gathered_source header store view wanted
      rw [hafter, hanswer]
      exact ⟨calls, hrequests, hasks, haccepted⟩
  | composed header joint left right =>
      have hall : ∀ more <
          Piece.total ((Block.composed header joint left right).pieces view.current wanted),
          (Cursor.advance ⟨.composed header joint left right, view⟩ (0 + more)).next? =
            Piece.spot? ((Block.composed header joint left right).pieces view.current wanted)
              more := by
        intro more hmore
        rw [Block.total_pieces] at hmore
        rw [Nat.zero_add]
        exact (hspots more hmore).symm
      obtain ⟨calls, hcalls⟩ := @Backend.fillAll_orderly _ _
        (fun skip => (Cursor.advance ⟨.composed header joint left right, view⟩ skip).next?)
          wanted 0 _
        pool.backend _ (by simp) hall hholds
      refine ⟨calls, hcalls.requests, hcalls.asks, ?_⟩
      intro bytes hanswer
      rw [Gathered.eq_of_answer hanswer]
      exact hcalls.accepted

/-- The new requests of a read: in order, and for as many bytes as it delivers. -/
structure AsksFor (pool next : Pool σ) (cursor : Cursor) (capacity : Nat) (calls : List Event) :
    Prop where
  requests : next.backend.requests = pool.backend.requests ++ calls
  asks : Asks pool.backend.lengths (fun skip => (cursor.advance skip).next?)
    (min capacity cursor.remaining) 0 calls

theorem AsksFor.nothing (pool : Pool σ) (cursor : Cursor) (capacity : Nat) :
    pool.AsksFor pool cursor capacity [] := by
  constructor
  · simp
  · exact .none

theorem read_asksFor [FixedLength σ] {pool : Pool σ} {cursor : Cursor} (hsound : cursor.Sound)
    (hshows : pool.ledger.Shows cursor.block cursor.extent)
    (hhouses : pool.backend.Houses cursor.block cursor.view.stop) (capacity : Nat) :
    ∃ calls, pool.AsksFor (pool.read cursor capacity).2 cursor capacity calls ∧
      ∀ result moved, (pool.read cursor capacity).1 = .ok (result, moved) →
        result.bytes.length = sumOver Event.accepted calls := by
  cases hwanted : cursor.view.wanted capacity with
  | error fault =>
      simp only [read, Cursor.through_eq, hwanted]
      exact ⟨[], .nothing pool cursor capacity, fun _ _ hanswer => by cases hanswer⟩
  | ok wanted =>
      cases wanted with
      | none =>
          simp only [read, Cursor.through_eq, hwanted]
          refine ⟨[], .nothing pool cursor capacity, fun result moved hanswer => ?_⟩
          obtain ⟨rfl, -⟩ := Prod.mk.inj (Except.ok.inj hanswer)
          rfl
      | some wanted =>
          obtain ⟨hpos, hwhole⟩ := View.wanted_some hwanted
          obtain ⟨hanswer, -, -, hrequests, -⟩ := read_gathered hsound hshows hwanted
          obtain ⟨calls, hcalls, hasks, haccepted⟩ :=
            gathered_orderly hsound hhouses hpos (by rw [hwhole]; exact Nat.min_le_right _ _)
          rw [hwhole] at hasks
          refine ⟨calls, ⟨hrequests.trans hcalls, hasks⟩, fun result moved hread => ?_⟩
          rw [hanswer] at hread
          cases hgot : (pool.gathered cursor wanted).1.answer with
          | error error =>
              rw [hgot] at hread
              cases hread
          | ok bytes =>
              rw [hgot] at hread
              obtain ⟨rfl, -⟩ := Prod.mk.inj (Except.ok.inj hread)
              exact haccepted bytes hgot

/-- The plain byte reader asks for nothing where it has no room, and as a read does otherwise. -/
theorem readBytes_asksFor [FixedLength σ] {pool : Pool σ} {cursor : Cursor}
    (hsound : cursor.Sound) (hshows : pool.ledger.Shows cursor.block cursor.extent)
    (hhouses : pool.backend.Houses cursor.block cursor.view.stop) (capacity : Nat) :
    ∃ calls, pool.AsksFor (pool.readBytes cursor capacity).2 cursor capacity calls := by
  obtain ⟨calls, hcalls, -⟩ := read_asksFor hsound hshows hhouses capacity
  unfold readBytes
  split
  · exact ⟨[], .nothing pool cursor capacity⟩
  · cases hread : pool.read cursor capacity with
    | mk answer next =>
        rw [hread] at hcalls
        cases answer <;> exact ⟨calls, hcalls⟩

end Pool

namespace World

variable [FixedLength σ]

/-- In any reachable world over stores of fixed lengths, and whatever the stores answer: a read of a
live cursor asks the stores, in order, for some of the bytes between where the cursor stands and
where its room or its window ends, and for nothing else. Every request is for at least one byte, and
for bytes of the store only; it begins right after the last byte accepted so far. Without room, or
at the end, no store is asked. -/
theorem reads_ask_within (operations : List (Operation σ)) {id : String} {cursor : Cursor}
    (hfind : (run {} operations).find? id = some cursor) (capacity : Nat) :
    let world := run {} operations
    let outcome := world.apply (.read id capacity)
    (∃ calls, world.pool.AsksFor outcome.2.pool cursor capacity calls ∧
      (capacity = 0 ∨ cursor.remaining = 0 → calls = []) ∧
      ∀ result, outcome.1 = .ok (.read result) →
        result.bytes.length = sumOver Event.accepted calls) ∧
    ∃ calls, world.pool.AsksFor (world.pool.readBytes cursor capacity).2 cursor capacity
      calls := by
  intro world outcome
  have h : Ordered {} world := run_empty_ordered operations
  have hsound := (h.focus hfind).1
  have hhouses := run_empty_housed operations _ (mem_of_find? hfind)
  obtain ⟨calls, hcalls, haccepted⟩ := Pool.read_asksFor hsound (h.shows hfind) hhouses capacity
  constructor
  · have hquiet : capacity = 0 ∨ cursor.remaining = 0 → calls = [] := by
      intro hnothing
      have hasks := hcalls.asks
      rw [show min capacity cursor.remaining = 0 by omega] at hasks
      exact hasks.eq_nil
    simp only [outcome, apply, withCursor, show world.find? id = some cursor from hfind]
    generalize world.pool.read cursor capacity = run at hcalls haccepted
    obtain ⟨answer, next⟩ := run
    cases answer with
    | error error => exact ⟨calls, hcalls, hquiet, fun _ hanswer => by cases hanswer⟩
    | ok made =>
        obtain ⟨result, moved⟩ := made
        refine ⟨calls, hcalls, hquiet, fun delivered hanswer => ?_⟩
        obtain rfl := Answer.read.inj (Except.ok.inj hanswer)
        exact haccepted result moved rfl
  · exact Pool.readBytes_asksFor hsound (h.shows hfind) hhouses capacity

/-- Two stores end to end. The first one answers in part, and then claims more than it was asked
for; the second one is busy. -/
def grudging : List (Operation StockStore) :=
  let first : ScriptStore :=
    { name := "first", label := "first", data := .cyclic 4, reads := [.short 1, .over 9] }
  let second : ScriptStore :=
    { name := "second", label := "second", data := .cyclic 3,
      reads := [.fail ⟨.busy, "not now", none⟩] }
  let plan (store : StockStore) : Blueprint StockStore := { store, settings := .compact }
  [.build "a" (plan (.script first)), .build "b" (plan (.script second)),
    .setPosition "b" 1, .concat "a" "b" none, .setPosition "a" 1]

theorem reads_ask_within_grudging :
    let world := run {} grudging
    let outcome := world.apply (.read "a" 4)
    ∃ cursor, world.find? "a" = some cursor ∧ cursor.remaining = 5 ∧
      outcome.2.requests = [.storeRead 0 1 3 (.ok 1), .storeRead 0 2 2 (.ok 11),
        .storeRead 1 1 1 (.error ⟨.busy, "not now", none⟩)] ∧
      ∃ calls, world.pool.AsksFor outcome.2.pool cursor 4 calls ∧
        ∀ result, outcome.1 = .ok (.read result) →
          result.bytes.length = sumOver Event.accepted calls := by
  intro world outcome
  have hremaining : ((run {} grudging).find? "a").map Cursor.remaining = some 5 := by decide +kernel
  have hrequests : ((run {} grudging).apply (.read "a" 4)).2.requests =
      [.storeRead 0 1 3 (.ok 1), .storeRead 0 2 2 (.ok 11),
        .storeRead 1 1 1 (.error ⟨.busy, "not now", none⟩)] := by decide +kernel
  obtain ⟨cursor, hfind, hfive⟩ := Option.map_eq_some_iff.mp hremaining
  obtain ⟨⟨calls, hcalls, -, haccepted⟩, -⟩ := reads_ask_within grudging hfind 4
  exact ⟨cursor, hfind, hfive, hrequests, calls, hcalls, haccepted⟩

end World

end SharedStream
