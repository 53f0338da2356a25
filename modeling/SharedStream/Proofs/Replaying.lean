import SharedStream.Proofs.Confinement
/-!
What becomes of the stores. A store is taken in when a block is to be built over it, and from then
on it is what its lines in the journal make of it: the requests, the hints and the end that the
journal tells of are exactly those that reached the store.
-/

namespace SharedStream

variable {σ : Type} [Store σ]

/-- The store of a new block was taken in, whether the block was made or refused. -/
theorem Pool.build_replays (pool : Pool σ) (plan : Blueprint σ) :
    ∃ events, (pool.backend.add plan.store).Replays events (pool.build plan).2.backend ∧
      (pool.build plan).2.backend.stores.size = (pool.backend.add plan.store).stores.size := by
  unfold build
  split
  · refine ⟨_, .drop _ _, ?_⟩
    simp [discardStore, Backend.drop]
  · exact ⟨_, .log _ rfl, rfl⟩

namespace World

/-- The store that an operation takes in, if it is to build a block. -/
def brings (world : World σ) : Operation σ → Array σ
  | .build id plan => if world.isLive id then #[] else #[plan.store]
  | _ => #[]

/-- The stores that a run takes in, in order. -/
def intake (world : World σ) : List (Operation σ) → Array σ
  | [] => #[]
  | operation :: operations =>
      world.brings operation ++ (world.apply operation).2.intake operations

/-- The journal grew by these events, and each store, be it an old one or one of those that were
brought, is what they make of it. -/
structure Replays (world : World σ) (brought : Array σ) (events : List Event)
    (next : World σ) : Prop where
  journal : next.pool.backend.journal.toList = world.pool.backend.journal.toList ++ events
  stores : next.pool.backend.stores = (world.pool.backend.stores ++ brought).mapIdx
    fun number state => Store.replay number state events

variable {world middle next : World σ} {brought more : Array σ} {events later : List Event}

theorem Replays.size (h : world.Replays brought events next) :
    next.pool.backend.stores.size = world.pool.backend.stores.size + brought.size := by
  rw [h.stores, Array.size_mapIdx, Array.size_append]

theorem Replays.of_backend
    (h : Backend.Replays ⟨world.pool.backend.stores ++ brought,
      world.pool.backend.journal⟩ events next.pool.backend)
    (hsize : next.pool.backend.stores.size = world.pool.backend.stores.size + brought.size) :
    world.Replays brought events next :=
  ⟨h.journal, h.stores_eq (hsize.trans Array.size_append.symm)⟩

theorem Replays.refl (world : World σ) : world.Replays #[] [] world :=
  .of_backend (by simpa using Backend.Replays.refl world.pool.backend) rfl

/-- What is told before a store is taken in does not tell of it. -/
theorem Replays.trans (hfirst : world.Replays brought events middle)
    (hsecond : middle.Replays more later next)
    (hknown : ∀ event ∈ events, ∀ {number : Nat}, event.store? = some number →
      number < middle.pool.backend.stores.size) :
    world.Replays (brought ++ more) (events ++ later) next := by
  have hmiddle : (world.pool.backend.stores ++ brought).size =
      middle.pool.backend.stores.size := by
    rw [hfirst.size, Array.size_append]
  refine ⟨by rw [hsecond.journal, hfirst.journal, List.append_assoc], ?_⟩
  apply Array.ext_getElem?
  intro number
  rw [hsecond.stores, ← Array.append_assoc, Array.getElem?_mapIdx, Array.getElem?_mapIdx]
  by_cases hold : number < middle.pool.backend.stores.size
  · rw [Array.getElem?_append_left hold, Array.getElem?_append_left (by omega), hfirst.stores,
      Array.getElem?_mapIdx, Option.map_map]
    congr 1
    funext state
    exact (Store.replay_append number state events later).symm
  · have hsilent : ∀ event ∈ events, event.store? ≠ some number :=
      fun event hmem hof => hold (hknown event hmem hof)
    rw [Array.getElem?_append_right (by omega), Array.getElem?_append_right (by omega), hmiddle]
    congr 1
    funext state
    rw [Store.replay_append, Store.replay_eq_self hsilent]

/-- The stores after an operation, from those before it. -/
theorem apply_replays {past : Pool σ} (h : Ordered past world) (operation : Operation σ) :
    ∃ events, world.Replays (world.brings operation) events (world.apply operation).2 := by
  have hsince := (apply_since h operation).stores
  cases operation with
  | build id plan =>
      simp only [apply, claiming, brings]
      split
      · exact ⟨[], .refl world⟩
      · obtain ⟨events, hevents, hsize⟩ := world.pool.build_replays plan
        have hreplays : ∀ next : World σ, next.pool = (world.pool.build plan).2 →
            world.Replays #[plan.store] events next := by
          rintro next hpool
          rw [← hpool, Backend.add] at hevents hsize
          exact .of_backend (by simpa using hevents) (by simpa using hsize)
        exact ⟨events, settleNew_cases
          (motive := fun outcome => world.Replays #[plan.store] events outcome.2)
          (fun _ _ => hreplays _ rfl) fun _ _ => hreplays _ rfl⟩
  | refs id =>
      obtain ⟨events, hevents⟩ := hsince
      exact ⟨events, .of_backend (by simpa [brings] using hevents)
        (withCursor_cases (motive := fun outcome =>
          outcome.2.pool.backend.stores.size = world.pool.backend.stores.size)
          rfl fun _ _ => rfl)⟩
  | _ =>
      obtain ⟨events, hevents⟩ := hsince
      exact ⟨events, .of_backend (by simpa [brings] using hevents)
        (apply_grows world rfl).stores⟩

/-- In a world that grew from nothing, the journal tells of no store that is not there. -/
theorem Ordered.known (h : Ordered {} world) {event : Event}
    (hmem : event ∈ world.pool.backend.journal.toList) {number : Nat}
    (hof : event.store? = some number) : number < world.pool.backend.stores.size := by
  obtain ⟨events, hevents⟩ := h.kept.since.stores
  cases hending : event.isEnding with
  | false =>
      rw [hevents.journal] at hmem
      exact hevents.known event hmem hending hof
  | true =>
      rcases h.kept.told.accounted event hmem hending with
        ⟨block, owner, hblock, hconcerns⟩ | ⟨store, rfl, hlt, -⟩
      · cases event with
        | storeDropped store =>
            obtain rfl := Option.some.inj hof
            exact h.kept.told.owned hblock (beq_iff_eq.mp hconcerns)
        | blockFreed _ _ | hookRan _ _ _ => cases hof
        | _ => cases hending
      · obtain rfl := Option.some.inj hof
        exact hlt

/-- After a run every store is what the journal makes of the store that was taken in. -/
theorem run_replays (h : Ordered {} world) (operations : List (Operation σ)) :
    ∃ events, world.Replays (world.intake operations) events (world.run operations) := by
  induction operations generalizing world with
  | nil => exact ⟨[], .refl world⟩
  | cons operation operations ih =>
      have hnext := (apply_lands h operation).ordered
      obtain ⟨events, hevents⟩ := apply_replays h operation
      obtain ⟨later, hlater⟩ := ih hnext
      refine ⟨events ++ later, hevents.trans hlater fun event hmem => hnext.known ?_⟩
      rw [hevents.journal]
      exact List.mem_append_right _ hmem

theorem run_empty_replays (operations : List (Operation σ)) :
    Replays {} (intake {} operations) (run {} operations).pool.backend.journal.toList
      (run {} operations) := by
  obtain ⟨events, hevents⟩ := run_replays empty_ordered operations
  obtain rfl : (run {} operations).pool.backend.journal.toList = events := hevents.journal
  exact hevents

end World

end SharedStream
