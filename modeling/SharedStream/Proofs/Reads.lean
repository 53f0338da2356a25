import SharedStream.Proofs.Flattening
/-!
What one read of a cursor comes to, down to the last line of the journal. The bytes come from one
request to the store under the cursor, or from the pieces ahead in a composition, one after another.
The journal lists what was asked, then the warning if a failure was passed over, and then the read
itself. Whatever ends a read early is the doing of a store.
-/

namespace SharedStream

/-- The failure lies with a store: it reports one, or it breaks its word about the bytes. -/
def Failure.blamesStore : Failure → Bool
  | .store _ => true
  | .fault (.badCount _ _ _) | .fault (.childStarved _) => true
  | .fault _ => false

/-- The warning that a failure was passed over for the sake of the bytes before it. -/
def Gathered.remarks (got : Gathered) : List Event :=
  match got.failure with
  | none => []
  | some error => if got.bytes.isEmpty then [] else [.partialRead got.bytes.length error]

/-- Only an answer with bytes passes over a failure. -/
theorem Gathered.remarks_of_error {got : Gathered} {error : Failure}
    (h : got.answer = .error error) : got.remarks = [] ∧ got.failure = some error := by
  unfold answer at h
  unfold remarks
  cases hfailure : got.failure with
  | none =>
      rw [hfailure] at h
      cases h
  | some failure =>
      cases hempty : got.bytes.isEmpty with
      | true =>
          simp only [hfailure, hempty, if_true] at h
          exact ⟨rfl, congrArg some (Except.error.inj h)⟩
      | false => simp [hfailure, hempty] at h

theorem Gathered.mem_remarks {got : Gathered} {event : Event} (h : event ∈ got.remarks) :
    ∃ error, got.failure = some error ∧ event = .partialRead got.bytes.length error := by
  unfold remarks at h
  cases hfailure : got.failure with
  | none => simp [hfailure] at h
  | some error =>
      rw [hfailure] at h
      dsimp only at h
      split at h
      · cases h
      · exact ⟨error, rfl, List.mem_singleton.mp h⟩

/-- The line that ends the journal of a read, if it delivers bytes. -/
def Cursor.readNotes (cursor : Cursor) : Except Failure (List UInt8) → List Event
  | .error _ => []
  | .ok bytes => [cursor.block.readEvent bytes.length (cursor.advance bytes.length).position]

variable {σ : Type} [Store σ]

namespace Backend

omit [Store σ] in
theorem settle_spec (backend : Backend σ) (got : Gathered) :
    (backend.settle got).1 = got.answer ∧ (backend.settle got).2.stores = backend.stores ∧
      (backend.settle got).2.journal.toList = backend.journal.toList ++ got.remarks := by
  unfold settle Gathered.answer Gathered.remarks
  cases got.failure with
  | none => simp
  | some error => cases got.bytes.isEmpty <;> simp [log]

theorem fill_blames (backend : Backend σ) (store : StoreRef) (position length : Nat)
    {error : Failure} (h : (backend.fill store position length).1.failure = some error) :
    error.blamesStore = true := by
  fun_induction fill backend store position length with
  | case1 => cases h
  | case2 =>
      obtain rfl := Option.some.inj h
      rfl
  | case3 =>
      obtain rfl := Option.some.inj h
      rfl
  | case4 backend position length _ reply after _ _ taken rest last hrest ih =>
      rw [hrest] at ih
      exact ih h

theorem fillAll_blames (pieces : List Piece) (backend : Backend σ) {error : Failure}
    (h : (backend.fillAll pieces).1.failure = some error) : error.blamesStore = true := by
  induction pieces generalizing backend with
  | nil => cases h
  | cons piece pieces ih =>
      rw [fillAll, andThen] at h
      cases hfirst : (backend.fill piece.store piece.start piece.length).1.failure with
      | some failure =>
          rw [hfirst] at h
          exact backend.fill_blames _ _ _ h
      | none =>
          rw [hfirst] at h
          exact ih _ h

theorem ask_blames {backend after : Backend σ} {store : StoreRef} {position wanted : Nat}
    {error : Failure} (h : backend.ask store position wanted = (.error error, after)) :
    error.blamesStore = true := by
  unfold ask at h
  split at h
  · obtain ⟨rfl, -⟩ := (Prod.mk.inj h).imp_left Except.error.inj
    rfl
  · split at h
    · obtain ⟨rfl, -⟩ := (Prod.mk.inj h).imp_left Except.error.inj
      rfl
    · cases (Prod.mk.inj h).1

end Backend

namespace Pool

/-- What there is to be had for a cursor: one answer of the store under it, or the pieces ahead
filled one after another. -/
def gathered (pool : Pool σ) (cursor : Cursor) (wanted : Nat) : Gathered × Backend σ :=
  match cursor.block with
  | .source _ store =>
      match pool.backend.ask store cursor.view.current wanted with
      | (.ok bytes, backend) => (⟨bytes, none⟩, backend)
      | (.error error, backend) => (⟨[], some error⟩, backend)
  | .composed _ _ _ _ => pool.backend.fillAll (cursor.block.pieces cursor.view.current wanted)

theorem gathered_source (pool : Pool σ) (header : Header) (store : StoreRef) (view : View)
    (wanted : Nat) :
    let got := pool.gathered ⟨.source header store, view⟩ wanted
    let asked := pool.backend.ask store view.current wanted
    got.2 = asked.2 ∧ got.1.answer = asked.1 := by
  simp only [gathered]
  cases pool.backend.ask store view.current wanted with
  | mk answer after => cases answer <;> exact ⟨rfl, rfl⟩

theorem gathered_blames {pool : Pool σ} {cursor : Cursor} {wanted : Nat} {error : Failure}
    (h : (pool.gathered cursor wanted).1.failure = some error) : error.blamesStore = true := by
  unfold gathered at h
  split at h
  · split at h
    · cases h
    · rename_i hask
      obtain rfl := Option.some.inj h
      exact Backend.ask_blames hask
  · exact Backend.fillAll_blames _ _ h

/-- What a block delivers into a cursor's buffer is what there is to be had. -/
theorem readBlock_gathered {pool : Pool σ} {cursor : Cursor} (hsound : cursor.Sound)
    (hshows : pool.ledger.Shows cursor.block cursor.extent) {wanted : Nat} (hpos : 0 < wanted)
    (hless : wanted ≤ cursor.remaining) :
    let run := pool.backend.readBlock pool.ledger cursor.block cursor.view.current wanted
    let got := pool.gathered cursor wanted
    run.1 = got.1.answer ∧ run.2.stores = got.2.stores ∧ run.2.requests = got.2.requests ∧
      ∃ asked, (∀ event ∈ asked, event.isAsking = true) ∧
        run.2.journal.toList = pool.backend.journal.toList ++ asked ++ got.1.remarks := by
  obtain ⟨block, view⟩ := cursor
  cases block with
  | source header store =>
      obtain ⟨asked, hjournal, hasked⟩ :=
        (pool.backend.ask_asks store view.current wanted).journal
      simp only [Backend.readBlock, gathered]
      cases hask : pool.backend.ask store view.current wanted with
      | mk answer backend =>
          rw [hask] at hjournal
          cases answer with
          | ok bytes =>
              exact ⟨rfl, rfl, rfl, asked, hasked, by simpa [Gathered.remarks] using hjournal⟩
          | error error =>
              exact ⟨rfl, rfl, rfl, asked, hasked, by simpa [Gathered.remarks] using hjournal⟩
  | composed header joint left right =>
      have hwithin : Extent.Within ⟨view.current, view.current + wanted⟩ view.extent := by
        have hfirst := hsound.placed.view.first_le
        have hcurrent := hsound.placed.view.current_le
        simp only [Cursor.remaining, View.remaining] at hless
        exact ⟨hfirst, by dsimp only [View.extent] at *; omega⟩
      -- the journal is read off the work list, the answer off the recursion it flattens
      have hcollect := Backend.collect_pieces _ pool.backend view.current hsound.block hpos
        (hshows.mono hwithin) (hsound.placed.covered.mono hwithin)
      have hfills := @Backend.collect_fills _ _ pool.ledger (.composed header joint left right)
        pool.backend view.current _ hpos
      obtain ⟨hgot, halike⟩ := @Backend.gather_collect _ _ _ _ _ pool.ledger
        (Backend.Alike.refl pool.backend) header joint left right view.current wanted
      obtain ⟨asked, hjournal, hasked⟩ :=
        ((pool.backend.noteCrossing_asks joint view.current wanted).trans
          (Backend.gather_asks _ pool.ledger [] (pool.ledger.parts header.number joint left right
            view.current wanted))).journal
      rw [hcollect] at hgot halike hfills
      simp only [gathered]
      generalize hrun : Backend.gather (pool.backend.noteCrossing joint view.current wanted)
        pool.ledger [] (pool.ledger.parts header.number joint left right view.current wanted) = run
        at hgot halike hjournal
      generalize pool.backend.fillAll
        ((Block.composed header joint left right).pieces view.current wanted) = got
        at hgot halike hfills ⊢
      obtain ⟨hanswer, hstores, hnoted⟩ := run.2.settle_spec run.1
      have hsettled := (halike.settle run.1).2
      have hread : pool.backend.readComposed pool.ledger header joint left right view.current
          wanted = run.2.settle run.1 := by
        simp only [Backend.readComposed, hrun]
      rw [hgot] at hanswer hstores hnoted hsettled hread
      simp only [Backend.readBlock, hread]
      generalize run.2.settle got.1 = settled at hanswer hstores hnoted hsettled
      obtain ⟨answer, after⟩ := settled
      change answer = got.1.answer at hanswer
      have hlines : after.journal.toList =
          pool.backend.journal.toList ++ asked ++ got.1.remarks := by
        rw [← hjournal]
        exact hnoted
      cases answer with
      | error error =>
          exact ⟨hanswer, hsettled.stores, hsettled.requests, asked, hasked, hlines⟩
      | ok bytes =>
          have hsome : bytes.isEmpty = false := by
            have hlength := (Backend.length_of_answer hfills hpos hanswer.symm).1
            exact List.isEmpty_eq_false_iff.mpr (List.length_pos_iff.mp hlength)
          simp only [hsome, Bool.false_eq_true, if_false]
          exact ⟨hanswer, hsettled.stores, hsettled.requests, asked, hasked, hlines⟩

theorem read_quiet (pool : Pool σ) (cursor : Cursor) (capacity : Nat) :
    pool.backend.Quiet (pool.read cursor capacity).2.backend := by
  simp only [read, Cursor.through_eq]
  split
  · exact .refl _
  · exact .refl _
  · rename_i wanted _
    have hquiet := pool.backend.readBlock_quiet pool.ledger cursor.block cursor.view.current wanted
    split
    · rename_i hread
      rw [hread] at hquiet
      exact hquiet
    · rename_i bytes backend hread
      rw [hread] at hquiet
      exact hquiet.trans
        (.log backend (cursor.block.readEvent_store? _ _) (cursor.block.readEvent_isQuiet _ _))

/-- One read with room for bytes and bytes ahead: the answer, the stores, and the journal. -/
theorem read_gathered {pool : Pool σ} {cursor : Cursor} (hsound : cursor.Sound)
    (hshows : pool.ledger.Shows cursor.block cursor.extent) {capacity wanted : Nat}
    (hwanted : cursor.view.wanted capacity = .ok (some wanted)) :
    let run := pool.read cursor capacity
    let got := pool.gathered cursor wanted
    run.1 = got.1.answer.map (fun bytes => (.read bytes, cursor.advance bytes.length)) ∧
      run.2.ledger = pool.ledger ∧ run.2.backend.stores = got.2.stores ∧
      run.2.backend.requests = got.2.requests ∧
      ∃ asked, (∀ event ∈ asked, event.isAsking = true) ∧
        run.2.backend.journal.toList =
          pool.backend.journal.toList ++ asked ++ got.1.remarks ++
            cursor.readNotes got.1.answer := by
  obtain ⟨hpos, hleast⟩ := View.wanted_some hwanted
  have hless : wanted ≤ cursor.remaining := by
    simp only [Cursor.remaining]
    omega
  obtain ⟨hanswer, hstores, hrequests, asked, hasked, hjournal⟩ :=
    readBlock_gathered hsound hshows hpos hless
  simp only [read, Cursor.through_eq, hwanted]
  generalize pool.backend.readBlock pool.ledger cursor.block cursor.view.current wanted = run
    at hanswer hstores hrequests hjournal
  generalize pool.gathered cursor wanted = got at hanswer hstores hrequests hjournal ⊢
  obtain ⟨answer, backend⟩ := run
  change answer = _ at hanswer
  rw [← hanswer]
  cases answer with
  | error error =>
      exact ⟨rfl, rfl, hstores, hrequests, asked, hasked, by
        simpa [Cursor.readNotes] using hjournal⟩
  | ok bytes =>
      refine ⟨rfl, rfl, hstores, ?_, asked, hasked, ?_⟩
      · rw [← hrequests]
        cases cursor.block <;> simp [Backend.requests, Backend.log, Block.readEvent,
          Event.isRequest]
      · change backend.journal.toList = _ at hjournal
        simp [Backend.log, hjournal, Cursor.readNotes]

end Pool

end SharedStream
