import SharedStream.Proofs.Advice
/-!
A release, to the last line of the journal. First the stores hear of the newly released bytes, each
piece of them once and in order; only then do needs change, children retire, hooks run and stores
go. What the stores make of the hints is of no consequence: over other stores, with the same cursors
and the same books, the same release comes to the same.
-/

namespace SharedStream

/-- Of what is said about a release, the hints are what the stores hear. -/
theorem Store.replay_advice {σ : Type} [Store σ] (number : Nat) (state : σ) {told : List Event}
    (hadvice : ∀ event ∈ told, event.isAdvice = true) :
    Store.replay number state told = Store.replay number state (told.filter Event.isHint) := by
  induction told generalizing state with
  | nil => rfl
  | cons event told ih =>
      rw [List.forall_mem_cons] at hadvice
      have hrest := ih (Store.after number state event) hadvice.2
      cases event with
      | storeHinted store position =>
          rw [List.filter_cons_of_pos rfl]
          exact hrest
      | hintRejected name failure =>
          rw [List.filter_cons_of_neg Bool.false_ne_true]
          exact hrest
      | _ => cases hadvice.1

namespace Pool

variable {σ τ : Type}

/-- Two pools went on side by side: their books are equal in the end, and both journals grew by the
same lines. -/
structure Alongside (pool next : Pool σ) (other last : Pool τ) : Prop where
  ledger : next.ledger = last.ledger
  journal : ∃ events, next.backend.journal.toList = pool.backend.journal.toList ++ events ∧
    last.backend.journal.toList = other.backend.journal.toList ++ events

namespace Alongside

variable {pool middle next : Pool σ} {other midway last : Pool τ}

theorem refl (h : pool.ledger = other.ledger) : Alongside pool pool other other :=
  ⟨h, [], by simp, by simp⟩

theorem trans (hfirst : Alongside pool middle other midway)
    (hsecond : Alongside middle next midway last) : Alongside pool next other last := by
  obtain ⟨events, hjournal, hjournal'⟩ := hfirst.journal
  obtain ⟨more, hmore, hmore'⟩ := hsecond.journal
  refine ⟨hsecond.ledger, events ++ more, ?_, ?_⟩
  · rw [hmore, hjournal, List.append_assoc]
  · rw [hmore', hjournal', List.append_assoc]

theorem log (h : Alongside pool next other last) (event : Event) :
    Alongside pool (next.log event) other (last.log event) :=
  h.trans ⟨h.ledger, [event], by simp [Pool.log, Backend.log], by simp [Pool.log, Backend.log]⟩

theorem modify (h : pool.ledger = other.ledger) (number : Nat) (change : Page → Page) :
    Alongside pool { pool with ledger := pool.ledger.modify number change } other
      { other with ledger := other.ledger.modify number change } :=
  ⟨by simp only [h], [], by simp, by simp⟩

end Alongside

variable {pool : Pool σ} {other : Pool τ}

theorem recountSlot_alongside (h : pool.ledger = other.ledger) (header : Header) (joint : Joint)
    (before after : Extent) (side : Side) :
    Alongside pool (pool.recountSlot header joint before after side).1 other
        (other.recountSlot header joint before after side).1 ∧
      (pool.recountSlot header joint before after side).2 =
        (other.recountSlot header joint before after side).2 := by
  unfold recountSlot
  rw [h]
  split
  · exact ⟨.refl h, rfl⟩
  · rename_i page _
    have hslot := Alongside.modify h header.number fun p =>
      p.setSlot ((page.slot side).recount (joint.range side) before after).1 side
    rw [h] at hslot
    have hnote : ∀ {next : Pool σ} {last : Pool τ} (needs : Nat) (seen sees : Bool),
        Alongside pool next other last →
          Alongside pool (next.noteNeed header side needs seen sees)
          other (last.noteNeed header side needs seen sees) := by
      intro next last needs seen sees hsofar
      unfold noteNeed
      split
      · exact hsofar.log _
      · exact hsofar
    simp only
    split
    · exact ⟨(hnote _ _ _ hslot).log _, rfl⟩
    · exact ⟨hnote _ _ _ hslot, rfl⟩

theorem recount_alongside (h : pool.ledger = other.ledger) (block : Block)
    (before after : Extent) :
    Alongside pool (pool.recount block before after).1 other
        (other.recount block before after).1 ∧
      (pool.recount block before after).2 = (other.recount block before after).2 := by
  cases block with
  | source header store => exact ⟨.refl h, rfl⟩
  | composed header joint left right =>
      obtain ⟨hright, hrightGone⟩ := recountSlot_alongside h header joint before after .right
      obtain ⟨hleft, hleftGone⟩ :=
        recountSlot_alongside hright.ledger header joint before after .left
      refine ⟨hright.trans hleft, ?_⟩
      simp only [recount, hrightGone, hleftGone]

variable [Store σ] [Store τ]

theorem unhold_alongside (h : pool.ledger = other.ledger) (block : Block) :
    Alongside pool (pool.unhold block).1 other (other.unhold block).1 ∧
      (pool.unhold block).2 = (other.unhold block).2 := by
  unfold unhold
  rw [h]
  split
  · exact ⟨.refl h, rfl⟩
  · rename_i page _
    split
    · refine ⟨⟨?_, block.lastWords, (Kept.free_replays pool block page).journal,
        (Kept.free_replays other block page).journal⟩, ?_⟩
      · rw [Kept.free_ledger, Kept.free_ledger, h]
      · cases block <;> rfl
    · have hpage := Alongside.modify h block.number fun p => { p with refs := p.refs - 1 }
      rw [h] at hpage
      exact ⟨hpage, rfl⟩

theorem disposeOne_alongside (h : pool.ledger = other.ledger) (child : Cursor) :
    Alongside pool (pool.disposeOne child).1 other (other.disposeOne child).1 ∧
      (pool.disposeOne child).2 = (other.disposeOne child).2 := by
  obtain ⟨hrecount, hdetached⟩ := recount_alongside h child.block child.extent .empty
  obtain ⟨hunhold, hleftover⟩ := unhold_alongside hrecount.ledger child.block
  simp only [disposeOne, detach_eq, hdetached, hleftover]
  exact ⟨hrecount.trans hunhold, trivial⟩

theorem disposeAll_alongside (h : pool.ledger = other.ledger) (children : List Cursor) :
    Alongside pool (pool.disposeAll children) other (other.disposeAll children) := by
  fun_induction disposeAll pool children generalizing other with
  | case1 pool =>
      rw [disposeAll]
      exact .refl h
  | case2 pool child children next detached hnext ih =>
      obtain ⟨hone, hsame⟩ := disposeOne_alongside h child
      rw [hnext] at hone hsame
      rw [disposeAll.eq_2 other]
      generalize other.disposeOne child = last at hone hsame
      obtain ⟨last, detached'⟩ := last
      obtain rfl : detached = detached' := hsame
      exact hone.trans (ih hone.ledger)

theorem resize_alongside (h : pool.ledger = other.ledger) (block : Block)
    (before after : Extent) :
    Alongside pool (pool.resize block before after) other (other.resize block before after) := by
  obtain ⟨hrecount, hdetached⟩ := recount_alongside h block before after
  have hdisposed := disposeAll_alongside hrecount.ledger (pool.recount block before after).2
  simp only [resize]
  rw [← hdetached]
  exact hrecount.trans hdisposed

/-- What a granted release through `position` comes to, if `first` is the first inner position that
stays visible. Each hint releases its store once, and whatever ends comes after that. -/
structure Releases (pool : Pool σ) (cursor : Cursor) (position : Nat) (next : Pool σ)
    (first : Nat) : Prop where
  named : (first : Int) + cursor.view.shift.amount = position + 1
  passed : cursor.view.first < first ∧ first ≤ cursor.view.current
  /-- The released leaves are the pieces at the front of the cursor's window. -/
  pieces : (cursor.block.leaves cursor.view.first (first - cursor.view.first)).map Leaf.piece =
    Piece.clip cursor.pieces 0 (first - cursor.view.first)
  journal : ∃ told ending, next.backend.journal.toList =
      pool.backend.journal.toList ++ told ++ ending ∧
    told.filter Event.isHint =
      (cursor.block.leaves cursor.view.first (first - cursor.view.first)).filterMap Leaf.hint? ∧
    (∀ event ∈ told, event.isAdvice = true) ∧
      (∀ event ∈ ending, event.isUpkeep = true) ∧
    next.backend.stores = pool.backend.stores.mapIdx fun number state =>
      Store.replay number
        (Store.replay number state
          ((cursor.block.leaves cursor.view.first (first - cursor.view.first)).filterMap
            Leaf.hint?))
        ending

/-- Before a release, the stores below the bytes that it lets go of hear of them, leaf by leaf. -/
theorem adviseBelow_told {past : Pool σ} {pool : Pool σ} {held : List Hold} {cursor : Cursor}
    {first : Nat} (hkept : past.Kept pool held) (hmem : cursor.hold ∈ held)
    (hsound : cursor.Sound) (hfrom : cursor.view.first < first) (hto : first ≤ cursor.view.stop) :
    ∃ told, (pool.adviseBelow cursor.block ⟨cursor.view.first, first⟩).backend.journal.toList =
        pool.backend.journal.toList ++ told ∧
      (∀ event ∈ told, event.isAdvice = true) ∧
      told.filter Event.isHint =
        (cursor.block.leaves cursor.view.first (first - cursor.view.first)).filterMap
          Leaf.hint? := by
  have hlength : cursor.view.first + (first - cursor.view.first) = first := by omega
  have hwithin : Extent.Within
      ⟨cursor.view.first, cursor.view.first + (first - cursor.view.first)⟩ cursor.extent := by
    rw [hlength]
    exact ⟨Nat.le_refl _, hto⟩
  have hshows := hkept.balanced.shows cursor.block (Or.inl hmem)
  have hadvised := (adviseBelow_leaves (Nat.sub_pos_of_lt hfrom) hsound.block
    (hsound.placed.covered.mono hwithin) (hshows.mono hwithin)).2
  rw [hlength] at hadvised
  rw [hadvised]
  refine Backend.adviseLeaves_told _ pool.backend fun leaf hleaf => ?_
  have hpiece := List.mem_map_of_mem (f := Leaf.piece) hleaf
  rw [Block.map_leaves] at hpiece
  exact hkept.stored cursor.block (hkept.balanced.known _ hmem) hpiece

theorem release_journal {past pool next : Pool σ} {held : List Hold} {cursor kept : Cursor}
    {position : Nat} (hkept : past.Kept pool held) (hmem : cursor.hold ∈ held)
    (hsound : cursor.Sound) (hrelease : pool.release cursor position = (.ok kept, next)) :
    ∃ first, kept = cursor.withView { cursor.view with first } ∧
      pool.Releases cursor position next first := by
  simp only [release, Cursor.through_eq] at hrelease
  split at hrelease
  · cases hrelease
  · rename_i first hfirst
    obtain ⟨hmade, rfl⟩ := Prod.mk.inj hrelease
    obtain rfl := Except.ok.inj hmade
    obtain ⟨inner, hinner, hfrom, hpassed, rfl⟩ := View.firstKept_ok hfirst
    have hstop : inner + 1 ≤ cursor.view.stop := Nat.le_trans hpassed hsound.placed.view.current_le
    obtain ⟨told, htold, hadvice, hhints⟩ :=
      adviseBelow_told hkept hmem hsound (Nat.lt_succ_of_le hfrom) hstop
    have hadvised := pool.adviseBelow_advises cursor.block ⟨cursor.view.first, inner + 1⟩
    have hresized := resize_upkeeps
      (pool.adviseBelow cursor.block ⟨cursor.view.first, inner + 1⟩) cursor.block cursor.extent
      (cursor.withView { cursor.view with first := inner + 1 }).extent
    obtain ⟨ending, hending, hupkeep⟩ := hresized.journal
    rw [htold] at hending
    have hstores := ((hadvised.2.stores.trans hresized.stores).replays
      (hending.trans (List.append_assoc ..))).stores_eq (hresized.size.trans hadvised.2.size)
    refine ⟨inner + 1, rfl, ?_, ⟨Nat.lt_succ_of_le hfrom, hpassed⟩, ?_, told, ending, hending,
      hhints, hadvice, hupkeep, ?_⟩
    · have hname := ((Shift.inner?_eq_some_iff ..).mp hinner).1
      omega
    · have hcut := hsound.pieces_window (Nat.le_refl cursor.view.first) hstop
      rw [Nat.sub_self] at hcut
      rw [Block.map_leaves, hcut]
    · rw [hstores, ← hhints]
      congr 1
      funext number state
      rw [Store.replay_append, Store.replay_advice number state hadvice]

/-- Over other stores, a release is granted or refused as it is here, changes the books as it does
here, and is followed by the same endings. -/
theorem release_alongside {pool : Pool σ} {other : Pool τ} (h : pool.ledger = other.ledger)
    (cursor : Cursor) (position : Nat) :
    (pool.release cursor position).1 = (other.release cursor position).1 ∧
      (pool.release cursor position).2.ledger = (other.release cursor position).2.ledger ∧
      ∃ told told' ending,
        (pool.release cursor position).2.backend.journal.toList =
          pool.backend.journal.toList ++ told ++ ending ∧
        (other.release cursor position).2.backend.journal.toList =
          other.backend.journal.toList ++ told' ++ ending ∧
        (∀ event ∈ told, event.isAdvice = true) ∧
          (∀ event ∈ told', event.isAdvice = true) ∧
        ∀ event ∈ ending, event.isUpkeep = true := by
  simp only [release, Cursor.through_eq]
  cases hfirst : cursor.view.firstKept position with
  | error fault => exact ⟨rfl, h, [], [], [], by simp, by simp, by simp, by simp, by simp⟩
  | ok first =>
      have hadvice := pool.adviseBelow_advises cursor.block ⟨cursor.view.first, first⟩
      have hadvice' := other.adviseBelow_advises cursor.block ⟨cursor.view.first, first⟩
      simp only
      generalize pool.adviseBelow cursor.block ⟨cursor.view.first, first⟩ = advised
        at hadvice ⊢
      generalize other.adviseBelow cursor.block ⟨cursor.view.first, first⟩ = advised'
        at hadvice' ⊢
      obtain ⟨hledger, -, -, told, htold, hkind⟩ := hadvice
      obtain ⟨hledger', -, -, told', htold', hkind'⟩ := hadvice'
      let kept := cursor.withView { cursor.view with first }
      have hsame : advised.ledger = advised'.ledger := hledger.trans (h.trans hledger'.symm)
      have hresize := resize_alongside hsame cursor.block cursor.extent kept.extent
      obtain ⟨ending, hending, hupkeep⟩ :=
        (advised.resize_upkeeps cursor.block cursor.extent kept.extent).journal
      obtain ⟨events, hevents, hevents'⟩ := hresize.journal
      obtain rfl : ending = events := List.append_cancel_left (hending.symm.trans hevents)
      exact ⟨trivial, hresize.ledger, told, told', ending, by rw [hevents, htold],
        by rw [hevents', htold'], hkind, hkind', hupkeep⟩

end Pool

namespace World

variable {σ : Type} [Store σ]

/-- In any reachable state, a granted release tells the stores of exactly the newly released bytes:
one hint for each piece of them, from left to right, to the stores whose own blocks want hints, with
the last position of the piece. A hint is one release of its store, and nothing else is made of the
stores before anything retires or ends, which comes after all hints. Over any other stores with the
same cursors and books, the same release is answered alike, leaves the same cursors and books, and
is followed by the same endings. -/
theorem releases_hint_exactly (operations : List (Operation σ)) :
    let world := run {} operations
    (∀ id cursor position answer next, world.find? id = some cursor →
      world.apply (.release id position) = (.ok answer, next) →
      ∃ first, next.find? id = some (cursor.withView { cursor.view with first }) ∧
        world.pool.Releases cursor position next.pool first) ∧
    (∀ (τ : Type) [Store τ] (other : World τ) id position, other.cursors = world.cursors →
      other.pool.ledger = world.pool.ledger →
      let here := world.apply (.release id position)
      let there := other.apply (.release id position)
      here.1 = there.1 ∧ here.2.cursors = there.2.cursors ∧
        here.2.pool.ledger = there.2.pool.ledger ∧
        ∃ told told' ending,
          here.2.pool.backend.journal.toList =
            world.pool.backend.journal.toList ++ told ++ ending ∧
          there.2.pool.backend.journal.toList =
            other.pool.backend.journal.toList ++ told' ++ ending ∧
          (∀ event ∈ told, event.isAdvice = true) ∧
            (∀ event ∈ told', event.isAdvice = true) ∧
          ∀ event ∈ ending, event.isUpkeep = true) := by
  intro world
  have h : Ordered {} world := run_empty_ordered operations
  constructor
  · intro id cursor position answer next hfind happly
    obtain ⟨hsound, hkept⟩ := h.focus hfind
    simp only [apply, withCursor, hfind] at happly
    cases hrelease : world.pool.release cursor position with
    | mk made pool =>
        rw [hrelease] at happly
        cases made with
        | error fault => cases happly
        | ok kept =>
            obtain rfl := (Prod.mk.inj happly).2
            obtain ⟨first, rfl, hreleases⟩ :=
              Pool.release_journal hkept (List.mem_cons_self ..) hsound hrelease
            exact ⟨first, find?_update hfind _, hreleases⟩
  · intro τ _ other id position hcursors hledger here there
    have hsame : other.find? id = world.find? id := by rw [find?, find?, hcursors]
    simp only [here, there, apply, withCursor, hsame]
    cases hfind : world.find? id with
    | none =>
        exact ⟨rfl, hcursors.symm, hledger.symm, [], [], [], by simp, by simp, by simp, by simp,
          by simp⟩
    | some cursor =>
        obtain ⟨hanswer, hbooks, hjournals⟩ :=
          Pool.release_alongside hledger.symm cursor position
        simp only
        generalize world.pool.release cursor position = run at hanswer hbooks hjournals ⊢
        generalize other.pool.release cursor position = run' at hanswer hbooks hjournals ⊢
        obtain ⟨made, pool⟩ := run
        obtain ⟨made', pool'⟩ := run'
        obtain rfl : made = made' := hanswer
        cases made with
        | error fault => exact ⟨rfl, hcursors.symm, hbooks, hjournals⟩
        | ok kept =>
            refine ⟨rfl, ?_, hbooks, hjournals⟩
            simp only [settleMoved, withPool, update, hcursors]

end World

end SharedStream
