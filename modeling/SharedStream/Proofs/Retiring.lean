import SharedStream.Proofs.Seats
import SharedStream.Proofs.Upkeep
/-!
The order of retirement. The children that come out of their seats wait in a line; the first one is
disposed of, and the children that come out with it go in front of the line. This *visits* exactly
the emptied seats of the walk, each where the walk meets it for the last time. Three facts carry the
proof: whatever is below a child that waits, or below one that is kept, is still kept; a child that
stays although its turn was due is met again further on, because whoever still sees it is visited
later; and no child is below its own sibling.
-/

namespace SharedStream

/-- What a list takes from `f x` may be left out if all of it comes again later. -/
theorem dedup_flatMap_filter {α β : Type} [DecidableEq β] (f : α → List β) (p : α → Bool)
    (xs : List α) (ys : List β) (hagain : ∀ x ∈ xs, p x = false → f x ⊆ ys) :
    (xs.flatMap f ++ ys).dedup = ((xs.filter p).flatMap f ++ ys).dedup := by
  induction xs with
  | nil => rfl
  | cons x xs ih =>
      have hrest := ih fun y hy => hagain y (List.mem_cons_of_mem _ hy)
      rw [List.flatMap_cons, List.append_assoc]
      cases hp : p x with
      | true =>
          rw [List.filter_cons_of_pos hp, List.flatMap_cons, List.append_assoc, List.dedup_append,
            hrest, ← List.dedup_append]
      | false =>
          have hsubset : f x ⊆ xs.flatMap f ++ ys :=
            List.Subset.trans (hagain x (List.mem_cons_self ..) hp) (List.subset_append_right ..)
          rw [List.filter_cons_of_neg (by simp [hp]), List.Subset.dedup_append_right hsubset, hrest]

theorem forestWeight_vacated (before after : Ledger) (block : Block) :
    forestWeight ((before.vacated after block).map Seat.child) < block.weight := by
  cases block with
  | source header store => simp [Ledger.vacated, Block.seats, Block.weight]
  | composed header joint left right =>
      simp only [Ledger.vacated, Block.seats, List.filter_cons, List.filter_nil, Block.weight]
      split <;> split <;> simp [Joint.child] <;> omega

namespace Pool

variable {σ : Type} [Store σ]

/-- Dispose of the child that came out of a seat. -/
def disposeSeat (pool : Pool σ) (seat : Seat) : Pool σ := (pool.disposeOne seat.child).1

/-- The seats whose children wait when that of the first one has been disposed of: those that were
emptied by it, and then the others. -/
def lineAfter (pool : Pool σ) (seat : Seat) (seats : List Seat) : List Seat :=
  pool.ledger.vacated (pool.disposeSeat seat).ledger seat.child.block ++ seats

/-- The seats whose children are disposed of if those of `seats` wait, in the order in which that
happens. -/
def visits (pool : Pool σ) : List Seat → List Seat
  | [] => []
  | seat :: seats => seat :: (pool.disposeSeat seat).visits (pool.lineAfter seat seats)
termination_by seats => forestWeight (seats.map Seat.child)
decreasing_by
  have hless := forestWeight_vacated pool.ledger (pool.disposeSeat seat).ledger seat.child.block
  simp only [lineAfter, List.map_append, List.map_cons, forestWeight_append, forestWeight_cons]
  omega

/-- The seats that are visited when a holder's extent changes. -/
def retired (pool : Pool σ) (block : Block) (before after : Extent) : List Seat :=
  let next := (pool.recount block before after).1
  next.visits (pool.ledger.vacated next.ledger block)

theorem subset_visits (pool : Pool σ) (seats : List Seat) : seats ⊆ pool.visits seats := by
  fun_induction visits pool seats with
  | case1 => exact List.Subset.refl _
  | case2 pool seat seats ih =>
      exact List.cons_subset_cons seat fun other hmem => ih (List.mem_append_right _ hmem)

/-- Empty seats whose children wait. -/
structure Pending (past pool : Pool σ) (seats : List Seat) (held : List Hold) : Prop where
  kept : past.Kept pool ((seats.map Seat.child).map Cursor.hold ++ held)
  nodup : seats.Nodup
  known : ∀ seat ∈ seats, pool.ledger.Knows seat.parent
  out : ∀ seat ∈ seats, pool.ledger.keeps seat = false

/-- Children that come out wait in front of those that waited already. -/
theorem Empties.pending {pool next : Pool σ} {block : Block} {before after : Extent}
    {detached : List Cursor} {waiting : List Seat} {held others : List Hold}
    (h : pool.Empties next block before after detached) (hbalanced : pool.ledger.Balanced others)
    (hknows : pool.ledger.Knows block)
    (hkept : pool.Kept next
      (detached.map Cursor.hold ++ ((waiting.map Seat.child).map Cursor.hold ++ held)))
    (hnodup : waiting.Nodup) (hknown : ∀ seat ∈ waiting, pool.ledger.Knows seat.parent)
    (hout : ∀ seat ∈ waiting, pool.ledger.keeps seat = false) :
    pool.Pending next (pool.ledger.vacated next.ledger block ++ waiting) held := by
  refine ⟨?_, ?_, ?_, ?_⟩
  · rw [List.map_append, List.map_append, List.append_assoc, ← h.detached]
    exact hkept
  · refine List.nodup_append.mpr ⟨(Block.seats_nodup _).filter _, hnodup, ?_⟩
    rintro new hnew old hold rfl
    cases (Ledger.mem_vacated_iff.mp hnew).2.1.symm.trans (hout new hold)
  · intro seat hmem
    apply hkept.since.knows
    rcases List.mem_append.mp hmem with hnew | hold
    · rw [(Ledger.mem_vacated_iff.mp hnew).1]
      exact hknows
    · exact hknown seat hold
  · intro seat hmem
    rcases List.mem_append.mp hmem with hnew | hold
    · exact (Ledger.mem_vacated_iff.mp hnew).2.2
    · refine Bool.eq_false_iff.mpr fun hback => ?_
      cases (hkept.keeps_past hbalanced (hknown seat hold) hback).symm.trans (hout seat hold)

namespace Pending

variable {past pool : Pool σ} {seat : Seat} {seats : List Seat} {held : List Hold}

theorem knows_child (h : past.Pending pool (seat :: seats) held) :
    pool.ledger.Knows seat.child.block :=
  h.kept.balanced.known seat.child.hold (List.mem_cons_self ..)

theorem empties (h : past.Pending pool (seat :: seats) held) :
    pool.Empties (pool.disposeSeat seat) seat.child.block seat.child.extent .empty
      (pool.disposeOne seat.child).2 :=
  disposeOne_empties h.kept.balanced

theorem step (h : past.Pending pool (seat :: seats) held) :
    pool.Pending (pool.disposeSeat seat) (pool.lineAfter seat seats) held :=
  h.empties.pending h.kept.balanced h.knows_child h.kept.restart.disposeOne
    (List.nodup_cons.mp h.nodup).2 (fun other hmem => h.known other (List.mem_cons_of_mem _ hmem))
    fun other hmem => h.out other (List.mem_cons_of_mem _ hmem)

theorem last (h : past.Pending pool seats held) :
    pool.Kept (pool.disposeAll (seats.map Seat.child)) held :=
  h.kept.restart.disposeAll

theorem disposeAll_cons (h : past.Pending pool (seat :: seats) held) :
    pool.disposeAll ((seat :: seats).map Seat.child) =
      (pool.disposeSeat seat).disposeAll ((pool.lineAfter seat seats).map Seat.child) := by
  rw [List.map_cons, disposeAll, lineAfter, List.map_append, ← h.empties.detached]
  rfl

/-- To empty the line is to dispose of the visited children, one after another. -/
theorem disposeAll_eq (h : past.Pending pool seats held) :
    pool.disposeAll (seats.map Seat.child) = (pool.visits seats).foldl disposeSeat pool := by
  fun_induction visits pool seats generalizing past with
  | case1 pool => exact pool.disposeAll_nil
  | case2 pool seat seats ih => rw [h.disposeAll_cons, List.foldl_cons, ih h.step]

/-- Whatever is below a child that waits is counted, and so is that child. -/
theorem counts (h : past.Pending pool seats held) (hmem : seat ∈ seats.flatMap Seat.walk) :
    pool.ledger.Counts ((seats.map Seat.child).map Cursor.hold ++ held) seat.child.hold := by
  obtain ⟨top, htop, hseat⟩ := List.mem_flatMap.mp hmem
  have hhold : top.child.hold ∈ (seats.map Seat.child).map Cursor.hold :=
    List.mem_map_of_mem (List.mem_map_of_mem htop)
  have hcounts : pool.ledger.Counts _ top.child.hold := Or.inl (List.mem_append_left held hhold)
  rcases List.mem_cons.mp hseat with rfl | hbelow
  · exact hcounts
  · exact (hcounts.walk h.kept.balanced hbelow).2.2

/-- What is below a child that waits is still kept. -/
theorem below (h : past.Pending pool seats held) {other : Seat} (hmem : seat ∈ seats)
    (hbelow : other ∈ seat.child.block.walk seat.child.extent .empty) :
    pool.ledger.Knows other.parent ∧ pool.ledger.keeps other = true := by
  have hcounts := h.counts (List.mem_flatMap.mpr ⟨seat, hmem, List.mem_cons_self ..⟩)
  obtain ⟨hknows, hkept, -⟩ := hcounts.walk h.kept.balanced hbelow
  exact ⟨hknows, hkept⟩

/-- Only what is on the walk is visited. -/
theorem visits_subset (h : past.Pending pool seats held) :
    pool.visits seats ⊆ seats.flatMap Seat.walk := by
  fun_induction visits pool seats generalizing past with
  | case1 => exact List.nil_subset _
  | case2 pool seat seats ih =>
      refine List.cons_subset.mpr ⟨by simp [Seat.walk], List.Subset.trans (ih h.step) ?_⟩
      rw [lineAfter, List.flatMap_append, List.flatMap_cons]
      refine List.append_subset.mpr
        ⟨fun other hmem => ?_, List.subset_append_right ..⟩
      obtain ⟨new, hnew, hother⟩ := List.mem_flatMap.mp hmem
      have hlost := Block.mem_walk_iff.mpr ⟨new, h.empties.lost new hnew, hother⟩
      exact List.mem_append_left _ (List.mem_cons_of_mem _ hlost)

/-- Every seat that is emptied is visited. -/
theorem mem_visits_of_gone (h : past.Pending pool seats held) {other : Seat}
    (hknows : pool.ledger.Knows other.parent) (hkept : pool.ledger.keeps other = true)
    (hgone : (pool.disposeAll (seats.map Seat.child)).ledger.keeps other = false) :
    other ∈ pool.visits seats := by
  fun_induction visits pool seats generalizing past with
  | case1 pool =>
      rw [List.map_nil, disposeAll_nil] at hgone
      cases hkept.symm.trans hgone
  | case2 pool seat seats ih =>
      rw [h.disposeAll_cons] at hgone
      cases hnext : (pool.disposeSeat seat).ledger.keeps other with
      | true =>
          exact List.mem_cons_of_mem _ (ih h.step (h.step.kept.since.knows hknows) hnext hgone)
      | false =>
          have hnew := h.empties.vacated_of_gone h.knows_child hknows hkept hnext
          exact List.mem_cons_of_mem _ (subset_visits _ _ (List.mem_append_left _ hnew))

/-- What waits to be disposed of stays out of its seat. -/
theorem out_last (h : past.Pending pool seats held) (hmem : seat ∈ seats) :
    (pool.disposeAll (seats.map Seat.child)).ledger.keeps seat = false := by
  refine Bool.eq_false_iff.mpr fun hback => ?_
  have hkept := h.last.keeps_past h.kept.balanced (h.known seat hmem) hback
  cases hkept.symm.trans (h.out seat hmem)

/-- The seat that is visited is met no more: not below its own child, and not below another that
waits, for all that is still kept. -/
theorem not_mem_rest (h : past.Pending pool (seat :: seats) held) :
    seat ∉ seat.child.block.walk seat.child.extent .empty ++ seats.flatMap Seat.walk := by
  have hout := h.out seat (List.mem_cons_self ..)
  have hbelow : ∀ other ∈ seat :: seats,
      seat ∉ other.child.block.walk other.child.extent .empty :=
    fun other hmem hseat => by cases hout.symm.trans (h.below hmem hseat).2
  intro hmem
  rcases List.mem_append.mp hmem with hself | hothers
  · exact hbelow seat (List.mem_cons_self ..) hself
  · obtain ⟨other, hother, hseat⟩ := List.mem_flatMap.mp hothers
    rcases List.mem_cons.mp hseat with rfl | hseat
    · exact (List.nodup_cons.mp h.nodup).1 hother
    · exact hbelow other (List.mem_cons_of_mem _ hother) hseat

/-- A child that somebody stops seeing and that does not come out with it either stays to the end,
with all that is below it, or is met again below one that waits. -/
theorem met_again {next : Pool σ} {block : Block} {before after : Extent} {waiting : List Seat}
    (h : past.Pending next (pool.ledger.vacated next.ledger block ++ waiting) held)
    {seat : Seat} (hlost : seat ∈ block.lost before after)
    (hknows : next.ledger.Knows seat.parent) (hkept : next.ledger.keeps seat = true)
    {last : Pool σ}
    (hlast : last =
      next.disposeAll ((pool.ledger.vacated next.ledger block ++ waiting).map Seat.child)) :
    last.ledger.vacant seat.walk ⊆ last.ledger.vacant (waiting.flatMap Seat.walk) := by
  subst hlast
  intro below hbelow
  obtain ⟨hmem, hout⟩ := Ledger.mem_vacant_iff.mp hbelow
  cases hend : (next.disposeAll _).ledger.keeps seat with
  | true =>
      rcases List.mem_cons.mp hmem with rfl | hmem
      · cases hend.symm.trans hout
      · have hcounts := Ledger.counts_of_keeps held (h.last.since.knows hknows) hend
        cases (hcounts.walk h.last.balanced hmem).2.1.symm.trans hout
  | false =>
      have hseat := h.visits_subset (h.mem_visits_of_gone hknows hkept hend)
      rw [List.flatMap_append] at hseat
      rcases List.mem_append.mp hseat with hnew | hwaits
      · -- It does not come out now, and it is not below its own sibling.
        obtain ⟨new, hnew, hseat⟩ := List.mem_flatMap.mp hnew
        obtain ⟨hparent, -, hfree⟩ := Ledger.mem_vacated_iff.mp hnew
        rcases List.mem_cons.mp hseat with rfl | hseat
        · cases hkept.symm.trans hfree
        · have hless := new.weight_child
          have hle := Block.weight_of_mem_walk hseat
          rw [(Block.mem_lost_iff.mp hlost).1] at hle
          rw [hparent] at hless
          omega
      · obtain ⟨top, htop, hseat⟩ := List.mem_flatMap.mp hwaits
        exact Ledger.mem_vacant_iff.mpr
          ⟨List.mem_flatMap.mpr ⟨top, htop, Seat.walk_subset top hseat hmem⟩, hout⟩

end Pending

namespace Empties

variable {past pool next : Pool σ} {block : Block} {before after : Extent}
  {detached : List Cursor} {waiting : List Seat} {held : List Hold}

/-- For the last meetings it makes no difference whether the walk goes on with everything that is
lost, or only with what comes out. -/
theorem dedup_vacant (h : pool.Empties next block before after detached)
    (hnext : past.Pending next (pool.ledger.vacated next.ledger block ++ waiting) held)
    (hlost : ∀ seat ∈ block.lost before after,
      pool.ledger.keeps seat = true ∧ next.ledger.Knows seat.parent) {last : Pool σ}
    (hlast : last = next.disposeAll
      ((pool.ledger.vacated next.ledger block ++ waiting).map Seat.child)) :
    (last.ledger.vacant (block.walk before after ++ waiting.flatMap Seat.walk)).dedup =
      (last.ledger.vacant
        ((pool.ledger.vacated next.ledger block ++ waiting).flatMap Seat.walk)).dedup := by
  have hagain : ∀ seat ∈ block.lost before after,
      (pool.ledger.keeps seat && !next.ledger.keeps seat) = false →
      last.ledger.vacant seat.walk ⊆
        waiting.flatMap fun seat => last.ledger.vacant seat.walk := by
    intro seat hmem hstays
    obtain ⟨hkept, hknows⟩ := hlost seat hmem
    rw [← Ledger.vacant_flatMap]
    exact hnext.met_again hmem hknows (by simpa [hkept] using hstays) hlast
  simp only [Block.walk_eq, h.vacated_eq, List.flatMap_append, Ledger.vacant_append,
    Ledger.vacant_flatMap]
  exact dedup_flatMap_filter _ _ _ _ hagain

end Empties

/-- The visits are the walk, as far as its seats are emptied, each seat where the walk meets it for
the last time. -/
theorem Pending.visits_eq {past pool : Pool σ} {seats : List Seat} {held : List Hold}
    (h : past.Pending pool seats held) :
    pool.visits seats = ((pool.disposeAll (seats.map Seat.child)).ledger.vacant
      (seats.flatMap Seat.walk)).dedup := by
  fun_induction visits pool seats generalizing past with
  | case1 pool => rfl
  | case2 pool seat seats ih =>
      have hout := h.out_last (List.mem_cons_self ..)
      have hlost : ∀ other ∈ seat.child.block.lost seat.child.extent .empty,
          pool.ledger.keeps other = true ∧
            (pool.disposeSeat seat).ledger.Knows other.parent := by
        intro other hmem
        obtain ⟨hknows, hkept⟩ := h.below (List.mem_cons_self ..)
          (Block.mem_walk_iff.mpr ⟨other, hmem, List.mem_cons_self ..⟩)
        exact ⟨hkept, h.step.kept.since.knows hknows⟩
      have hvisits := ih h.step
      rw [h.disposeAll_cons] at hout ⊢
      rw [lineAfter] at hout hvisits ⊢
      rw [hvisits, ← h.empties.dedup_vacant h.step hlost rfl,
        ← List.dedup_cons_of_notMem fun hmem => h.not_mem_rest (Ledger.mem_vacant_iff.mp hmem).1]
      simp only [Ledger.vacant, List.flatMap_cons, Seat.walk, List.cons_append]
      rw [List.filter_cons_of_pos (by rw [hout]; rfl)]

/-- What the journal tells of endings, up to now. -/
def endings (pool : Pool σ) : List Event := pool.backend.journal.toList.filter Event.isEnding

section Endings

variable {pool next : Pool σ} {block : Block} {before after : Extent} {held : List Hold}

omit [Store σ] in
theorem endings_of_append {events : List Event}
    (hjournal : next.backend.journal.toList = pool.backend.journal.toList ++ events) :
    next.endings = pool.endings ++ events.filter Event.isEnding := by
  rw [endings, hjournal, List.filter_append]
  rfl

theorem endings_of_writes {kind : Event → Bool} (h : pool.backend.Writes kind next.backend)
    (hkind : ∀ event, kind event = true → event.isEnding = false) :
    next.endings = pool.endings := by
  obtain ⟨events, hjournal, hevents⟩ := h.journal
  rw [endings_of_append hjournal, List.append_right_eq_self]
  refine List.filter_eq_nil_iff.mpr fun event hmem hending => ?_
  cases (hkind event (hevents event hmem)).symm.trans hending

/-- One hold on a block ends, and with the last one the block. -/
structure Drops (pool next : Pool σ) (block : Block) : Prop where
  held : 0 < pool.ledger.refs block.number
  refs : ∀ number, next.ledger.refs number =
    if number = block.number then pool.ledger.refs number - 1 else pool.ledger.refs number
  endings : next.endings =
    pool.endings ++ if pool.ledger.refs block.number = 1 then block.lastWords else []

theorem unhold_drops {extent : Extent} (h : pool.ledger.Balanced (⟨block, extent⟩ :: held)) :
    pool.Drops (pool.unhold block).1 block := by
  obtain ⟨page, hpage, -, hpos⟩ := h.page_of_mem (List.mem_cons_self ..)
  change pool.ledger.get? block.number = some page at hpage
  have hrefs : pool.ledger.refs block.number = page.refs := by
    rw [Ledger.refs, hpage, Option.elim_some]
  have hmodify : ∀ change : Page → Page, (change page).refs = page.refs - 1 → ∀ number,
      (pool.ledger.modify block.number change).refs number =
        if number = block.number then pool.ledger.refs number - 1
        else pool.ledger.refs number := by
    intro change hchange number
    split
    · rename_i hnumber
      rw [hnumber, hrefs, Ledger.refs, Ledger.get?_modify_self hpage]
      exact hchange
    · rename_i hne
      rw [Ledger.refs, Ledger.get?_modify_of_ne hne]
      rfl
  refine ⟨hrefs ▸ hpos, ?_, ?_⟩
  · simp only [unhold, hpage]
    split
    · rename_i hlast
      rw [Kept.free_ledger]
      exact hmodify Page.close (by simp [Page.close, hlast])
    · exact hmodify _ rfl
  · rw [hrefs]
    simp only [unhold, hpage]
    split
    · rw [endings_of_append (Kept.free_replays pool block page).journal,
        List.filter_eq_self.mpr fun event hmem =>
          Block.isEnding_of_concerns (Block.mem_lastWords hmem)]
    · rw [List.append_nil]
      rfl

omit [Store σ] in
theorem recount_refs (h : pool.ledger.Balanced (⟨block, before⟩ :: held))
    (hseen : ∀ side, after.overlaps (block.slotRange side) = true →
      0 < pool.ledger.tally (⟨block, before⟩ :: held)
        (Hold.sees block.number (block.slotRange side))) (number : Nat) :
    (pool.recount block before after).1.ledger.refs number = pool.ledger.refs number := by
  obtain ⟨change, hledger, hkeeps, -⟩ := recount_ledger h hseen
  simp only [hledger, Ledger.refs, Ledger.get?_modify]
  split
  · cases pool.ledger.get? number with
    | none => rfl
    | some page => exact (hkeeps page).2
  · rfl

theorem recount_endings (pool : Pool σ) (block : Block) (before after : Extent) :
    (pool.recount block before after).1.endings = pool.endings := by
  have hwrites : pool.backend.Writes (fun event => !event.isEnding) _ :=
    pool.recount_writes block before after (fun _ _ _ => rfl) fun _ _ => rfl
  exact endings_of_writes hwrites fun event hkind => by simpa using hkind

theorem disposeOne_drops {child : Cursor} (h : pool.ledger.Balanced (child.hold :: held)) :
    pool.Drops (pool.disposeOne child).1 child.block := by
  have hseen := pool.ledger.seen_of_narrow child.block held child.extent.empty_narrow
  have hrefs := recount_refs h hseen
  have hdrops := unhold_drops (recount_balanced h hseen)
  simp only [disposeOne, detach_eq]
  constructor
  · simpa only [hrefs] using hdrops.held
  · simpa only [hrefs] using hdrops.refs
  · simpa only [hrefs, recount_endings] using hdrops.endings

end Endings

/-- Those of the blocks that are gone, each where it comes for the last time. -/
def ended (pool : Pool σ) (blocks : List Block) : List Block :=
  blocks.dedup.filter fun block => pool.ledger.refs block.number == 0

omit [Store σ] in
/-- Where one more hold ends after others, the block goes if it was the last one. -/
theorem Drops.ended {pool next : Pool σ} {block : Block} (h : pool.Drops next block)
    {blocks : List Block} (hother : ∀ other ∈ blocks, other.number ≠ block.number) :
    next.ended (blocks ++ [block]) =
      pool.ended blocks ++ if pool.ledger.refs block.number = 1 then [block] else [] := by
  have hdisjoint : blocks.Disjoint [block] := by
    intro other hmem hblock
    exact hother other hmem (congrArg Block.number (List.mem_singleton.mp hblock))
  have hheld := h.held
  have hlast := h.refs block.number
  rw [if_pos rfl] at hlast
  rw [Pool.ended, hdisjoint.dedup_append, List.filter_append, Pool.ended]
  congr 1
  · refine List.filter_congr fun other hmem => ?_
    rw [h.refs, if_neg (hother other (List.mem_dedup.mp hmem))]
  · rw [(List.nodup_singleton block).dedup, List.filter_cons, List.filter_nil, hlast]
    refine if_congr ?_ rfl rfl
    rw [beq_iff_eq]
    omega

namespace Pending

variable {past pool : Pool σ} {seat : Seat} {seats : List Seat} {held : List Hold}

theorem drops (h : past.Pending pool (seat :: seats) held) :
    pool.Drops (pool.disposeSeat seat) seat.child.block :=
  disposeOne_drops h.kept.balanced

/-- A block loses holders only by visits. -/
theorem refs_last (h : past.Pending pool seats held) {number : Nat}
    (hnone : ∀ seat ∈ pool.visits seats, seat.child.block.number ≠ number) :
    (pool.disposeAll (seats.map Seat.child)).ledger.refs number = pool.ledger.refs number := by
  fun_induction visits pool seats generalizing past with
  | case1 pool => rw [List.map_nil, disposeAll_nil]
  | case2 pool seat seats ih =>
      rw [h.disposeAll_cons, ih h.step fun other hmem => hnone other (List.mem_cons_of_mem _ hmem),
        h.drops.refs, if_neg (hnone seat (List.mem_cons_self ..)).symm]

/-- The blocks that go are those of visited children which have no holder in the end, each where it
loses the last one. -/
theorem endings_last (h : past.Pending pool seats held) {last : Pool σ}
    (hlast : last = pool.disposeAll (seats.map Seat.child)) :
    last.endings = pool.endings ++
      (last.ended ((pool.visits seats).map fun seat => seat.child.block)).flatMap
        Block.lastWords := by
  fun_induction visits pool seats generalizing past with
  | case1 pool => simp [hlast, disposeAll_nil, ended]
  | case2 pool seat seats ih =>
      have hnext := h.step
      have hdrops := h.drops
      have hknown : (pool.disposeSeat seat).ledger.Knows seat.child.block :=
        hnext.kept.since.knows h.knows_child
      have hleft := hdrops.refs seat.child.block.number
      rw [if_pos rfl] at hleft
      rw [h.disposeAll_cons] at hlast
      rw [ih hnext hlast, hdrops.endings, List.append_assoc, List.map_cons]
      congr 1
      have hcounts : ∀ other ∈ (pool.disposeSeat seat).visits (pool.lineAfter seat seats),
          (pool.disposeSeat seat).ledger.Counts _ other.child.hold :=
        fun other hmem => hnext.counts (hnext.visits_subset hmem)
      have hrefs := @hnext.refs_last
      rw [← hlast] at hrefs
      generalize (pool.disposeSeat seat).visits (pool.lineAfter seat seats) = visited at *
      by_cases hagain : seat.child.block ∈ visited.map fun seat => seat.child.block
      · obtain ⟨other, hother, hsame⟩ := List.mem_map.mp hagain
        have hpos := (hcounts other hother).refs_pos hnext.kept.balanced
        rw [Cursor.hold_block, hsame, hleft] at hpos
        rw [ended, ended, List.dedup_cons_of_mem hagain, if_neg (by omega), List.nil_append]
      · have hless : last.ledger.refs seat.child.block.number =
            pool.ledger.refs seat.child.block.number - 1 := by
          rw [← hleft]
          refine hrefs fun other hother hnumber => hagain ?_
          have hsame := ((hcounts other hother).knows hnext.kept.balanced).unique hknown hnumber
          exact List.mem_map.mpr ⟨other, hother, hsame⟩
        have hheld := hdrops.held
        rw [ended, ended, List.dedup_cons_of_notMem hagain, List.filter_cons, hless]
        by_cases hone : pool.ledger.refs seat.child.block.number = 1
        · simp [hone]
        · rw [if_neg hone, if_neg (by simp; omega), List.nil_append]

/-- Where every block has one holder, everything is visited, and every visit ends a block. -/
theorem alone (h : past.Pending pool seats held)
    (halone : ∀ seat ∈ seats.flatMap Seat.walk, pool.ledger.refs seat.child.block.number = 1) :
    pool.visits seats = seats.flatMap Seat.walk ∧
      (pool.disposeAll (seats.map Seat.child)).endings = pool.endings ++
        (seats.flatMap Seat.walk).flatMap fun seat => seat.child.block.lastWords := by
  fun_induction visits pool seats generalizing past with
  | case1 pool => simp [disposeAll_nil]
  | case2 pool seat seats ih =>
      have hnext := h.step
      have hdrops := h.drops
      have hone := halone seat (by simp [Seat.walk])
      have hgone : (pool.disposeSeat seat).ledger.refs seat.child.block.number = 0 := by
        rw [hdrops.refs, if_pos rfl, hone]
      -- Nobody else holds the block, so that all its seats are emptied.
      have hall : pool.ledger.vacated (pool.disposeSeat seat).ledger seat.child.block =
          seat.child.block.lost seat.child.extent .empty := by
        rw [h.empties.vacated_eq, List.filter_eq_self]
        intro other hlost
        obtain ⟨hknows, hkept⟩ := h.below (List.mem_cons_self ..)
          (Block.mem_walk_iff.mpr ⟨other, hlost, List.mem_cons_self ..⟩)
        have hempty : (pool.disposeSeat seat).ledger.keeps other = false := by
          refine Bool.eq_false_iff.mpr fun hback => ?_
          have hpos := hnext.kept.balanced.refs_pos_of_keeps (hnext.kept.since.knows hknows) hback
          rw [(Block.mem_lost_iff.mp hlost).1] at hpos
          omega
        rw [hkept, hempty]
        rfl
      have hwalk : (seat :: seats).flatMap Seat.walk =
          seat :: (pool.lineAfter seat seats).flatMap Seat.walk := by
        rw [lineAfter, hall, List.flatMap_append, ← Block.walk_eq, List.flatMap_cons, Seat.walk,
          List.cons_append]
      have hrest : ∀ other ∈ (pool.lineAfter seat seats).flatMap Seat.walk,
          (pool.disposeSeat seat).ledger.refs other.child.block.number = 1 := by
        intro other hmem
        have hpos := (hnext.counts hmem).refs_pos hnext.kept.balanced
        have hother := halone other (hwalk ▸ List.mem_cons_of_mem _ hmem)
        rw [Cursor.hold_block, hdrops.refs] at hpos
        rw [hdrops.refs]
        split at hpos
        · omega
        · rw [if_neg ‹_›, hother]
      obtain ⟨hvisits, hendings⟩ := ih hnext hrest
      rw [h.disposeAll_cons, hendings, hdrops.endings, if_pos hone, hwalk, hvisits,
        List.flatMap_cons, List.append_assoc]
      exact ⟨rfl, rfl⟩

end Pending

/-- What follows when a holder's extent shrinks. Disposing of the visited children, one after
another, is all that is done. The visits are the emptied seats of the walk, each at its last
meeting, and they are all the seats that are emptied. The blocks that go do so in the order in which
they lose their last holders. -/
structure Retires (pool : Pool σ) (block : Block) (before after : Extent) : Prop where
  steps : pool.resize block before after =
    (pool.retired block before after).foldl disposeSeat (pool.recount block before after).1
  order : pool.retired block before after =
    ((pool.resize block before after).ledger.vacant (block.walk before after)).dedup
  gone : ∀ seat : Seat, pool.ledger.Knows seat.parent →
    (seat ∈ pool.retired block before after ↔
      pool.ledger.keeps seat = true ∧
        (pool.resize block before after).ledger.keeps seat = false)
  walked : ∀ seat ∈ block.walk before after,
    pool.ledger.Knows seat.parent ∧ pool.ledger.keeps seat = true
  below : ∀ seat ∈ pool.retired block before after, seat.child.block.number ≠ block.number
  refs : ∀ number,
    (∀ seat ∈ pool.retired block before after, seat.child.block.number ≠ number) →
    (pool.resize block before after).ledger.refs number = pool.ledger.refs number
  endings : (pool.resize block before after).endings = pool.endings ++
    ((pool.resize block before after).ended
      ((pool.retired block before after).map fun seat => seat.child.block)).flatMap Block.lastWords

section Shrinking

variable {past pool : Pool σ} {block : Block} {before after : Extent} {held : List Hold}

theorem Empties.resize_eq
    (h : pool.Empties (pool.recount block before after).1 block before after
      (pool.recount block before after).2) :
    pool.resize block before after = (pool.recount block before after).1.disposeAll
      ((pool.ledger.vacated (pool.recount block before after).1.ledger block).map Seat.child) := by
  rw [← h.detached]
  rfl

/-- The children that come out when an extent shrinks are the first to wait. -/
theorem Kept.pending (h : past.Kept pool (⟨block, before⟩ :: held))
    (hnarrow : ∀ range, after.overlaps range = true → before.overlaps range = true) :
    pool.Empties (pool.recount block before after).1 block before after
        (pool.recount block before after).2 ∧
      pool.Pending (pool.recount block before after).1
        (pool.ledger.vacated (pool.recount block before after).1.ledger block)
        (⟨block, after⟩ :: held) := by
  have hseen := pool.ledger.seen_of_narrow block held hnarrow
  have hempties := recount_empties h.balanced hseen
  have hknows := h.balanced.known ⟨block, before⟩ (List.mem_cons_self ..)
  have hkept := (h.restart.recount hseen).perm List.perm_middle.symm
  have hpending := hempties.pending h.balanced hknows hkept List.nodup_nil
    (fun _ hmem => by cases hmem) fun _ hmem => by cases hmem
  rw [List.append_nil] at hpending
  exact ⟨hempties, hpending⟩

/-- A holder keeps every seat that it may lose. -/
theorem Kept.walked (h : past.Kept pool (⟨block, before⟩ :: held)) {seat : Seat}
    (hmem : seat ∈ block.walk before after) :
    pool.ledger.Knows seat.parent ∧ pool.ledger.keeps seat = true := by
  have hcounts : pool.ledger.Counts (⟨block, before⟩ :: held) ⟨block, before⟩ :=
    Or.inl (List.mem_cons_self ..)
  obtain ⟨hparent, hkept, -⟩ := hcounts.walk h.balanced hmem
  exact ⟨hparent, hkept⟩

theorem Kept.retired_eq (h : past.Kept pool (⟨block, before⟩ :: held))
    (hnarrow : ∀ range, after.overlaps range = true → before.overlaps range = true) :
    pool.retired block before after =
      ((pool.resize block before after).ledger.vacant (block.walk before after)).dedup := by
  obtain ⟨hempties, hpending⟩ := h.pending hnarrow
  have hseen := pool.ledger.seen_of_narrow block held hnarrow
  have hlost : ∀ seat ∈ block.lost before after, pool.ledger.keeps seat = true ∧
      (pool.recount block before after).1.ledger.Knows seat.parent := by
    intro seat hmem
    obtain ⟨hparent, hkept⟩ :=
      h.walked (Block.mem_walk_iff.mpr ⟨seat, hmem, List.mem_cons_self ..⟩)
    exact ⟨hkept, (h.restart.recount hseen).since.knows hparent⟩
  -- Nothing waits besides what comes out.
  have hline := hpending
  rw [← List.append_nil (pool.ledger.vacated _ block)] at hline
  have hdedup := hempties.dedup_vacant hline hlost rfl
  rw [List.append_nil, List.flatMap_nil, List.append_nil, ← hempties.resize_eq] at hdedup
  rw [hdedup, hempties.resize_eq]
  exact hpending.visits_eq

theorem Kept.retires (h : past.Kept pool (⟨block, before⟩ :: held))
    (hnarrow : ∀ range, after.overlaps range = true → before.overlaps range = true) :
    pool.Retires block before after := by
  obtain ⟨hempties, hpending⟩ := h.pending hnarrow
  have hseen := pool.ledger.seen_of_narrow block held hnarrow
  have hknows := h.balanced.known ⟨block, before⟩ (List.mem_cons_self ..)
  have hresize := hempties.resize_eq
  have horder := h.retired_eq hnarrow
  constructor
  case steps =>
    rw [hresize]
    exact hpending.disposeAll_eq
  case order => exact horder
  case gone =>
    intro seat hparent
    constructor
    · intro hmem
      rw [horder, List.mem_dedup] at hmem
      obtain ⟨hwalk, hout⟩ := Ledger.mem_vacant_iff.mp hmem
      exact ⟨(h.walked hwalk).2, hout⟩
    · rintro ⟨hkept, hout⟩
      cases hnext : (pool.recount block before after).1.ledger.keeps seat with
      | true =>
          rw [hresize] at hout
          exact hpending.mem_visits_of_gone
            ((h.restart.recount hseen).since.knows hparent) hnext hout
      | false => exact subset_visits _ _ (hempties.vacated_of_gone hknows hparent hkept hnext)
  case walked =>
    intro seat hmem
    exact h.walked hmem
  case below =>
    intro seat hmem
    have hcounts : pool.ledger.Counts (⟨block, before⟩ :: held) ⟨block, before⟩ :=
      Or.inl (List.mem_cons_self ..)
    rw [horder, List.mem_dedup] at hmem
    exact hcounts.walk_ne h.balanced (Ledger.mem_vacant_iff.mp hmem).1
  case refs =>
    intro number hnone
    rw [hresize, hpending.refs_last hnone]
    exact recount_refs h.balanced hseen number
  case endings =>
    rw [hpending.endings_last hresize, recount_endings]
    rfl

/-- Where somebody else sees all that is lost, nothing is emptied. -/
theorem Retires.eq_nil_of_seen (h : pool.Retires block before after) {seen : Extent}
    (hbalanced : (pool.resize block before after).ledger.Balanced held)
    (hcounts : (pool.resize block before after).ledger.Counts held ⟨block, seen⟩)
    (hseen : ∀ range, before.overlaps range = true → after.overlaps range = false →
      seen.overlaps range = true) : pool.retired block before after = [] := by
  rw [h.order, List.dedup_eq_nil, List.eq_nil_iff_forall_not_mem]
  intro seat hmem
  obtain ⟨hwalk, hout⟩ := Ledger.mem_vacant_iff.mp hmem
  obtain ⟨top, hlost, hseat⟩ := Block.mem_walk_iff.mp hwalk
  obtain ⟨hparent, hsaw, hunseen⟩ := Block.mem_lost_iff.mp hlost
  have htop : top ∈ block.lost seen .empty :=
    Block.mem_lost_iff.mpr ⟨hparent, hseen _ hsaw hunseen, Extent.empty_overlaps _⟩
  have hkept := (hcounts.walk hbalanced (Block.mem_walk_iff.mpr ⟨top, htop, hseat⟩)).2.1
  cases hkept.symm.trans hout

/-- Where nobody else holds anything, all that is lost goes, in the order of the walk. -/
theorem Kept.retires_alone (h : past.Kept pool (⟨block, before⟩ :: held))
    (hnarrow : ∀ range, after.overlaps range = true → before.overlaps range = true)
    (hone : pool.ledger.refs block.number = 1)
    (halone : ∀ seat ∈ block.walk before after, pool.ledger.refs seat.child.block.number = 1) :
    pool.retired block before after = block.walk before after ∧
      (pool.resize block before after).endings = pool.endings ++
        (block.walk before after).flatMap fun seat => seat.child.block.lastWords := by
  obtain ⟨hempties, hpending⟩ := h.pending hnarrow
  have hseen := pool.ledger.seen_of_narrow block held hnarrow
  have hbalanced := recount_balanced h.balanced hseen
  have hrefs := recount_refs h.balanced hseen
  have hall : pool.ledger.vacated (pool.recount block before after).1.ledger block =
      block.lost before after := by
    rw [hempties.vacated_eq, List.filter_eq_self]
    intro seat hlost
    have hkept := (h.walked (Block.mem_walk_iff.mpr ⟨seat, hlost, List.mem_cons_self ..⟩)).2
    obtain ⟨rfl, -, hunseen⟩ := Block.mem_lost_iff.mp hlost
    obtain ⟨page, hpage, hblock, -⟩ := hbalanced.page_of_mem (List.mem_cons_self ..)
    have hlast := hrefs seat.parent.number
    rw [Ledger.refs, hpage, Option.elim_some, hone] at hlast
    have hempty := vacant_of_last hbalanced hunseen hpage hblock hlast
    rw [← Ledger.keeps_of_page hpage] at hempty
    rw [hkept, hempty]
    rfl
  have hwalk : block.walk before after =
      (pool.ledger.vacated (pool.recount block before after).1.ledger block).flatMap Seat.walk := by
    rw [hall, Block.walk_eq]
  obtain ⟨hvisits, hendings⟩ := hpending.alone fun seat hmem => by
    rw [hrefs]
    exact halone seat (hwalk ▸ hmem)
  rw [hempties.resize_eq, hendings, recount_endings, hwalk]
  exact ⟨hvisits, rfl⟩

end Shrinking

end Pool

end SharedStream
