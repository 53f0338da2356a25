import SharedStream.Proofs.Pieces
import SharedStream.Proofs.Retiring
import SharedStream.Proofs.Worlds
import SharedStream.Store.Basic
/-!
Teardown, seen from outside. A release, a split and the end of a cursor let a holder's extent
shrink, and what is lost by that is taken down from left to right. Which seats of the walk stay is
not a matter of order: it is those that somebody outside the walk needs, and what is below them.
-/

namespace SharedStream

/-- Of an extent that is cut, what the first part does not show the rest does. -/
theorem Extent.overlaps_of_cut {start cut stop : Nat} {range : Extent} (hstart : start ≤ cut)
    (hcut : cut < stop) (hshown : Extent.overlaps ⟨start, stop⟩ range = true)
    (hlost : Extent.overlaps ⟨start, cut⟩ range = false) :
    Extent.overlaps ⟨cut, stop⟩ range = true := by
  rw [← Bool.not_eq_true, Extent.overlaps_iff] at hlost
  rw [Extent.overlaps_iff] at hshown ⊢
  dsimp only at hshown hlost ⊢
  omega

/-- The cursor's extent shows the child of the seat. -/
def Cursor.Sees (cursor : Cursor) (seat : Seat) : Prop :=
  cursor.block = seat.parent ∧ cursor.extent.overlaps seat.range = true

namespace Block

/-- The stores of the blocks, where they are over one. -/
def storesOf (blocks : List Block) : List Nat := blocks.filterMap store?

/-- The stores of some bytes, in the order of the positions. -/
def storesAt (block : Block) (position length : Nat) : List Nat :=
  (block.pieces position length).map fun piece => piece.store.number

/-- The holder saw these bytes, and stops seeing the seats that they lie in. -/
structure Loses (block : Block) (before after : Extent) (position length : Nat) : Prop where
  seen : Extent.Within ⟨position, position + length⟩ before
  gone : ∀ side, Extent.overlaps ⟨position, position + length⟩
    (block.slotRange side) = true → after.overlaps (block.slotRange side) = false

/-- The walk comes to the stores of what is lost in the order of the positions. -/
theorem storesAt_walk (block : Block) : ∀ {before after : Extent} {position length : Nat},
    block.Sound → block.Covers ⟨position, position + length⟩ →
    block.Loses before after position length →
    (block.storesAt position length).Sublist
      (storesOf (block :: (block.walk before after).map fun seat => seat.child.block)) := by
  induction block with
  | source header store =>
      intro before after position length _ _ _
      simp only [storesAt, pieces]
      split
      · exact List.nil_sublist _
      · exact List.Sublist.refl _
  | composed header joint left right ihleft ihright =>
      intro before after position length hsound hcovers hloses
      obtain ⟨hstart, hstop⟩ := hcovers
      simp only [Joint.whole] at hstart hstop
      let lost (side : Side) : List Seat :=
        if before.overlaps (joint.range side) && !after.overlaps (joint.range side) then
          Seat.walk ⟨.composed header joint left right, side, joint.child left right side, rfl⟩
        else []
      -- Bytes on a side lie in the child of a lost seat, and the walk comes to all that is below.
      have hside : ∀ (side : Side) (first part : Nat), position ≤ first →
          (part ≠ 0 → first + part ≤ position + length ∧
            (joint.range side).start ≤ first ∧ first + part ≤ (joint.range side).stop) →
          ((joint.child left right side).block.storesAt
            ((joint.view side).shift.inner first) part).Sublist
          (storesOf ((lost side).map fun seat => seat.child.block)) := by
        intro side first part hfirst hrange
        by_cases hpart : part = 0
        · subst hpart
          simp [storesAt]
        · obtain ⟨hlast, hlow, hhigh⟩ := hrange hpart
          have hoverlap : Extent.overlaps ⟨position, position + length⟩ (joint.range side) := by
            rw [Extent.overlaps_iff]
            dsimp only
            omega
          obtain ⟨-, hinner, hcovers⟩ := hsound.side hlow hhigh
          have hgone : after.overlaps (joint.range side) = false := hloses.gone side hoverlap
          simp only [lost, hloses.seen.overlaps hoverlap, hgone, Bool.not_false, Bool.and_self,
            if_true]
          cases side with
          | left => exact ihleft hsound.1 hcovers ⟨hinner, fun _ _ => Extent.empty_overlaps _⟩
          | right =>
              exact ihright hsound.2.1 hcovers ⟨hinner, fun _ _ => Extent.empty_overlaps _⟩
      have hleft := hside .left position (min length (joint.boundary - position)) (by omega)
        fun hpart => by
          simp only [Joint.range]
          omega
      have hright := hside .right (position + (joint.boundary - position))
        (length - (joint.boundary - position)) (by omega)
        fun hpart => by
          simp only [Joint.range]
          omega
      have hboth := hleft.append hright
      rw [storesOf, storesOf, ← List.filterMap_append, ← List.map_append] at hboth
      rw [storesAt, pieces_composed, List.map_append]
      exact hboth

end Block

namespace Pool

variable {σ : Type} [Store σ]

/-- No seat is emptied, and nothing ends. -/
structure Calm (pool next : Pool σ) : Prop where
  keeps : ∀ seat, next.ledger.keeps seat = pool.ledger.keeps seat
  endings : next.endings = pool.endings

namespace Calm

variable {pool middle next : Pool σ}

omit [Store σ] in
theorem trans (hfirst : pool.Calm middle) (hsecond : middle.Calm next) : pool.Calm next :=
  ⟨fun seat => (hsecond.keeps seat).trans (hfirst.keeps seat),
    hsecond.endings.trans hfirst.endings⟩

theorem of_ledger (hledger : next.ledger = pool.ledger)
    (hwrites : pool.backend.Writes Event.isQuiet next.backend) : pool.Calm next :=
  ⟨fun seat => congrArg (Ledger.keeps · seat) hledger,
    endings_of_writes hwrites fun _ => Event.not_isEnding_of_isQuiet⟩

theorem log (pool : Pool σ) (event : Event) (hof : event.store? = none)
    (hevent : event.isQuiet = true) : pool.Calm (pool.log event) :=
  of_ledger rfl (Backend.Writes.log _ hof hevent)

theorem advised (pool : Pool σ) (block : Block) (released : Extent) :
    pool.Calm (pool.adviseBelow block released) := by
  obtain ⟨hledger, hadvice⟩ := pool.adviseBelow_advises block released
  exact of_ledger hledger (hadvice.mono Event.isQuiet_of_isAdvice)

omit [Store σ] in
theorem retain (pool : Pool σ) (number : Nat) :
    pool.Calm { pool with ledger := pool.ledger.retain number } :=
  ⟨Ledger.keeps_modify fun page _ side => by rw [Page.slot_withRefs page], rfl⟩

/-- A holder may come to see more. -/
theorem widen (pool : Pool σ) (block : Block) (after : Extent) :
    pool.Calm (pool.resize block .empty after) := by
  obtain ⟨hnone, hkeeps⟩ := pool.recount_blind block after
  simp only [resize, hnone, disposeAll_nil]
  exact ⟨hkeeps, pool.recount_endings block .empty after⟩

theorem cloneAt (pool : Pool σ) (cursor : Cursor) (offset : Nat) :
    pool.Calm (pool.cloneAt cursor offset).2 := by
  simp only [Pool.cloneAt, Cursor.through_eq]
  split
  · exact ⟨fun _ => rfl, rfl⟩
  · exact (retain pool cursor.block.number).trans (widen _ cursor.block _)

theorem beforeCut (pool : Pool σ) (cursor moved : Cursor) (position : Nat) :
    pool.Calm (pool.beforeCut cursor moved position) :=
  ((log pool _ rfl rfl).trans (cloneAt _ moved position)).trans (log _ _ rfl rfl)

end Calm

end Pool

namespace World

variable {σ : Type}

/-- The seats of a walk that are still needed: somebody outside the walk sees the seat, be it a live
cursor or a child in a seat of its own, or the child of a seat above which is needed itself. -/
inductive Spared (world : World σ) (walk : List Seat) : Seat → Prop where
  | bound {id : String} {cursor : Cursor} {seat : Seat} (hlive : (id, cursor) ∈ world.cursors)
      (hsees : cursor.Sees seat) : Spared world walk seat
  | shared {other seat : Seat} (hknows : world.pool.ledger.Knows other.parent)
      (hkept : world.pool.ledger.keeps other = true) (hout : other ∉ walk)
      (hsees : other.child.Sees seat) : Spared world walk seat
  | above {other seat : Seat} (hmem : other ∈ walk) (hspared : Spared world walk other)
      (hsees : other.child.Sees seat) : Spared world walk seat

variable [Store σ] {past : Pool σ} {world next : World σ} {walk : List Seat} {seat : Seat}

theorem keeps_of_sees (h : Ordered past world) {cursor : Cursor}
    (hcounts : world.pool.ledger.Counts world.holds cursor.hold) (hsees : cursor.Sees seat) :
    world.pool.ledger.keeps seat = true := by
  have hlost : seat ∈ cursor.block.lost cursor.extent .empty :=
    Block.mem_lost_iff.mpr ⟨hsees.1.symm, hsees.2, Extent.empty_overlaps _⟩
  exact (hcounts.walk h.kept.balanced
    (Block.mem_walk_iff.mpr ⟨seat, hlost, List.mem_cons_self ..⟩)).2.1

/-- A kept seat is seen by somebody. -/
theorem seen_of_keeps (h : Ordered past world) (hknows : world.pool.ledger.Knows seat.parent)
    (hkept : world.pool.ledger.keeps seat = true) :
    (∃ id cursor, (id, cursor) ∈ world.cursors ∧ cursor.Sees seat) ∨
      ∃ other : Seat, world.pool.ledger.Knows other.parent ∧
        world.pool.ledger.keeps other = true ∧ other.child.Sees seat := by
  have hsees : ∀ cursor : Cursor, world.pool.ledger.Counts world.holds cursor.hold →
      cursor.hold.sees seat.parent.number seat.range = true → cursor.Sees seat := by
    intro cursor hcounts hsees
    rw [Hold.sees, Bool.and_eq_true] at hsees
    exact ⟨(hcounts.knows h.kept.balanced).unique hknows (beq_iff_eq.mp hsees.1), hsees.2⟩
  have hneeded := (h.kept.balanced.keeps_iff hknows).mp hkept
  rcases Nat.add_pos_iff_pos_or_pos.mp hneeded with hheld | hspan
  · obtain ⟨hold, hmem, hholds⟩ := List.countP_pos_iff.mp hheld
    obtain ⟨⟨id, cursor⟩, hlive, rfl⟩ := List.mem_map.mp hmem
    exact Or.inl ⟨id, cursor, hlive, hsees cursor (Or.inl hmem) hholds⟩
  · obtain ⟨child, hmem, hholds⟩ := List.countP_pos_iff.mp hspan
    obtain ⟨number, page, side, hpage, hattached, hfits⟩ := Ledger.mem_spans_iff.mp hmem
    obtain rfl := h.kept.balanced.numbered hpage
    let other : Seat := ⟨page.block, side, child, hfits⟩
    have hother : world.pool.ledger.keeps other = true := by
      rw [Ledger.keeps_of_page (show world.pool.ledger.get? other.parent.number = some page from
        hpage)]
      exact hattached
    exact Or.inr ⟨other, ⟨page, hpage, rfl⟩, hother,
      hsees child (Or.inr ⟨child, hmem, rfl⟩) hholds⟩

/-- The seats of a walk that are kept are those that are needed. -/
theorem keeps_iff_spared (h : Ordered past world)
    (hknown : ∀ seat ∈ walk, world.pool.ledger.Knows seat.parent) (hmem : seat ∈ walk) :
    world.pool.ledger.keeps seat = true ↔ world.Spared walk seat := by
  constructor
  · intro hkept
    induction hrest : world.pool.ledger.fresh - seat.parent.number using Nat.strongRecOn
      generalizing seat with
    | ind rest ih =>
        rcases seen_of_keeps h (hknown seat hmem) hkept with ⟨id, cursor, hlive, hsees⟩ |
          ⟨other, hknows, hother, hsees⟩
        · exact Spared.bound hlive hsees
        · by_cases hon : other ∈ walk
          · -- Who sees the seat from above came later.
            obtain ⟨page, hpage, hblock⟩ := hknows
            have hlater := (h.kept.balanced.rooted hpage (hblock ▸ other.fits)).2
            have hfresh := Ledger.lt_fresh hpage
            rw [hsees.1] at hlater
            exact Spared.above hon (ih _ (by omega) hon hother rfl) hsees
          · exact Spared.shared hknows hother hon hsees
  · intro hspared
    induction hspared with
    | bound hlive hsees =>
        exact keeps_of_sees h (Or.inl (List.mem_map.mpr ⟨_, hlive, rfl⟩)) hsees
    | shared hknows hkept _ hsees =>
        exact keeps_of_sees h (Ledger.counts_of_keeps _ hknows hkept) hsees
    | above hon _ hsees ih =>
        exact keeps_of_sees h (Ledger.counts_of_keeps _ (hknown _ hon) (ih hon)) hsees

/-- How an operation that lets a holder's extent shrink gets from `world` to `next`. The seats that
it visits are those of the walk that are not needed any more, each where the walk meets it for the
last time, and disposing of their children is all that the shrinking does. These are the seats that
the operation empties, and each is visited once. The journal tells of the blocks that are gone for
it, each where it lost its last holder; after the visits those of `last` lose one. -/
structure TornDown (world next : World σ) (start : Pool σ) (block : Block) (before after : Extent)
    (last : List Block) : Prop where
  steps : start.resize block before after =
    (start.retired block before after).foldl Pool.disposeSeat (start.recount block before after).1
  order : start.retired block before after =
    (next.pool.ledger.vacant (block.walk before after)).dedup
  once : (start.retired block before after).Nodup
  gone : ∀ seat : Seat, world.pool.ledger.Knows seat.parent →
    (seat ∈ start.retired block before after ↔
      world.pool.ledger.keeps seat = true ∧ next.pool.ledger.keeps seat = false)
  spared : ∀ seat ∈ block.walk before after, world.pool.ledger.keeps seat = true ∧
    (next.pool.ledger.keeps seat = true ↔ next.Spared (block.walk before after) seat)
  endings : next.pool.endings = world.pool.endings ++
    (next.pool.ended (((start.retired block before after).map fun seat => seat.child.block) ++
      last)).flatMap Block.lastWords

/-- If nobody else holds anything of what is lost, all of it goes in the order of the walk. That is
the order of the positions: the stores of bytes that are lost go in the order of the bytes. -/
def FallsWhole (world next : World σ) (start : Pool σ) (block : Block) (before after : Extent)
    (last : List Block) : Prop :=
  let below := (block.walk before after).map fun seat => seat.child.block
  (∀ held ∈ block :: below, world.pool.ledger.refs held.number = 1) →
    start.retired block before after = block.walk before after ∧
      next.pool.endings = world.pool.endings ++ (below ++ last).flatMap Block.lastWords ∧
      (block.isComposed = true → ∀ position length, block.Loses before after position length →
        (block.storesAt position length).Sublist (Block.storesOf below))

section Shrinking

variable {start : Pool σ} {block : Block} {before after : Extent} {last : List Block}

/-- What the pool does is what the world does, if nothing happens to the seats before and after. -/
theorem tornDown_of_retires (hretires : start.Retires block before after)
    (hnext : Ordered past next) (hsince : start.Since next.pool)
    (hbefore : world.pool.Since start) (hcalm : world.pool.Calm start)
    (hlast : ∀ seat, next.pool.ledger.keeps seat =
      (start.resize block before after).ledger.keeps seat)
    (hendings : next.pool.endings = world.pool.endings ++
      (next.pool.ended (((start.retired block before after).map fun seat => seat.child.block) ++
        last)).flatMap Block.lastWords) :
    world.TornDown next start block before after last := by
  have hvacant : ∀ seats, next.pool.ledger.vacant seats =
      (start.resize block before after).ledger.vacant seats := by
    intro seats
    simp only [Ledger.vacant, hlast]
  constructor
  case steps => exact hretires.steps
  case order => rw [hvacant, hretires.order]
  case once =>
    rw [hretires.order]
    exact List.nodup_dedup _
  case gone =>
    intro seat hknows
    rw [hlast, ← hcalm.keeps]
    exact hretires.gone seat (hbefore.knows hknows)
  case spared =>
    intro seat hmem
    have hknown : ∀ seat ∈ block.walk before after, next.pool.ledger.Knows seat.parent :=
      fun seat hmem => hsince.knows (hretires.walked seat hmem).1
    rw [← hcalm.keeps]
    exact ⟨(hretires.walked seat hmem).2, keeps_iff_spared hnext hknown hmem⟩
  case endings => exact hendings

theorem fallsWhole_of_kept {held : List Hold} (hsound : block.Sound) (hcovers : block.Covers before)
    (hstart : past.Kept start (⟨block, before⟩ :: held))
    (hnarrow : ∀ range, after.overlaps range = true → before.overlaps range = true)
    (hrefs : ∀ number, start.ledger.refs number = world.pool.ledger.refs number)
    (hquiet : start.endings = world.pool.endings)
    (hlast : start.ledger.refs block.number = 1 →
      next.pool.endings = (start.resize block before after).endings ++
        last.flatMap Block.lastWords) :
    world.FallsWhole next start block before after last := by
  intro halone
  have hone := halone block (List.mem_cons_self ..)
  have hbelow : ∀ seat ∈ block.walk before after,
      start.ledger.refs seat.child.block.number = 1 := by
    intro seat hmem
    rw [hrefs]
    exact halone seat.child.block (List.mem_cons_of_mem _ (List.mem_map_of_mem hmem))
  rw [← hrefs] at hone
  obtain ⟨hvisits, hendings⟩ := hstart.retires_alone hnarrow hone hbelow
  refine ⟨hvisits, ?_, ?_⟩
  · rw [hlast hone, hendings, hquiet, List.flatMap_append, List.flatMap_map, List.append_assoc]
  · intro hcomposed position length hloses
    have hstores := block.storesAt_walk hsound (hcovers.mono hloses.seen) hloses
    cases block with
    | source header store => cases hcomposed
    | composed header joint left right => exact hstores

end Shrinking

section Operations

variable {id : String} {answer : Answer}

theorem release_tornDown (h : Ordered past world) {position : Nat}
    (hrelease : world.apply (.release id position) = (.ok answer, next)) :
    ∃ cursor kept start, world.find? id = some cursor ∧ next.find? id = some kept ∧
      kept.block = cursor.block ∧
      next.pool = start.resize cursor.block cursor.extent kept.extent ∧
      world.TornDown next start cursor.block cursor.extent kept.extent [] ∧
      world.FallsWhole next start cursor.block cursor.extent kept.extent [] := by
  have hordered := (apply_lands h (.release id position)).ordered
  rw [hrelease] at hordered
  simp only [apply, withCursor] at hrelease
  split at hrelease
  · cases hrelease
  · rename_i cursor hfind
    obtain ⟨hsound, hheld⟩ := h.restart.focus hfind
    simp only [Pool.release, Cursor.through_eq] at hrelease
    cases hfirst : cursor.view.firstKept position with
    | error fault =>
        simp only [hfirst, settleMoved] at hrelease
        cases hrelease
    | ok first =>
        simp only [hfirst, settleMoved] at hrelease
        obtain rfl := (Prod.mk.inj hrelease).2
        obtain ⟨-, hwithin⟩ := hsound.placed.view.release hfirst
        let kept := cursor.withView { cursor.view with first }
        let released : Extent := ⟨cursor.view.first, first⟩
        let start := world.pool.adviseBelow cursor.block released
        have hstart : world.pool.Kept start (cursor.hold :: world.others id) :=
          hheld.advised cursor.block released
        have hnarrow : ∀ range, kept.extent.overlaps range = true →
            cursor.extent.overlaps range = true := fun range => hwithin.overlaps
        have hledger : start.ledger = world.pool.ledger :=
          (world.pool.adviseBelow_advises cursor.block released).1
        have hcalm : world.pool.Calm start := .advised _ cursor.block released
        have hretires : start.Retires cursor.block cursor.extent kept.extent :=
          hstart.retires hnarrow
        refine ⟨cursor, kept, start, hfind, find?_update hfind _, rfl, rfl, ?_, ?_⟩
        · refine tornDown_of_retires hretires hordered (hstart.restart.narrow hnarrow).since
            hstart.since hcalm (fun _ => rfl) ?_
          rw [List.append_nil, ← hcalm.endings]
          exact hretires.endings
        · refine fallsWhole_of_kept hsound.block hsound.placed.covered hstart hnarrow
            (fun number => congrArg (Ledger.refs · number) hledger) hcalm.endings fun _ => ?_
          rw [List.flatMap_nil, List.append_nil]
          rfl

/-- A cursor that goes stops seeing all that it saw, and then its hold ends. -/
theorem dispose_tornDown (h : Ordered past world)
    (hdispose : world.apply (.dispose id) = (.ok answer, next)) :
    ∃ cursor, world.find? id = some cursor ∧ next.find? id = none ∧
      next.pool = (world.pool.resize cursor.block cursor.extent .empty).letGo cursor.block ∧
      world.TornDown next world.pool cursor.block cursor.extent .empty [cursor.block] ∧
      world.FallsWhole next world.pool cursor.block cursor.extent .empty [cursor.block] := by
  have hlands := (apply_lands h.restart (.dispose id)).ordered
  rw [hdispose] at hlands
  simp only [apply, withCursor, Pool.tryDispose_eq] at hdispose
  split at hdispose
  · cases hdispose
  · rename_i cursor hfind
    obtain rfl := (Prod.mk.inj hdispose).2
    obtain ⟨hsound, hheld⟩ := h.restart.focus hfind
    have hnarrow := cursor.extent.empty_narrow
    have hretires : world.pool.Retires cursor.block cursor.extent .empty := hheld.retires hnarrow
    let shrunk := world.pool.resize cursor.block cursor.extent .empty
    have hshrunk : world.pool.Kept shrunk (⟨cursor.block, .empty⟩ :: world.others id) :=
      hheld.narrow hnarrow
    have hblind : ∀ side, Extent.empty.overlaps (cursor.block.slotRange side) = false :=
      fun side => Extent.empty_overlaps _
    have hnone := (hshrunk.unhold hblind).1
    have hlast : world.pool.dispose cursor = (shrunk.unhold cursor.block).1 := by
      simp only [Pool.dispose, Pool.letGo]
      rw [hnone, Pool.disposeAll_nil]
    have hdrops : shrunk.Drops (world.pool.dispose cursor) cursor.block := by
      rw [hlast]
      exact Pool.unhold_drops hshrunk.balanced
    have hkeeps : ∀ seat, (world.pool.dispose cursor).ledger.keeps seat =
        shrunk.ledger.keeps seat := by
      rw [hlast]
      exact Pool.unhold_keeps hshrunk.balanced hblind
    refine ⟨cursor, hfind, ?_, rfl, ?_, ?_⟩
    · rw [find?_remove_eq, if_pos rfl]
    · refine tornDown_of_retires hretires hlands hlands.kept.since (.refl _)
        ⟨fun _ => rfl, rfl⟩ hkeeps ?_
      have hother : ∀ other ∈ (world.pool.retired cursor.block cursor.extent .empty).map
          (fun seat => seat.child.block), other.number ≠ cursor.block.number := by
        intro other hmem
        obtain ⟨seat, hseat, rfl⟩ := List.mem_map.mp hmem
        exact hretires.below seat hseat
      have hends : (if shrunk.ledger.refs cursor.block.number = 1 then [cursor.block]
            else []).flatMap Block.lastWords =
          if shrunk.ledger.refs cursor.block.number = 1 then cursor.block.lastWords else [] := by
        split
        · exact List.flatMap_singleton ..
        · rfl
      change (world.pool.dispose cursor).endings =
        _ ++ ((world.pool.dispose cursor).ended _).flatMap Block.lastWords
      rw [hdrops.endings, hretires.endings, hdrops.ended hother, List.flatMap_append, hends,
        List.append_assoc]
    · refine fallsWhole_of_kept hsound.block hsound.placed.covered hheld hnarrow (fun _ => rfl) rfl
        fun hone => ?_
      change (world.pool.dispose cursor).endings = _
      rw [hdrops.endings, hretires.refs _ hretires.below, if_pos hone, List.flatMap_singleton]

/-- A cursor that is split sees only the head from then on. What it stops seeing the tail sees, so
that nothing is emptied. -/
theorem split_tornDown (h : Ordered past world) {target : String} {position : Nat}
    (hsplit : world.apply (.split id target position) = (.ok answer, next)) :
    ∃ cursor head tail start event, world.find? id = some cursor ∧ next.find? id = some head ∧
      next.find? target = some tail ∧ head.block = cursor.block ∧ tail.block = cursor.block ∧
      next.pool = (start.resize cursor.block cursor.extent head.extent).log event ∧
      start.retired cursor.block cursor.extent head.extent = [] ∧
      world.TornDown next start cursor.block cursor.extent head.extent [] := by
  have hordered := (apply_lands h (.split id target position)).ordered
  rw [hsplit] at hordered
  simp only [apply, claiming, withCursor] at hsplit
  split at hsplit
  · cases hsplit
  · rename_i hfree
    split at hsplit
    · cases hsplit
    · rename_i cursor hfind
      obtain ⟨hsound, hheld⟩ := h.restart.focus hfind
      cases hcheck : cursor.view.splitCheck position with
      | error fault =>
          simp only [Pool.split, Cursor.through_eq, hcheck] at hsplit
          cases hsplit
      | ok _ =>
          obtain ⟨inner, moved, head, tail, front, back, -, hafter, hbefore, rfl, rfl, rfl, hpool,
            hhead, htail, hstart⟩ := hheld.split_start hsound hcheck
          simp only [hpool] at hsplit
          obtain rfl := (Prod.mk.inj hsplit).2
          have hnarrow : ∀ range, Extent.overlaps ⟨cursor.view.first, inner⟩ range = true →
              cursor.extent.overlaps range = true :=
            fun range => Extent.Within.overlaps ⟨Nat.le_refl _, Nat.le_of_lt hbefore⟩
          have hcalm := Pool.Calm.beforeCut world.pool cursor
            (cursor.withView { cursor.view with current := inner }) position
          have hlogged := Pool.Calm.log ((world.pool.beforeCut cursor
            (cursor.withView { cursor.view with current := inner }) position).resize
              cursor.block cursor.extent ⟨cursor.view.first, inner⟩)
            (.streamSplit position front back) rfl rfl
          have hretires := hstart.retires hnarrow
          have hcut := hstart.restart.narrow hnarrow
          have hfirst := hsound.placed.view.first_le
          have hnone := hretires.eq_nil_of_seen hcut.balanced
            (Or.inl (List.mem_cons_of_mem _ (List.mem_cons_self ..)))
            fun range => Extent.overlaps_of_cut (by omega) hbefore
          have hfound := fun pool : Pool σ =>
            find?_divide (show (world.withPool pool).find? id = some cursor from hfind)
              (Bool.eq_false_iff.mpr hfree)
          refine ⟨cursor, _, _, _, _, hfind, (hfound _ _ _).1, (hfound _ _ _).2, rfl, rfl, rfl,
            hnone, ?_⟩
          · refine tornDown_of_retires hretires hordered (hcut.log rfl rfl).since
              hstart.since hcalm
                hlogged.keeps ?_
            rw [List.append_nil, ← hcalm.endings]
            exact hlogged.endings.trans hretires.endings

end Operations

/-- After any run, whatever is shared with whom: a release, the end of a cursor and a split take
down what the cursor stops seeing from left to right. The children are disposed of in the order of
the walk, each at its last meeting, unless it is still needed, and none of them twice; the blocks
that are destroyed by that run their hooks in the order in which they lost their last holders. -/
theorem teardown_left_to_right (operations : List (Operation σ)) :
    let world := run {} operations
    (∀ id position answer next, world.apply (.release id position) = (.ok answer, next) →
      ∃ cursor kept start, world.find? id = some cursor ∧ next.find? id = some kept ∧
        kept.block = cursor.block ∧
        next.pool = start.resize cursor.block cursor.extent kept.extent ∧
        world.TornDown next start cursor.block cursor.extent kept.extent [] ∧
        world.FallsWhole next start cursor.block cursor.extent kept.extent []) ∧
    (∀ id answer next, world.apply (.dispose id) = (.ok answer, next) →
      ∃ cursor, world.find? id = some cursor ∧ next.find? id = none ∧
        next.pool = (world.pool.resize cursor.block cursor.extent .empty).letGo cursor.block ∧
        world.TornDown next world.pool cursor.block cursor.extent .empty [cursor.block] ∧
        world.FallsWhole next world.pool cursor.block cursor.extent .empty [cursor.block]) ∧
    (∀ id target position answer next,
      world.apply (.split id target position) = (.ok answer, next) →
      ∃ cursor head tail start event, world.find? id = some cursor ∧
        next.find? id = some head ∧
        next.find? target = some tail ∧ head.block = cursor.block ∧
          tail.block = cursor.block ∧
        next.pool = (start.resize cursor.block cursor.extent head.extent).log event ∧
        start.retired cursor.block cursor.extent head.extent = [] ∧
        world.TornDown next start cursor.block cursor.extent head.extent []) := by
  intro world
  have h : Ordered {} world := run_empty_ordered operations
  refine ⟨?_, ?_, ?_⟩
  · intro id position answer next hrelease
    exact release_tornDown h hrelease
  · intro id answer next hdispose
    exact dispose_tornDown h hdispose
  · intro id target position answer next hsplit
    exact split_tornDown h hsplit

/-- A sequence of two stores, joined to a clone of itself. -/
def doubled : List (Operation MemoryStore) :=
  let plan (length : Nat) : Blueprint MemoryStore :=
    { store := ⟨.cyclic length⟩, settings := .compact }
  [.build "a" (plan 2), .build "b" (plan 3), .concat "a" "b" none, .dispose "b", .clone "a" "c",
    .concat "a" "c" none, .dispose "c"]

/-- The walk meets the seats of the sequence on either side. They are visited on the right. -/
example :
    let world := run {} doubled
    let names := List.map fun seat : Seat => (seat.parent.number, seat.side)
    (world.find? "a").map (fun cursor => names (cursor.block.walk cursor.extent .empty)) =
        some [(3, .left), (2, .left), (2, .right), (3, .right), (2, .left), (2, .right)] ∧
      (world.find? "a").map (fun cursor =>
          names (world.pool.retired cursor.block cursor.extent .empty)) =
        some [(3, .left), (3, .right), (2, .left), (2, .right)] := by
  decide +kernel

end World

end SharedStream
