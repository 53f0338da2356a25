import Mathlib.Data.List.Dedup
import SharedStream.Proofs.Keeping
/-!
The seats of children. A seat is a slot of a composition, and the child that the composition was
made with for it. When a holder stops seeing some seats of its block, the *walk* goes over these and
over all that is below them: a seat comes before what is below its child, the left seat of a
composition with all that is below it before the right one. Below a child the walk goes over
everything that the child sees. A seat is met once for every way that leads to it.
-/

namespace SharedStream

deriving instance DecidableEq for Block
deriving instance DecidableEq for Cursor

/-- A slot of a composition, with the child that belongs there. -/
structure Seat where
  parent : Block
  side : Side
  child : Cursor
  fits : parent.child? side = some child
deriving DecidableEq

namespace Seat

theorem eq_of_side {seat other : Seat} (hparent : seat.parent = other.parent)
    (hside : seat.side = other.side) : seat = other := by
  obtain ⟨parent, side, child, hfits⟩ := seat
  obtain ⟨parent', side', child', hfits'⟩ := other
  obtain rfl : parent = parent' := hparent
  obtain rfl : side = side' := hside
  obtain rfl : child = child' := Option.some.inj (hfits.symm.trans hfits')
  rfl

/-- The part of its composition that the seat stands for. -/
def range (seat : Seat) : Extent := seat.parent.slotRange seat.side

theorem weight_child (seat : Seat) : seat.child.block.weight < seat.parent.weight := by
  obtain ⟨parent, side, child, hfits⟩ := seat
  cases parent with
  | source header store => cases hfits
  | composed header joint left right =>
      obtain rfl := Option.some.inj hfits
      cases side <;> simp only [Joint.child, Block.weight] <;> omega

end Seat

namespace Block

/-- The two seats of a composition. -/
def seats : Block → List Seat
  | .source _ _ => []
  | .composed header joint left right =>
      [⟨.composed header joint left right, .left, joint.child left right .left, rfl⟩,
        ⟨.composed header joint left right, .right, joint.child left right .right, rfl⟩]

theorem mem_seats_iff {block : Block} {seat : Seat} :
    seat ∈ block.seats ↔ seat.parent = block := by
  obtain ⟨parent, side, child, hfits⟩ := seat
  cases block with
  | source header store =>
      simp only [seats, List.not_mem_nil, false_iff]
      rintro rfl
      cases hfits
  | composed header joint left right =>
      simp only [seats, List.mem_cons, List.not_mem_nil, or_false]
      constructor
      · rintro (h | h) <;> exact congrArg Seat.parent h
      · rintro rfl
        cases side with
        | left => exact Or.inl (Seat.eq_of_side rfl rfl)
        | right => exact Or.inr (Seat.eq_of_side rfl rfl)

theorem seats_nodup (block : Block) : block.seats.Nodup := by
  cases block with
  | source header store => exact List.nodup_nil
  | composed header joint left right =>
      refine List.nodup_cons.mpr ⟨fun hmem => ?_, List.nodup_singleton _⟩
      cases congrArg Seat.side (List.mem_singleton.mp hmem)

/-- The seats that a holder stops seeing, left before right. -/
def lost (block : Block) (before after : Extent) : List Seat :=
  block.seats.filter fun seat => before.overlaps seat.range && !after.overlaps seat.range

theorem mem_lost_iff {block : Block} {before after : Extent} {seat : Seat} :
    seat ∈ block.lost before after ↔
      seat.parent = block ∧ before.overlaps seat.range = true ∧
        after.overlaps seat.range = false := by
  simp [lost, mem_seats_iff]

/-- The walk over the seats that a holder stops seeing and over all that is below them. -/
def walk : Block → Extent → Extent → List Seat
  | .source _ _, _, _ => []
  | .composed header joint left right, before, after =>
      let lost (side : Side) : Bool :=
        before.overlaps (joint.range side) && !after.overlaps (joint.range side)
      let seat (side : Side) : Seat :=
        ⟨.composed header joint left right, side, joint.child left right side, rfl⟩
      (if lost .left then seat .left :: left.walk joint.leftView.extent .empty else []) ++
        (if lost .right then seat .right :: right.walk joint.rightView.extent .empty else [])

end Block

/-- The walk from a seat on: the seat, and everything below that its child sees. -/
def Seat.walk (seat : Seat) : List Seat := seat :: seat.child.block.walk seat.child.extent .empty

namespace Block

variable {block : Block} {before after : Extent} {seat : Seat}

theorem walk_eq (block : Block) (before after : Extent) :
    block.walk before after = (block.lost before after).flatMap Seat.walk := by
  cases block with
  | source header store => rfl
  | composed header joint left right =>
      simp only [walk, lost, seats, Seat.range, slotRange, List.filter_cons, List.filter_nil]
      split <;> split <;> simp [Seat.walk, Joint.child, Cursor.extent]

theorem mem_walk_iff :
    seat ∈ block.walk before after ↔
      ∃ top ∈ block.lost before after, seat ∈ top.walk := by
  rw [walk_eq, List.mem_flatMap]

/-- A seat of the walk is lost itself, or below one that is. -/
theorem walk_induction {motive : Block → Extent → Extent → Prop}
    (htop : ∀ {block before after}, seat ∈ block.lost before after →
      motive block before after)
    (hbelow : ∀ {block before after top}, top ∈ block.lost before after →
      seat ∈ top.child.block.walk top.child.extent .empty →
      motive top.child.block top.child.extent .empty → motive block before after)
    (hmem : seat ∈ block.walk before after) : motive block before after := by
  induction hweight : block.weight using Nat.strongRecOn generalizing block before after with
  | ind weight ih =>
      obtain ⟨top, hlost, hseat⟩ := mem_walk_iff.mp hmem
      rcases List.mem_cons.mp hseat with rfl | hseat
      · exact htop hlost
      · have hless := top.weight_child
        rw [(mem_lost_iff.mp hlost).1, hweight] at hless
        exact hbelow hlost hseat (ih _ hless hseat rfl)

/-- The walk leads downwards only. -/
theorem weight_of_mem_walk (hmem : seat ∈ block.walk before after) :
    seat.parent.weight ≤ block.weight := by
  refine walk_induction (motive := fun block _ _ => seat.parent.weight ≤ block.weight) ?_ ?_ hmem
  · intro block before after hlost
    exact Nat.le_of_eq (congrArg weight (mem_lost_iff.mp hlost).1)
  · intro block before after top hlost _ hle
    have hless := top.weight_child
    rw [(mem_lost_iff.mp hlost).1] at hless
    omega

/-- Whatever is below a seat of the walk is on the walk too. -/
theorem walk_subset (hmem : seat ∈ block.walk before after) :
    seat.walk ⊆ block.walk before after := by
  refine walk_induction (motive := fun block before after => seat.walk ⊆ block.walk before after)
    ?_ ?_ hmem
  · intro block before after hlost other hother
    exact mem_walk_iff.mpr ⟨seat, hlost, hother⟩
  · intro block before after top hlost _ hsubset other hother
    exact mem_walk_iff.mpr ⟨top, hlost, List.mem_cons_of_mem _ (hsubset hother)⟩

end Block

theorem Seat.walk_subset {seat : Seat} (top : Seat) (hmem : seat ∈ top.walk) :
    seat.walk ⊆ top.walk := by
  rcases List.mem_cons.mp hmem with rfl | hbelow
  · exact List.Subset.refl _
  · exact List.Subset.trans (Block.walk_subset hbelow) (List.subset_cons_self ..)

namespace Ledger

/-- The composition still keeps the child of the seat. -/
def keeps (ledger : Ledger) (seat : Seat) : Bool := ledger.attached seat.parent.number seat.side

/-- The seats among these that have no child any more. -/
def vacant (ledger : Ledger) (seats : List Seat) : List Seat :=
  seats.filter fun seat => !ledger.keeps seat

theorem mem_vacant_iff {ledger : Ledger} {seats : List Seat} {seat : Seat} :
    seat ∈ ledger.vacant seats ↔ seat ∈ seats ∧ ledger.keeps seat = false := by
  simp [vacant]

theorem vacant_append (ledger : Ledger) (seats others : List Seat) :
    ledger.vacant (seats ++ others) = ledger.vacant seats ++ ledger.vacant others :=
  List.filter_append ..

theorem vacant_flatMap (ledger : Ledger) (seats : List Seat) :
    ledger.vacant (seats.flatMap Seat.walk) =
      seats.flatMap fun seat => ledger.vacant seat.walk :=
  List.filter_flatMap

/-- The seats of a block that are emptied on the way from one state of the books to another. -/
def vacated (before after : Ledger) (block : Block) : List Seat :=
  block.seats.filter fun seat => before.keeps seat && !after.keeps seat

theorem mem_vacated_iff {before after : Ledger} {block : Block} {seat : Seat} :
    seat ∈ before.vacated after block ↔
      seat.parent = block ∧ before.keeps seat = true ∧ after.keeps seat = false := by
  simp [vacated, Block.mem_seats_iff]

variable {ledger : Ledger} {held : List Hold} {seat : Seat}

theorem keeps_of_page {page : Page} (hpage : ledger.get? seat.parent.number = some page) :
    ledger.keeps seat = (page.slot seat.side).attached := by
  simp [keeps, attached, slot, hpage]

theorem keeps_modify_of_ne {number : Nat} (hne : seat.parent.number ≠ number)
    (change : Page → Page) : (ledger.modify number change).keeps seat = ledger.keeps seat := by
  rw [keeps, attached, slot, get?_modify_of_ne hne]
  rfl

/-- Only the slots of a page say what it keeps. -/
theorem keeps_modify {number : Nat} {change : Page → Page}
    (hslot : ∀ page, ledger.get? number = some page →
      ∀ side, ((change page).slot side).attached = (page.slot side).attached) (seat : Seat) :
    (ledger.modify number change).keeps seat = ledger.keeps seat := by
  simp only [keeps, attached, slot, get?_modify]
  split
  · rename_i hnumber
    rw [← hnumber]
    cases hpage : ledger.get? number with
    | none => rfl
    | some page => exact hslot page hpage seat.side
  · rfl

/-- In balanced books a child is kept as long as somebody sees its seat. -/
theorem Balanced.keeps_iff (h : ledger.Balanced held) (hknows : ledger.Knows seat.parent) :
    ledger.keeps seat = true ↔
      0 < ledger.tally held (Hold.sees seat.parent.number seat.range) := by
  obtain ⟨page, hpage, hblock⟩ := hknows
  rw [keeps_of_page hpage, h.attached hpage seat.side, h.needs hpage seat.side, hblock]
  rfl

/-- A child in its seat is counted. -/
theorem counts_of_keeps (held : List Hold) (hknows : ledger.Knows seat.parent)
    (hkeeps : ledger.keeps seat = true) : ledger.Counts held seat.child.hold := by
  obtain ⟨page, hpage, hblock⟩ := hknows
  rw [keeps_of_page hpage] at hkeeps
  refine Or.inr ⟨seat.child, mem_spans_iff.mpr ⟨_, page, seat.side, hpage, hkeeps, ?_⟩, rfl⟩
  rw [hblock, seat.fits]

theorem Counts.refs_pos {hold : Hold} (h : ledger.Counts held hold)
    (hbalanced : ledger.Balanced held) : 0 < ledger.refs hold.block.number := by
  obtain ⟨page, hpage, -⟩ := h.knows hbalanced
  rw [refs, hpage, Option.elim_some, hbalanced.refs hpage]
  apply h.tally_pos
  simp [Hold.on]

/-- Only a block that somebody holds keeps a child. -/
theorem Balanced.refs_pos_of_keeps (h : ledger.Balanced held) (hknows : ledger.Knows seat.parent)
    (hkeeps : ledger.keeps seat = true) : 0 < ledger.refs seat.parent.number := by
  have hsees := (h.keeps_iff hknows).mp hkeeps
  obtain ⟨page, hpage, -⟩ := hknows
  rw [Ledger.refs, hpage, Option.elim_some, h.refs hpage]
  refine Nat.lt_of_lt_of_le hsees (Nat.add_le_add ?_ ?_)
  · exact List.countP_mono_left fun hold _ => Hold.on_of_sees
  · exact List.countP_mono_left fun cursor _ => Hold.on_of_sees

/-- Every seat that a counted hold sees is kept, with all that is below. -/
theorem Counts.walk {block : Block} {before after : Extent} (hbalanced : ledger.Balanced held)
    (h : ledger.Counts held ⟨block, before⟩) (hmem : seat ∈ block.walk before after) :
    ledger.Knows seat.parent ∧ ledger.keeps seat = true ∧
      ledger.Counts held seat.child.hold := by
  have hlost : ∀ {block before after top}, top ∈ Block.lost block before after →
      ledger.Counts held ⟨block, before⟩ → ledger.Knows top.parent ∧
        ledger.keeps top = true ∧ ledger.Counts held top.child.hold := by
    intro block before after top htop hcounts
    obtain ⟨rfl, hsees, -⟩ := Block.mem_lost_iff.mp htop
    exact ⟨hcounts.knows hbalanced, hcounts.child hbalanced hsees top.fits⟩
  revert h
  refine Block.walk_induction (motive := fun block before _ =>
    ledger.Counts held ⟨block, before⟩ → _) hlost ?_ hmem
  intro block before after top htop _ hbelow hcounts
  exact hbelow (hlost htop hcounts).2.2

/-- The walk does not come back to where it began. -/
theorem Counts.walk_ne {block : Block} {before after : Extent} (hbalanced : ledger.Balanced held)
    (h : ledger.Counts held ⟨block, before⟩) (hmem : seat ∈ block.walk before after) :
    seat.child.block.number ≠ block.number := by
  intro hnumber
  have hknows := (h.walk hbalanced hmem).2.2.knows hbalanced
  have hsame : seat.child.block = block := hknows.unique (h.knows hbalanced) hnumber
  have hless := seat.weight_child
  have hle := Block.weight_of_mem_walk hmem
  rw [hsame] at hless
  omega

end Ledger

/-- A slot lets its child go only for a holder that saw it and sees it no more. -/
theorem Slot.lost_of_recount {slot : Slot} {range before after : Extent}
    (hkept : slot.attached = true) (hgone : (slot.recount range before after).1.attached = false) :
    before.overlaps range = true ∧ after.overlaps range = false := by
  unfold recount at hgone
  cases hb : before.overlaps range <;> cases ha : after.overlaps range <;> simp_all

/-- A slot keeps its child for a holder that did not see it. -/
theorem Slot.recount_blind (slot : Slot) (range after : Extent) :
    (slot.recount range .empty after).1.attached = slot.attached ∧
      (slot.recount range .empty after).2 = false := by
  unfold recount
  cases after.overlaps range <;> simp

namespace Pool

variable {σ : Type} {pool : Pool σ} {block : Block} {before after : Extent} {held : List Hold}

/-- What a change of an extent does to the seats. A seat of another block stays as it is. One of
this block may be emptied if it is lost; the children that come out are those of the seats that
are. -/
structure Empties (pool next : Pool σ) (block : Block) (before after : Extent)
    (detached : List Cursor) : Prop where
  elsewhere : ∀ seat : Seat, seat.parent.number ≠ block.number →
    next.ledger.keeps seat = pool.ledger.keeps seat
  lost : ∀ seat ∈ pool.ledger.vacated next.ledger block, seat ∈ block.lost before after
  detached : detached = (pool.ledger.vacated next.ledger block).map Seat.child

theorem recount_empties (h : pool.ledger.Balanced (⟨block, before⟩ :: held))
    (hseen : ∀ side, after.overlaps (block.slotRange side) = true →
      0 < pool.ledger.tally (⟨block, before⟩ :: held)
        (Hold.sees block.number (block.slotRange side))) :
    pool.Empties (pool.recount block before after).1 block before after
      (pool.recount block before after).2 := by
  cases block with
  | source header store =>
      exact ⟨fun _ _ => rfl, by simp [Ledger.vacated, Block.seats], rfl⟩
  | composed header joint left right =>
      obtain ⟨page, hpage, hblock, -⟩ := h.page_of_mem (List.mem_cons_self ..)
      change pool.ledger.get? header.number = some page at hpage
      obtain ⟨hledger, hdetached⟩ := @recount_of_page _ _ _ joint left right _
        before after hpage
      have hspec := slot_recount_spec h hseen hpage hblock
      have hnow : ∀ side, pool.ledger.attached header.number side =
          (page.slot side).attached := by
        intro side
        simp [Ledger.attached, Ledger.slot, hpage]
      have hthen : ∀ side,
          (pool.recount (.composed header joint left right) before after).1.ledger.attached
              header.number side =
            ((page.slot side).recount (joint.range side) before after).1.attached := by
        intro side
        rw [hledger]
        cases side <;>
          simp [Ledger.attached, Ledger.slot, Ledger.get?_modify_self hpage, Page.setSlots,
            Page.setSlot, Page.slot]
      refine ⟨?_, ?_, ?_⟩
      · intro seat hne
        rw [hledger]
        exact Ledger.keeps_modify_of_ne hne _
      · intro seat hmem
        obtain ⟨hparent, hkept, hgone⟩ := Ledger.mem_vacated_iff.mp hmem
        rw [Ledger.keeps, hparent] at hkept hgone
        have hlost := Slot.lost_of_recount ((hnow _).symm.trans hkept) ((hthen _).symm.trans hgone)
        refine Block.mem_lost_iff.mpr ⟨hparent, ?_⟩
        rw [Seat.range, hparent]
        exact hlost
      · rw [hdetached]
        have hgone : ∀ side, ((page.slot side).recount (joint.range side) before after).2 =
            (pool.ledger.attached header.number side &&
              !(pool.recount (.composed header joint left right) before after).1.ledger.attached
                header.number side) := by
          intro side
          rw [(hspec side).2.2.1, hnow, hthen]
        have hleft := hgone .left
        have hright := hgone .right
        simp only [Page.slot] at hleft hright
        simp only [hleft, hright, Ledger.vacated, Block.seats, List.filter_cons, List.filter_nil,
          Ledger.keeps, Block.number, Block.header]
        split <;> split <;> rfl

theorem recountSlot_blind (pool : Pool σ) (header : Header) (joint : Joint) (after : Extent)
    (side : Side) :
    (pool.recountSlot header joint .empty after side).2 = false ∧
      ∀ seat, (pool.recountSlot header joint .empty after side).1.ledger.keeps seat =
        pool.ledger.keeps seat := by
  cases hpage : pool.ledger.get? header.number with
  | none => simp [recountSlot, hpage]
  | some page =>
      obtain ⟨hledger, hgone⟩ := recountSlot_of_page joint .empty after side hpage
      obtain ⟨hattached, hnone⟩ := (page.slot side).recount_blind (joint.range side) after
      rw [hledger, hgone]
      refine ⟨hnone, Ledger.keeps_modify fun same hsame other => ?_⟩
      obtain rfl : page = same := Option.some.inj (hpage.symm.trans hsame)
      cases side <;> cases other <;> first | rfl | exact hattached

/-- A holder that comes to see more empties no seat. -/
theorem recount_blind (pool : Pool σ) (block : Block) (after : Extent) :
    (pool.recount block .empty after).2 = [] ∧
      ∀ seat, (pool.recount block .empty after).1.ledger.keeps seat = pool.ledger.keeps seat := by
  cases block with
  | source header store => exact ⟨rfl, fun _ => rfl⟩
  | composed header joint left right =>
      obtain ⟨hright, hkeeps⟩ := pool.recountSlot_blind header joint after .right
      obtain ⟨hleft, hkeeps'⟩ :=
        (pool.recountSlot header joint .empty after .right).1.recountSlot_blind header joint after
          .left
      simp only [recount, hright, hleft]
      exact ⟨rfl, fun seat => (hkeeps' seat).trans (hkeeps seat)⟩

variable [Store σ]

/-- The end of a hold that sees nothing empties no seat, not even if the block goes. -/
theorem unhold_keeps {extent : Extent} (h : pool.ledger.Balanced (⟨block, extent⟩ :: held))
    (hblind : ∀ side, extent.overlaps (block.slotRange side) = false) (seat : Seat) :
    (pool.unhold block).1.ledger.keeps seat = pool.ledger.keeps seat := by
  obtain ⟨page, hpage, hblock, -⟩ := h.page_of_mem (List.mem_cons_self ..)
  change pool.ledger.get? block.number = some page at hpage
  change page.block = block at hblock
  simp only [unhold, hpage]
  split
  · rename_i hlast
    rw [Kept.free_ledger]
    refine Ledger.keeps_modify (fun other hother side => ?_) seat
    obtain rfl : page = other := Option.some.inj (hpage.symm.trans hother)
    rw [Page.slot_close, vacant_of_last h (hblind side) hpage hblock hlast]
    rfl
  · refine Ledger.keeps_modify (fun other _ side => ?_) seat
    rw [Page.slot_withRefs other]

/-- Disposing of a child empties seats of its block only, and only such as it saw. -/
theorem disposeOne_empties {child : Cursor}
    (h : pool.ledger.Balanced (child.hold :: held)) :
    pool.Empties (pool.disposeOne child).1 child.block child.extent .empty
      (pool.disposeOne child).2 := by
  have hseen := pool.ledger.seen_of_narrow child.block held child.extent.empty_narrow
  have hblind : ∀ side, Extent.empty.overlaps (child.block.slotRange side) = false :=
    fun side => Extent.empty_overlaps _
  have hempties := recount_empties h hseen
  have hbalanced := recount_balanced h hseen
  have hkeeps := unhold_keeps hbalanced hblind
  simp only [disposeOne, detach_eq, (unhold_balanced hbalanced hblind).1, List.nil_append]
  exact {
    elsewhere := fun seat hne => (hkeeps seat).trans (hempties.elsewhere seat hne)
    lost := by simpa only [Ledger.vacated, hkeeps] using hempties.lost
    detached := by simpa only [Ledger.vacated, hkeeps] using hempties.detached }

namespace Empties

variable {next : Pool σ} {detached : List Cursor} {seat : Seat}

omit [Store σ] in
/-- Whatever is emptied comes out. -/
theorem vacated_of_gone (h : pool.Empties next block before after detached)
    (hblock : pool.ledger.Knows block) (hknows : pool.ledger.Knows seat.parent)
    (hkept : pool.ledger.keeps seat = true) (hgone : next.ledger.keeps seat = false) :
    seat ∈ pool.ledger.vacated next.ledger block := by
  refine Ledger.mem_vacated_iff.mpr ⟨hknows.unique hblock ?_, hkept, hgone⟩
  refine Decidable.by_contra fun hne => ?_
  rw [h.elsewhere seat hne, hkept] at hgone
  cases hgone

omit [Store σ] in
theorem vacated_eq (h : pool.Empties next block before after detached) :
    pool.ledger.vacated next.ledger block =
      (block.lost before after).filter fun seat =>
        pool.ledger.keeps seat && !next.ledger.keeps seat := by
  rw [Block.lost, List.filter_filter, Ledger.vacated]
  refine List.filter_congr fun seat hmem => ?_
  cases hgone : pool.ledger.keeps seat && !next.ledger.keeps seat with
  | false => rw [Bool.false_and]
  | true =>
      rw [Bool.and_eq_true, Bool.not_eq_true'] at hgone
      have hlost := h.lost seat
        (Ledger.mem_vacated_iff.mpr ⟨Block.mem_seats_iff.mp hmem, hgone⟩)
      rw [(Block.mem_lost_iff.mp hlost).2.1, (Block.mem_lost_iff.mp hlost).2.2]
      rfl

end Empties

/-- A seat that was empty stays empty. -/
theorem Kept.keeps_past {past : Pool σ} {seat : Seat} {others : List Hold}
    (h : past.Kept pool held) (hpast : past.ledger.Balanced others)
    (hknows : past.ledger.Knows seat.parent) (hkept : pool.ledger.keeps seat = true) :
    past.ledger.keeps seat = true := by
  obtain ⟨page, hpage, -⟩ := hknows
  obtain ⟨next, hnext, -, hzero⟩ := h.since.pages hpage
  rw [Ledger.keeps_of_page hnext, h.balanced.attached hnext] at hkept
  rw [Ledger.keeps_of_page hpage, hpast.attached hpage]
  have hstill := hzero seat.side
  omega

theorem Since.knows {past : Pool σ} (h : past.Since pool) (hknows : past.ledger.Knows block) :
    pool.ledger.Knows block := by
  obtain ⟨page, hpage, rfl⟩ := hknows
  obtain ⟨next, hnext, hblock, -⟩ := h.pages hpage
  exact ⟨next, hnext, hblock⟩

end Pool

end SharedStream
