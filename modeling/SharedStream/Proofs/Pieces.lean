import SharedStream.Proofs.Balance
import SharedStream.Proofs.Geometry
import SharedStream.Proofs.Recursion
/-!
What lies under a cursor, as a flat list of pieces of stores. The shape of a composition does not
matter to a reader: as long as every child in sight is still held, reading a range is filling its
pieces one after another.
-/

namespace SharedStream

/-- So many bytes of a store, from a position of the store on. -/
structure Piece where
  store : StoreRef
  start : Nat
  length : Nat
deriving DecidableEq

namespace Piece

def total (pieces : List Piece) : Nat := sumOver Piece.length pieces

@[simp] theorem total_nil : total [] = 0 := rfl

@[simp] theorem total_cons (piece : Piece) (pieces : List Piece) :
    total (piece :: pieces) = piece.length + total pieces := by
  simp [total]

@[simp] theorem total_append (pieces more : List Piece) :
    total (pieces ++ more) = total pieces + total more := by
  simp [total]

/-- The pieces of the bytes that are left when `skip` bytes are passed over, `count` of them at
most. -/
def clip : List Piece → (skip count : Nat) → List Piece
  | [], _, _ => []
  | piece :: pieces, skip, count =>
      if piece.length ≤ skip then clip pieces (skip - piece.length) count
      else
        let taken := min (piece.length - skip) count
        (if taken = 0 then [] else [⟨piece.store, piece.start + skip, taken⟩]) ++
          clip pieces 0 (count - taken)

theorem clip_append (pieces more : List Piece) (skip count : Nat) :
    clip (pieces ++ more) skip count =
      clip pieces skip count ++ clip more (skip - total pieces)
        (count - (total pieces - skip)) := by
  induction pieces generalizing skip count with
  | nil => simp [clip]
  | cons piece pieces ih =>
      simp only [List.cons_append, clip, total_cons]
      split
      · rename_i hpassed
        rw [ih]
        have hskip : skip - piece.length - total pieces = skip - (piece.length + total pieces) := by
          omega
        have hcount : total pieces - (skip - piece.length) =
            piece.length + total pieces - skip := by omega
        rw [hskip, hcount]
      · rename_i hreached
        rw [ih, List.append_assoc]
        have hskip : 0 - total pieces = skip - (piece.length + total pieces) := by omega
        have hcount : count - min (piece.length - skip) count - (total pieces - 0) =
            count - (piece.length + total pieces - skip) := by omega
        rw [hskip, hcount]

end Piece

namespace Shift

/-- The inner position that an outer one names, where the name is exact. -/
def inner (shift : Shift) (outer : Nat) : Nat := ((outer : Int) - shift.amount).toNat

theorem inner_add (shift : Shift) {outer : Nat} (h : shift.amount ≤ outer) (more : Nat) :
    shift.inner (outer + more) = shift.inner outer + more := by
  simp only [inner]
  omega

end Shift

/-- The view under which a composition shows a child. -/
def Joint.view (joint : Joint) : Side → View
  | .left => joint.leftView
  | .right => joint.rightView

@[simp] theorem Joint.view_child (joint : Joint) (left right : Block) (side : Side) :
    (joint.child left right side).view = joint.view side := by
  cases side <;> rfl

namespace Joint.Tiled

variable {joint : Joint}

theorem first (h : joint.Tiled) (side : Side) :
    ((joint.view side).first : Int) + (joint.view side).shift.amount =
      (joint.range side).start := by
  cases side with
  | left => exact h.left_first
  | right => exact h.right_first

theorem stop (h : joint.Tiled) (side : Side) :
    ((joint.view side).stop : Int) + (joint.view side).shift.amount = (joint.range side).stop := by
  cases side with
  | left => exact h.left_stop
  | right => exact h.right_stop

/-- A range in a child's part of the composition is one in sight of the child. -/
theorem within (h : joint.Tiled) {side : Side} {position length : Nat}
    (hstart : (joint.range side).start ≤ position)
    (hstop : position + length ≤ (joint.range side).stop) :
    ((joint.view side).shift.inner position : Int) + (joint.view side).shift.amount = position ∧
      Extent.Within ⟨(joint.view side).shift.inner position,
        (joint.view side).shift.inner position + length⟩ (joint.view side).extent := by
  have hfirst := h.first side
  have hlast := h.stop side
  have hinner : ((joint.view side).shift.inner position : Int) +
      (joint.view side).shift.amount = position := by
    simp only [Shift.inner]
    omega
  refine ⟨hinner, ?_, ?_⟩
  · simp only [View.extent]
    omega
  · simp only [View.extent]
    omega

end Joint.Tiled

namespace Block

/-- The pieces of the `length` bytes of a block from an inner position on. -/
def pieces : Block → (position length : Nat) → List Piece
  | source _ store, position, length => if length = 0 then [] else [⟨store, position, length⟩]
  | composed _ joint left right, position, length =>
      left.pieces (joint.leftView.shift.inner position)
          (min (position + length) joint.boundary - position) ++
        right.pieces (joint.rightView.shift.inner (max position joint.boundary))
          (position + length - max position joint.boundary)

theorem pieces_source (header : Header) (store : StoreRef) (position : Nat) {length : Nat}
    (hlength : 0 < length) :
    (source header store).pieces position length = [⟨store, position, length⟩] := by
  rw [pieces, if_neg (Nat.ne_of_gt hlength)]

/-- The pieces on the left of the boundary, and those on the right. -/
theorem pieces_composed (header : Header) (joint : Joint) (left right : Block)
    (position length : Nat) :
    (composed header joint left right).pieces position length =
      left.pieces (joint.leftView.shift.inner position)
          (min length (joint.boundary - position)) ++
        right.pieces (joint.rightView.shift.inner (position + (joint.boundary - position)))
          (length - (joint.boundary - position)) := by
  have hleft : min (position + length) joint.boundary - position =
      min length (joint.boundary - position) := by omega
  have hright : max position joint.boundary = position + (joint.boundary - position) := by omega
  rw [pieces, hleft, hright, Nat.add_sub_add_left]

@[simp] theorem pieces_zero (block : Block) (position : Nat) : block.pieces position 0 = [] := by
  induction block generalizing position with
  | source header store => rfl
  | composed header joint left right ihleft ihright =>
      have hleft : min (position + 0) joint.boundary - position = 0 := by omega
      have hright : position + 0 - max position joint.boundary = 0 := by omega
      rw [pieces, hleft, hright, ihleft, ihright, List.nil_append]

@[simp] theorem total_pieces (block : Block) (position length : Nat) :
    Piece.total (block.pieces position length) = length := by
  induction block generalizing position length with
  | source header store =>
      simp only [pieces]
      split
      · simp_all
      · simp
  | composed header joint left right ihleft ihright =>
      rw [pieces, Piece.total_append, ihleft, ihright]
      omega

theorem Sound.side {header : Header} {joint : Joint} {left right : Block}
    (h : (composed header joint left right).Sound) {side : Side} {position length : Nat}
    (hstart : (joint.range side).start ≤ position)
    (hstop : position + length ≤ (joint.range side).stop) :
    ((joint.view side).shift.inner position : Int) + (joint.view side).shift.amount = position ∧
      Extent.Within ⟨(joint.view side).shift.inner position,
        (joint.view side).shift.inner position + length⟩ (joint.view side).extent ∧
      (joint.child left right side).block.Covers ⟨(joint.view side).shift.inner position,
        (joint.view side).shift.inner position + length⟩ := by
  have hchild := Cursor.child_sound h side
  obtain ⟨-, -, -, -, htiled, -⟩ := h
  obtain ⟨hinner, hwithin⟩ := htiled.within hstart hstop
  refine ⟨hinner, hwithin, hchild.placed.covered.mono ?_⟩
  simpa [Cursor.extent] using hwithin

/-- The pieces of a part are cut out of the pieces of the whole. -/
theorem clip_pieces (block : Block) : ∀ {position length : Nat}
    (skip count : Nat), block.Sound → block.Covers ⟨position, position + length⟩ →
    Piece.clip (block.pieces position length) skip count =
      block.pieces (position + skip) (min count (length - skip)) := by
  induction block with
  | source header store =>
      intro position length skip count _ _
      by_cases hlength : length = 0
      · subst hlength
        simp [pieces, Piece.clip]
      · simp only [pieces, hlength, if_false, Piece.clip]
        split
        · rename_i hpassed
          have hnone : length - skip = 0 := by omega
          simp [hnone]
        · rw [Nat.min_comm]
          simp
  | composed header joint left right ihleft ihright =>
      intro position length skip count hsound hcovers
      obtain ⟨hstart, hstop⟩ := hcovers
      simp only [Joint.whole] at hstart hstop
      -- On either side: cut first and name the rest inside the child, or the other way round.
      have hside : ∀ (side : Side) (first part skip count : Nat),
          (part ≠ 0 → (joint.range side).start ≤ first ∧
            first + part ≤ (joint.range side).stop) →
          Piece.clip ((joint.child left right side).block.pieces
              ((joint.view side).shift.inner first) part) skip count =
            (joint.child left right side).block.pieces
              ((joint.view side).shift.inner (first + skip)) (min count (part - skip)) := by
        intro side first part skip count hrange
        by_cases hpart : part = 0
        · subst hpart
          simp [Piece.clip]
        · obtain ⟨hfirst, hlast⟩ := hrange hpart
          obtain ⟨hinner, -, hcovers⟩ := hsound.side hfirst hlast
          rw [Shift.inner_add _ (by omega)]
          cases side with
          | left => exact ihleft skip count hsound.1 hcovers
          | right => exact ihright skip count hsound.2.1 hcovers
      rw [pieces_composed, pieces_composed, ← Nat.sub_sub]
      generalize hbefore : joint.boundary - position = before
      have hleft := hside .left position (min length before) skip count
        fun hpart => ⟨hstart, by simp only [Joint.range]; omega⟩
      have hright := hside .right (position + before) (length - before)
        (skip - min length before) (count - (min length before - skip))
        fun hpart => ⟨by simp only [Joint.range]; omega, by simp only [Joint.range]; omega⟩
      simp only [Joint.block_child_left, Joint.block_child_right, Joint.view] at hleft hright
      rw [Piece.clip_append, total_pieces, hleft, hright]
      have hrest : min (count - (min length before - skip))
          (length - before - (skip - min length before)) =
          min count (length - skip) - (before - skip) := by omega
      rw [hrest]
      congr 1
      · congr 1
        omega
      · by_cases hnone : min count (length - skip) - (before - skip) = 0
        · rw [hnone, pieces_zero, pieces_zero]
        · have hstands : position + before + (skip - min length before) =
              position + skip + (before - skip) := by omega
          rw [hstands]

end Block

namespace Ledger

/-- Every child below in sight of `extent` is held by its composition. -/
def Shows (ledger : Ledger) : Block → Extent → Prop
  | .source _ _, _ => True
  | .composed header joint left right, extent =>
      (extent.overlaps (joint.range .left) = true →
        ledger.attached header.number .left = true ∧ ledger.Shows left joint.leftView.extent) ∧
      (extent.overlaps (joint.range .right) = true →
        ledger.attached header.number .right = true ∧ ledger.Shows right joint.rightView.extent)

variable {ledger : Ledger}

theorem Shows.side {header : Header} {joint : Joint} {left right : Block} {extent : Extent}
    (h : ledger.Shows (.composed header joint left right) extent) {side : Side}
    (hoverlap : extent.overlaps (joint.range side) = true) :
    ledger.attached header.number side = true ∧
      ledger.Shows (joint.child left right side).block (joint.view side).extent := by
  cases side with
  | left => exact h.1 hoverlap
  | right => exact h.2 hoverlap

theorem Shows.mono {block : Block} {small large : Extent} (h : ledger.Shows block large)
    (hwithin : small.Within large) : ledger.Shows block small := by
  cases block with
  | source header store => trivial
  | composed header joint left right =>
      exact ⟨fun hoverlap => h.1 (hwithin.overlaps hoverlap),
        fun hoverlap => h.2 (hwithin.overlaps hoverlap)⟩

/-- Whoever is counted keeps all that it sees, at every level below. -/
theorem Balanced.shows {held : List Hold} (h : ledger.Balanced held) (block : Block) :
    ∀ {extent : Extent}, ledger.Counts held ⟨block, extent⟩ →
      ledger.Shows block extent := by
  induction block with
  | source header store => exact fun _ => trivial
  | composed header joint left right ihleft ihright =>
      intro extent hcounts
      constructor
      · intro hoverlap
        obtain ⟨hattached, hchild⟩ := @Counts.child _ _ _ hcounts h .left hoverlap _ rfl
        exact ⟨hattached, ihleft hchild⟩
      · intro hoverlap
        obtain ⟨hattached, hchild⟩ := @Counts.child _ _ _ hcounts h .right hoverlap _ rfl
        exact ⟨hattached, ihright hchild⟩

end Ledger

namespace Backend

variable {σ : Type} [Store σ]

/-- Fill the pieces one after another, until one fails. -/
def fillAll (backend : Backend σ) : List Piece → Gathered × Backend σ
  | [] => (⟨[], none⟩, backend)
  | piece :: pieces =>
      andThen (backend.fill piece.store piece.start piece.length) fun backend =>
        backend.fillAll pieces

theorem fillAll_append (pieces more : List Piece) (backend : Backend σ) :
    backend.fillAll (pieces ++ more) =
      andThen (backend.fillAll pieces) fun backend => backend.fillAll more := by
  induction pieces generalizing backend with
  | nil => rw [List.nil_append, fillAll, nothing_andThen]
  | cons piece pieces ih =>
      rw [List.cons_append, fillAll, fillAll, andThen_assoc]
      congr 1
      funext backend
      exact ih backend

/-- A side of a composition is read through the pieces of its child, as long as the composition
still holds the child where it is in sight. -/
theorem side_pieces {ledger : Ledger} {header : Header} {joint : Joint} {left right : Block}
    (hsound : (Block.composed header joint left right).Sound) (side : Side) (needed : Prop)
    [Decidable needed] (backend : Backend σ) {position length : Nat}
    (hneeded : needed ↔ 0 < length) (hstart : needed → (joint.range side).start ≤ position)
    (hstop : needed → position + length ≤ (joint.range side).stop)
    (hshown : needed → ledger.attached header.number side = true ∧
      ledger.Shows (joint.child left right side).block (joint.view side).extent)
    (hchild : ∀ inner, 0 < length →
      ledger.Shows (joint.child left right side).block ⟨inner, inner + length⟩ →
      (joint.child left right side).block.Covers ⟨inner, inner + length⟩ →
      backend.collect ledger (joint.child left right side).block inner length =
        backend.fillAll ((joint.child left right side).block.pieces inner length)) :
    (if needed then backend.collectThrough ledger header.number side (joint.child left right side)
        position length
      else (⟨[], none⟩, backend)) =
      backend.fillAll ((joint.child left right side).block.pieces
        ((joint.view side).shift.inner position) length) := by
  by_cases hpart : needed
  · obtain ⟨hinner, hwithin, hcovers⟩ := hsound.side (hstart hpart) (hstop hpart)
    obtain ⟨hattached, hshows⟩ := hshown hpart
    have hlocate : (joint.child left right side).locate position length =
        .ok ((joint.view side).shift.inner position) := by
      have hplaced := (Cursor.child_sound hsound side).placed.view
      rw [Joint.view_child] at hplaced
      have hlast := hwithin.2
      simp only [View.extent] at hlast
      simp only [Cursor.locate, Joint.view_child, hplaced.inner?_eq_some hinner (by omega)]
      rw [if_pos ⟨hwithin.1, hlast⟩]
    rw [if_pos hpart, collectThrough, throughChild, if_pos hattached, hlocate]
    exact hchild _ (hneeded.mp hpart) (hshows.mono hwithin) hcovers
  · have hnone : length = 0 := Nat.eq_zero_of_not_pos fun h => hpart (hneeded.mpr h)
    rw [if_neg hpart, hnone, Block.pieces_zero, fillAll]

/-- A range in sight is read by filling its pieces. -/
theorem collect_pieces {ledger : Ledger} (block : Block) : ∀ (backend : Backend σ)
    (position : Nat) {length : Nat}, block.Sound → 0 < length →
    ledger.Shows block ⟨position, position + length⟩ →
    block.Covers ⟨position, position + length⟩ →
    backend.collect ledger block position length =
      backend.fillAll (block.pieces position length) := by
  induction block with
  | source header store =>
      intro backend position length _ hlength _ _
      simp [collect, Block.pieces_source header store position hlength, fillAll]
  | composed header joint left right ihleft ihright =>
      intro backend position length hsound hlength hshows hcovers
      obtain ⟨hstart, hstop⟩ := hcovers
      simp only [Joint.whole] at hstart hstop
      have hshown : ∀ side, (joint.range side).start < position + length →
          position < (joint.range side).stop →
            (joint.range side).start < (joint.range side).stop →
          ledger.attached header.number side = true ∧
            ledger.Shows (joint.child left right side).block (joint.view side).extent := by
        intro side hbefore hafter hrange
        apply hshows.side
        rw [Extent.overlaps_iff]
        dsimp only
        omega
      rw [collect_composed, Block.pieces, fillAll_append]
      congr 1
      · refine side_pieces hsound .left _ backend ?_ ?_ ?_ ?_ ?_
        · omega
        · exact fun _ => hstart
        · intro _
          simp only [Joint.range]
          omega
        · intro hneeded
          apply hshown .left <;> simp only [Joint.range] <;> omega
        · exact fun inner hpart => ihleft backend inner hsound.1 hpart
      · funext after
        refine side_pieces hsound .right _ after ?_ ?_ ?_ ?_ ?_
        · omega
        · intro _
          simp only [Joint.range]
          omega
        · intro _
          simp only [Joint.range]
          omega
        · intro hneeded
          apply hshown .right <;> simp only [Joint.range] <;> omega
        · exact fun inner hpart => ihright after inner hsound.2.1 hpart

end Backend

end SharedStream
