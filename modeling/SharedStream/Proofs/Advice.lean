import SharedStream.Proofs.Flattening
import SharedStream.Proofs.Upkeep
/-!
What the stores hear of a release. The hints walk down a list of pending ranges; on the tree, they
come to the leaves of the released range from left to right, and each store that wants hints hears
the last byte of its own piece. The walk never meets a range that it cannot name, nor a child that
is gone. What the stores say to it is noted and otherwise ignored: needs, slots and holders change
as they would over any other stores.
-/

namespace SharedStream

/-- A piece of a store, with the settings of the block over that store. -/
structure Leaf where
  settings : Settings
  piece : Piece
deriving DecidableEq

/-- The last position of a piece, as its store counts. -/
def Piece.last (piece : Piece) : Nat := piece.start + piece.length - 1

/-- What the store of a leaf hears when the leaf is released, if it wants to hear anything. -/
def Leaf.hint? (leaf : Leaf) : Option Event :=
  if leaf.settings.hints then some (.storeHinted leaf.piece.store.number leaf.piece.last) else none

def Event.isHint : Event → Bool
  | storeHinted _ _ => true
  | _ => false

namespace Block

/-- The leaves of the `length` bytes of a block from an inner position on. -/
def leaves : Block → (position length : Nat) → List Leaf
  | source header store, position, length =>
      if length = 0 then [] else [⟨header.settings, ⟨store, position, length⟩⟩]
  | composed _ joint left right, position, length =>
      left.leaves (joint.leftView.shift.inner position)
          (min (position + length) joint.boundary - position) ++
        right.leaves (joint.rightView.shift.inner (max position joint.boundary))
          (position + length - max position joint.boundary)

/-- Leaves are pieces with settings. -/
theorem map_leaves (block : Block) (position length : Nat) :
    (block.leaves position length).map Leaf.piece = block.pieces position length := by
  induction block generalizing position length with
  | source header store =>
      simp only [leaves, pieces]
      split <;> rfl
  | composed header joint left right ihleft ihright =>
      rw [leaves, pieces, List.map_append, ihleft, ihright]

@[simp] theorem leaves_zero (block : Block) (position : Nat) : block.leaves position 0 = [] := by
  have hnone := block.map_leaves position 0
  rw [pieces_zero] at hnone
  exact List.map_eq_nil_iff.mp hnone

end Block

/-- The walk of the hints goes through: every range that comes up has a name inside its child, and
every child that overlaps it is still held. -/
inductive Ledger.Forwards (ledger : Ledger) : List (Cursor × Extent) → Prop where
  | done : Forwards ledger []
  | source {header : Header} {store : StoreRef} {view : View} {range : Extent}
      {ranges : List (Cursor × Extent)} {start stop : Nat}
      (hstart : view.shift.inner? range.start = some start)
      (hstop : view.shift.inner? range.stop = some stop) (hrest : Forwards ledger ranges) :
      Forwards ledger ((⟨.source header store, view⟩, range) :: ranges)
  | composed {header : Header} {joint : Joint} {left right : Block} {view : View} {range : Extent}
      {ranges : List (Cursor × Extent)} {start stop : Nat}
      (hstart : view.shift.inner? range.start = some start)
      (hstop : view.shift.inner? range.stop = some stop)
      (hheld : ∀ side, Extent.overlaps ⟨start, stop⟩ (joint.range side) = true →
        ledger.attached header.number side = true)
      (hrest : Forwards ledger
        (ledger.releasedParts header.number joint left right ⟨start, stop⟩ ++ ranges)) :
      Forwards ledger ((⟨.composed header joint left right, view⟩, range) :: ranges)

variable {σ : Type} [Store σ]

/-- Tell leaves that they are released, one after another. -/
def Backend.adviseLeaves (backend : Backend σ) (leaves : List Leaf) : Backend σ :=
  leaves.foldl (fun backend leaf =>
    backend.advise leaf.settings leaf.piece.store leaf.piece.last) backend

/-- From `ranges` the walk comes to `rest`, and on the way tells these leaves. -/
structure Ledger.Walks (σ : Type) [Store σ] (ledger : Ledger)
    (ranges rest : List (Cursor × Extent)) (leaves : List Leaf) : Prop where
  forwards : ledger.Forwards rest → ledger.Forwards ranges
  told : ∀ backend : Backend σ,
    backend.adviseAll ledger ranges = (backend.adviseLeaves leaves).adviseAll ledger rest

namespace Ledger

variable {ledger : Ledger}

theorem Walks.refl (ranges : List (Cursor × Extent)) : ledger.Walks σ ranges ranges [] :=
  ⟨id, fun _ => rfl⟩

theorem Walks.trans {ranges middle rest : List (Cursor × Extent)} {leaves more : List Leaf}
    (hfirst : ledger.Walks σ ranges middle leaves) (hsecond : ledger.Walks σ middle rest more) :
    ledger.Walks σ ranges rest (leaves ++ more) where
  forwards h := hfirst.forwards (hsecond.forwards h)
  told backend := by
    rw [hfirst.told, hsecond.told, Backend.adviseLeaves, Backend.adviseLeaves,
      Backend.adviseLeaves, List.foldl_append]

/-- A range in sight is walked by telling its leaves. -/
def WalksThrough (σ : Type) [Store σ] (ledger : Ledger) (block : Block) : Prop :=
  ∀ {view : View} {range : Extent} {start length : Nat} (rest : List (Cursor × Extent)),
    view.shift.inner? range.start = some start →
    view.shift.inner? range.stop = some (start + length) → 0 < length → block.Sound →
    block.Covers ⟨start, start + length⟩ → ledger.Shows block ⟨start, start + length⟩ →
    ledger.Walks σ ((⟨block, view⟩, range) :: rest) rest (block.leaves start length)

/-- The part of a released range that falls to one side. -/
theorem part_walks {header : Header} {joint : Joint} {left right : Block} {released : Extent}
    (hsound : (Block.composed header joint left right).Sound)
    (hpos : released.start < released.stop)
    (hshows : ledger.Shows (.composed header joint left right) released) (side : Side)
    (hchild : ledger.WalksThrough σ (joint.child left right side).block)
    (rest : List (Cursor × Extent)) :
    ledger.Walks σ
      (ledger.releasedPart header.number joint released side (joint.child left right side) ++ rest)
      rest
      ((joint.child left right side).block.leaves
        ((joint.view side).shift.inner (released.meet (joint.range side)).start)
        ((released.meet (joint.range side)).stop - (released.meet (joint.range side)).start)) := by
  unfold releasedPart
  cases hoverlap : released.overlaps (joint.range side) with
  | false =>
      -- a side out of sight queues no part, and the empty range has no leaves
      have hapart : ¬ (released.overlaps (joint.range side) = true) := by rw [hoverlap]; decide
      rw [Extent.overlaps_iff] at hapart
      have hnone : (released.meet (joint.range side)).stop -
          (released.meet (joint.range side)).start = 0 := by
        simp only [Extent.meet]
        omega
      have hstay : ledger.Walks σ rest rest [] := .refl rest
      simpa [hnone] using hstay
  | true =>
      obtain ⟨hattached, hseen⟩ := hshows.side hoverlap
      have hplaced := (Cursor.child_sound hsound side).placed.view
      rw [Joint.view_child] at hplaced
      rw [Extent.overlaps_iff] at hoverlap
      generalize hmeet : released.meet (joint.range side) = shared
      have hstart : (joint.range side).start ≤ shared.start ∧ shared.start < shared.stop ∧
          shared.stop ≤ (joint.range side).stop := by
        subst hmeet
        simp only [Extent.meet]
        omega
      obtain ⟨hinner, hwithin, hcovers⟩ := @Block.Sound.side header joint left right hsound side
        shared.start (shared.stop - shared.start) hstart.1 (by omega)
      have hlast := hwithin.2
      simp only [View.extent] at hlast
      simp only [hattached, Bool.and_self, if_true, List.singleton_append]
      have hwalk := @hchild (joint.view side) shared _ _ rest
        (hplaced.inner?_eq_some hinner (by omega)) (hplaced.inner?_eq_some (by omega) hlast)
        (by omega) (Cursor.child_sound hsound side).block hcovers (hseen.mono hwithin)
      cases side <;> exact hwalk

/-- The parts of a released range, the left one first. -/
theorem parts_walk {header : Header} {joint : Joint} {left right : Block}
    (ihleft : ledger.WalksThrough σ left) (ihright : ledger.WalksThrough σ right)
    {start length : Nat} (hpos : 0 < length)
    (hsound : (Block.composed header joint left right).Sound)
    (hcovers : (Block.composed header joint left right).Covers ⟨start, start + length⟩)
    (hshows : ledger.Shows (.composed header joint left right) ⟨start, start + length⟩)
    (rest : List (Cursor × Extent)) :
    ledger.Walks σ
      (ledger.releasedParts header.number joint left right ⟨start, start + length⟩ ++ rest) rest
      ((Block.composed header joint left right).leaves start length) := by
  obtain ⟨hlow, hhigh⟩ := hcovers
  simp only [Joint.whole] at hlow hhigh
  have hlong : (⟨start, start + length⟩ : Extent).start <
      (⟨start, start + length⟩ : Extent).stop := by
    dsimp only
    omega
  have hleft := part_walks hsound hlong hshows .left ihleft
    (ledger.releasedPart header.number joint ⟨start, start + length⟩ .right
      (joint.child left right .right) ++ rest)
  have hright := part_walks hsound hlong hshows .right ihright rest
  have hboth := hleft.trans hright
  rw [← List.append_assoc] at hboth
  simp only [Extent.meet, Joint.range, Joint.view, Joint.block_child_left,
    Joint.block_child_right, Nat.max_eq_left hlow, Nat.min_eq_left hhigh] at hboth
  exact hboth

theorem range_walks (block : Block) : ledger.WalksThrough σ block := by
  induction block with
  | source header store =>
      intro view range start length rest hstart hstop hpos _ _ _
      refine ⟨.source hstart hstop, fun backend => ?_⟩
      rw [Backend.adviseAll]
      simp only [hstart, hstop, Block.leaves, Nat.ne_of_gt hpos, if_false]
      rfl
  | composed header joint left right ihleft ihright =>
      intro view range start length rest hstart hstop hpos hsound hcovers hshows
      have hopen : ledger.Walks σ ((⟨.composed header joint left right, view⟩, range) :: rest)
          (ledger.releasedParts header.number joint left right ⟨start, start + length⟩ ++ rest)
          [] := by
        refine ⟨.composed hstart hstop fun side hoverlap => (hshows.side hoverlap).1,
          fun backend => ?_⟩
        rw [Backend.adviseAll]
        simp only [hstart, hstop]
        rfl
      exact hopen.trans (parts_walk ihleft ihright hpos hsound hcovers hshows rest)

end Ledger

namespace Pool

/-- The walk below a block, from the top. -/
def Forwards (pool : Pool σ) (block : Block) (released : Extent) : Prop :=
  match block with
  | .source _ _ => True
  | .composed header joint left right =>
      (∀ side, released.overlaps (joint.range side) = true →
        pool.ledger.attached header.number side = true) ∧
      pool.ledger.Forwards (pool.ledger.releasedParts header.number joint left right released)

/-- The stores below a block hear of a released range leaf by leaf. -/
theorem adviseBelow_leaves {pool : Pool σ} {block : Block} {start length : Nat}
    (hpos : 0 < length) (hsound : block.Sound) (hcovers : block.Covers ⟨start, start + length⟩)
    (hshows : pool.ledger.Shows block ⟨start, start + length⟩) :
    pool.Forwards block ⟨start, start + length⟩ ∧
      pool.adviseBelow block ⟨start, start + length⟩ =
        { pool with backend := pool.backend.adviseLeaves (block.leaves start length) } := by
  cases block with
  | source header store =>
      refine ⟨trivial, ?_⟩
      simp only [adviseBelow, Block.leaves, Nat.ne_of_gt hpos, if_false]
      rfl
  | composed header joint left right =>
      have hwalk : pool.ledger.Walks σ _ [] _ := Ledger.parts_walk (Ledger.range_walks left)
        (Ledger.range_walks right) hpos hsound hcovers hshows []
      rw [List.append_nil] at hwalk
      refine ⟨⟨fun side hoverlap => (hshows.side hoverlap).1, hwalk.forwards .done⟩, ?_⟩
      rw [adviseBelow, hwalk.told, Backend.adviseAll]

/-- The pieces under a block that was ever made lie in stores that were taken in. -/
theorem Kept.stored {past pool : Pool σ} {held : List Hold} (h : past.Kept pool held)
    (block : Block) : pool.ledger.Knows block → ∀ {position length : Nat} {piece : Piece},
    piece ∈ block.pieces position length → piece.store.number < pool.backend.stores.size := by
  induction block with
  | source header store =>
      rintro ⟨page, hpage, hblock⟩ position length piece hmem
      simp only [Block.pieces] at hmem
      split at hmem
      · cases hmem
      · obtain rfl := List.mem_singleton.mp hmem
        exact h.told.owned (Ledger.block?_of_page hpage) (by rw [hblock]; rfl)
  | composed header joint left right ihleft ihright =>
      rintro ⟨page, hpage, hblock⟩ position length piece hmem
      have hchild : ∀ side, pool.ledger.Knows (joint.child left right side).block := by
        intro side
        have hside : page.block.child? side = some (joint.child left right side) := by
          rw [hblock]
          rfl
        exact (h.balanced.rooted hpage hside).1
      rw [Block.pieces] at hmem
      rcases List.mem_append.mp hmem with hleft | hright
      · exact ihleft (hchild .left) hleft
      · exact ihright (hchild .right) hright

end Pool

namespace Backend

/-- Telling leaves writes their hints in order, and otherwise only what the stores say to them. -/
theorem adviseLeaves_told (leaves : List Leaf) (backend : Backend σ)
    (hstored : ∀ leaf ∈ leaves, leaf.piece.store.number < backend.stores.size) :
    ∃ told, (backend.adviseLeaves leaves).journal.toList = backend.journal.toList ++ told ∧
      (∀ event ∈ told, event.isAdvice = true) ∧
      told.filter Event.isHint = leaves.filterMap Leaf.hint? := by
  induction leaves generalizing backend with
  | nil => exact ⟨[], by simp [adviseLeaves], by simp, rfl⟩
  | cons leaf leaves ih =>
      let after := backend.advise leaf.settings leaf.piece.store leaf.piece.last
      have hafter := backend.advise_advises leaf.settings leaf.piece.store leaf.piece.last
      obtain ⟨events, hjournal, hevents⟩ := hafter.journal
      have hhints : events.filter Event.isHint = leaf.hint?.toList := by
        have hlt := hstored leaf (List.mem_cons_self ..)
        unfold Leaf.hint?
        cases hwants : leaf.settings.hints with
        | false =>
            have hnone : events = [] := by
              simpa [advise, hwants] using hjournal
            simp [hnone]
        | true =>
            have hhint : (backend.hint leaf.piece.store leaf.piece.last).2.journal.toList =
                backend.journal.toList ++
                  [.storeHinted leaf.piece.store.number leaf.piece.last] := by
              simp [hint, Array.getElem?_eq_getElem hlt]
            simp only [advise, hwants, if_true] at hjournal
            split at hjournal
            · rename_i hanswer
              rw [hanswer] at hhint
              rw [← List.append_cancel_left (hhint.symm.trans hjournal)]
              rfl
            · rename_i hanswer
              rw [hanswer] at hhint
              dsimp only at hhint
              simp only [log, Array.toList_push, hhint, List.append_assoc] at hjournal
              rw [← List.append_cancel_left hjournal]
              rfl
      obtain ⟨told, htold, hadvice, hnamed⟩ := ih after fun other hmem => by
        rw [hafter.size]
        exact hstored other (List.mem_cons_of_mem _ hmem)
      refine ⟨events ++ told, ?_, ?_, ?_⟩
      · rw [← List.append_assoc, ← hjournal]
        exact htold
      · intro event hmem
        rcases List.mem_append.mp hmem with hmem | hmem
        · exact hevents event hmem
        · exact hadvice event hmem
      · rw [List.filter_append, hhints, hnamed]
        cases hhint : leaf.hint? <;> simp [hhint]

end Backend

end SharedStream
