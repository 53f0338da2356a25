import SharedStream.Cursor.Making
import SharedStream.Cursor.Moving
import SharedStream.Cursor.Reading
/-!
Where cursors may stand. A view is *placed* if its positions are in order and all their outer names
are words within the block's limit, so that no name is ever capped. A block is *sound* if its
children are placed and their outer names fill the two ranges of the joint without gap or overlap.
Every operation on a view keeps it placed and never widens its extent; a concatenation is sound
because the tail is cloned at the very position where the head stops.
-/

namespace SharedStream

namespace Extent

/-- All of `e` lies in `f`. -/
def Within (e f : Extent) : Prop := f.start ≤ e.start ∧ e.stop ≤ f.stop

theorem Within.refl (e : Extent) : e.Within e := ⟨Nat.le_refl _, Nat.le_refl _⟩

theorem Within.of_eq {e f : Extent} (h : e = f) : e.Within f := h ▸ Within.refl e

theorem Within.trans {e f g : Extent} (hef : e.Within f) (hfg : f.Within g) : e.Within g :=
  ⟨Nat.le_trans hfg.1 hef.1, Nat.le_trans hef.2 hfg.2⟩

theorem Within.overlaps {e f range : Extent} (hwithin : e.Within f)
    (hoverlap : e.overlaps range = true) : f.overlaps range = true := by
  obtain ⟨hstart, hstop⟩ := hwithin
  rw [overlaps_iff] at hoverlap ⊢
  omega

end Extent

namespace View

/-- The positions of a view are in order, and their outer names are words up to `limit`. -/
structure Placed (view : View) (limit : Nat) : Prop where
  first_le : view.first ≤ view.current
  current_le : view.current ≤ view.stop
  stop_le : view.stop ≤ maxOffset
  low : 0 ≤ (view.first : Int) + view.shift.amount
  high : (view.stop : Int) + view.shift.amount ≤ limit

namespace Placed

variable {view : View} {limit : Nat}

theorem outer_eq (h : view.Placed limit) (hlimit : limit ≤ maxOffset) {inner : Nat}
    (hfirst : view.first ≤ inner) (hstop : inner ≤ view.stop) :
    (view.shift.outer inner : Int) = inner + view.shift.amount := by
  have hlow := h.low
  have hhigh := h.high
  exact Shift.outer_eq view.shift inner (by omega) (by omega)

theorem firstPosition_eq (h : view.Placed limit) (hlimit : limit ≤ maxOffset) :
    (view.firstPosition : Int) = view.first + view.shift.amount :=
  h.outer_eq hlimit (Nat.le_refl _) (Nat.le_trans h.first_le h.current_le)

theorem position_eq (h : view.Placed limit) (hlimit : limit ≤ maxOffset) :
    (view.position : Int) = view.current + view.shift.amount :=
  h.outer_eq hlimit h.first_le h.current_le

theorem stopPosition_eq (h : view.Placed limit) (hlimit : limit ≤ maxOffset) :
    (view.stopPosition : Int) = view.stop + view.shift.amount :=
  h.outer_eq hlimit (Nat.le_trans h.first_le h.current_le) (Nat.le_refl _)

/-- An outer position between the first and the last one names the inner position that lies as far
from the first. -/
theorem inner?_eq_some (h : view.Placed limit) {outer inner : Nat}
    (heq : (inner : Int) + view.shift.amount = outer) (hstop : inner ≤ view.stop) :
    view.shift.inner? outer = some inner :=
  (Shift.inner?_eq_some_iff view.shift outer inner).mpr ⟨heq, Nat.le_trans hstop h.stop_le⟩

end Placed

theorem whole_placed {length limit : Nat} (hlength : length ≤ limit)
    (hlimit : limit ≤ maxOffset) : (whole length).Placed limit where
  first_le := Nat.le_refl _
  current_le := Nat.zero_le _
  stop_le := Nat.le_trans hlength hlimit
  low := by simp [whole, Shift.zero]
  high := by simpa [whole, Shift.zero] using hlength

variable {view next : View} {limit : Nat} {fault : Fault}

/-- Moving changes the current position only, and keeps it in bounds. -/
theorem seek_ok {position : Nat} (hseek : view.seek position = .ok next) :
    ∃ inner, view.shift.inner? position = some inner ∧ view.first ≤ inner ∧
      inner ≤ view.stop ∧ next = { view with current := inner } := by
  unfold seek at hseek
  split at hseek
  · rename_i inner hinner
    split at hseek
    · rename_i hbounds
      exact ⟨inner, hinner, hbounds.1, hbounds.2, (Except.ok.inj hseek).symm⟩
    · cases hseek
  · cases hseek

theorem seek_error {position : Nat} (hseek : view.seek position = .error fault) :
    fault = .outsideView position view.firstPosition view.stopPosition := by
  unfold seek at hseek
  split at hseek
  · split at hseek
    · cases hseek
    · exact (Except.error.inj hseek).symm
  · exact (Except.error.inj hseek).symm

theorem reset_error (hreset : view.reset = .error fault) : fault = .everythingReleased := by
  unfold reset at hreset
  split at hreset
  · exact (Except.error.inj hreset).symm
  · cases hreset

theorem Placed.standing (h : view.Placed limit) {inner : Nat} (hfirst : view.first ≤ inner)
    (hstop : inner ≤ view.stop) : Placed { view with current := inner } limit :=
  ⟨hfirst, hstop, h.stop_le, h.low, h.high⟩

theorem Placed.seek {position : Nat} (h : view.Placed limit)
    (hseek : view.seek position = .ok next) : next.Placed limit ∧ next.extent = view.extent := by
  obtain ⟨inner, _, hfirst, hstop, rfl⟩ := seek_ok hseek
  exact ⟨h.standing hfirst hstop, rfl⟩

theorem Placed.reset (h : view.Placed limit) (hreset : view.reset = .ok next) :
    next.Placed limit ∧ next.extent = view.extent := by
  unfold View.reset at hreset
  split at hreset
  · cases hreset
  · cases hreset
    exact ⟨h.standing (Nat.le_refl _) (Nat.le_trans h.first_le h.current_le), rfl⟩

theorem firstKept_ok {position first : Nat} (hkept : view.firstKept position = .ok first) :
    ∃ inner, view.shift.inner? position = some inner ∧ view.first ≤ inner ∧
      inner < view.current ∧ first = inner + 1 := by
  unfold firstKept at hkept
  split at hkept
  · rename_i inner hinner
    split at hkept
    · rename_i hpassed
      split at hkept
      · cases hkept
      · rename_i hkeeps
        exact ⟨inner, hinner, by omega, hpassed, (Except.ok.inj hkept).symm⟩
    · cases hkept
  · cases hkept

/-- A release is refused for want of a byte to give up, or because of one that is gone. -/
theorem firstKept_error {position : Nat} (hkept : view.firstKept position = .error fault) :
    fault = .notPassed position view.position ∨
      fault = .alreadyReleased position ∧ (position : Int) < view.first + view.shift.amount := by
  unfold firstKept at hkept
  split at hkept
  · rename_i inner hinner
    obtain ⟨hname, -⟩ := (Shift.inner?_eq_some_iff ..).mp hinner
    split at hkept
    · split at hkept
      · exact Or.inr ⟨(Except.error.inj hkept).symm, by omega⟩
      · cases hkept
    · exact Or.inl (Except.error.inj hkept).symm
  · exact Or.inl (Except.error.inj hkept).symm

/-- Giving up bytes before the current one narrows the view from the left. -/
theorem Placed.release {position first : Nat} (h : view.Placed limit)
    (hkept : view.firstKept position = .ok first) :
    Placed { view with first } limit ∧ Extent.Within ⟨first, view.stop⟩ view.extent := by
  obtain ⟨inner, _, hfirst, hpassed, rfl⟩ := firstKept_ok hkept
  have hlow := h.low
  exact ⟨⟨hpassed, h.current_le, h.stop_le, by dsimp only; omega, h.high⟩,
    ⟨by dsimp only [extent]; omega, Nat.le_refl _⟩⟩

theorem cloneAt_ok {offset : Nat} (hclone : view.cloneAt limit offset = .ok next) :
    offset + view.remaining ≤ limit ∧
      next = ⟨.placing view.current offset, view.current, view.current, view.stop⟩ := by
  unfold cloneAt at hclone
  split at hclone
  · rename_i hfits
    exact ⟨hfits, (Except.ok.inj hclone).symm⟩
  · cases hclone

theorem cloneAt_error {offset : Nat} (hclone : view.cloneAt limit offset = .error fault) :
    fault = .cloneOverflow offset view.remaining limit ∧ limit < offset + view.remaining := by
  unfold cloneAt at hclone
  split at hclone
  · cases hclone
  · rename_i hover
    exact ⟨(Except.error.inj hclone).symm, Nat.lt_of_not_le hover⟩

theorem Placed.cloneAt {offset : Nat} (h : view.Placed limit)
    (hclone : view.cloneAt limit offset = .ok next) :
    next.Placed limit ∧ next.extent.Within view.extent := by
  obtain ⟨hfits, rfl⟩ := cloneAt_ok hclone
  have hcurrent := h.current_le
  simp only [remaining] at hfits
  refine ⟨⟨Nat.le_refl _, hcurrent, h.stop_le, ?_, ?_⟩, ⟨h.first_le, Nat.le_refl _⟩⟩
  · simp only [Shift.placing]
    omega
  · simp only [Shift.placing]
    omega

theorem truncate_ok {stop : Nat} (hcut : view.truncate stop = .ok next) :
    view.current ≤ stop ∧ stop ≤ view.stop ∧ next = { view with stop } := by
  unfold truncate at hcut
  split at hcut
  · rename_i hbounds
    exact ⟨hbounds.1, hbounds.2, (Except.ok.inj hcut).symm⟩
  · cases hcut

theorem Placed.truncate {stop : Nat} (h : view.Placed limit)
    (hcut : view.truncate stop = .ok next) :
    next.Placed limit ∧ next.extent.Within view.extent := by
  obtain ⟨hcurrent, hstop, rfl⟩ := truncate_ok hcut
  have hmax := h.stop_le
  have hhigh := h.high
  exact ⟨⟨h.first_le, hcurrent, by dsimp only; omega, h.low, by dsimp only; omega⟩,
    ⟨Nat.le_refl _, hstop⟩⟩

end View

namespace Block

/-- An extent lies in the positions of a composition. The positions of a store's block are judged
where its bytes are. -/
def Covers : Block → Extent → Prop
  | source _ _, _ => True
  | composed _ joint _ _, extent => extent.Within joint.whole

theorem Covers.mono {block : Block} {small large : Extent} (h : block.Covers large)
    (hwithin : small.Within large) : block.Covers small := by
  cases block with
  | source header store => trivial
  | composed header joint left right => exact hwithin.trans h

end Block

/-- A cursor stands in its block, with names within the limit. -/
structure Cursor.Placed (cursor : Cursor) : Prop where
  view : cursor.view.Placed cursor.block.settings.limit
  covered : cursor.block.Covers cursor.extent

/-- The outer names of the left child fill the range up to the boundary, those of the right child
the range after it. -/
structure Joint.Tiled (joint : Joint) : Prop where
  left_first : (joint.leftView.first : Int) + joint.leftView.shift.amount = joint.start
  left_stop : (joint.leftView.stop : Int) + joint.leftView.shift.amount = joint.boundary
  right_first : (joint.rightView.first : Int) + joint.rightView.shift.amount = joint.boundary
  right_stop : (joint.rightView.stop : Int) + joint.rightView.shift.amount = joint.stop

/-- In every composition below, the children are placed and tile it, and its positions stay within
its limit, which is that of the left child. -/
def Block.Sound : Block → Prop
  | .source _ _ => True
  | .composed header joint left right =>
      left.Sound ∧ right.Sound ∧ (joint.child left right .left).Placed ∧
        (joint.child left right .right).Placed ∧ joint.Tiled ∧
        joint.stop ≤ header.settings.limit ∧ header.settings = left.settings

/-- A cursor that is placed on a sound block. -/
structure Cursor.Sound (cursor : Cursor) : Prop where
  block : cursor.block.Sound
  placed : cursor.Placed

namespace Cursor

variable {cursor : Cursor}

theorem Sound.limit_le (_h : cursor.Sound) : cursor.block.settings.limit ≤ maxOffset :=
  cursor.block.settings.limit_le

theorem Sound.withView (h : cursor.Sound) {view : View}
    (hplaced : view.Placed cursor.block.settings.limit)
    (hwithin : view.extent.Within cursor.extent) : (cursor.withView view).Sound where
  block := h.block
  placed := ⟨hplaced, h.placed.covered.mono hwithin⟩

theorem child_sound {header : Header} {joint : Joint} {left right : Block}
    (h : (Block.composed header joint left right).Sound) (side : Side) :
    (joint.child left right side).Sound := by
  obtain ⟨hleft, hright, hleftPlaced, hrightPlaced, _⟩ := h
  cases side with
  | left => exact ⟨hleft, hleftPlaced⟩
  | right => exact ⟨hright, hrightPlaced⟩

theorem position_add_remaining (h : cursor.Sound) :
    cursor.position + cursor.remaining = cursor.view.stopPosition := by
  have hposition := h.placed.view.position_eq h.limit_le
  have hstop := h.placed.view.stopPosition_eq h.limit_le
  have hcurrent := h.placed.view.current_le
  simp only [position, remaining, View.remaining]
  omega

theorem firstPosition_le_position (h : cursor.Sound) :
    cursor.view.firstPosition ≤ cursor.position := by
  have hfirst := h.placed.view.firstPosition_eq h.limit_le
  have hposition := h.placed.view.position_eq h.limit_le
  have hle := h.placed.view.first_le
  simp only [position]
  omega

/-- A sound head and a clone of the rest of a sound cursor, placed where the head stops, join to a
sound cursor that stands where the head stood. -/
theorem join_sound {head tail : Cursor} {header : Header} (hhead : head.Sound) (htail : tail.Sound)
    {stop : Nat} (hfirst : (tail.view.first : Int) + tail.view.shift.amount =
      head.view.stopPosition)
    (hstop : (tail.view.stop : Int) + tail.view.shift.amount = stop)
    (hsettings : header.settings = head.block.settings)
    (hlimit : stop ≤ head.block.settings.limit) :
    let joint : Joint :=
      ⟨head.view.firstPosition, head.view.stopPosition, stop, head.view, tail.view⟩
    Cursor.Sound ⟨.composed header joint head.block tail.block,
      ⟨.zero, joint.start, head.position, joint.stop⟩⟩ := by
  intro joint
  have hheadFirst := hhead.placed.view.firstPosition_eq hhead.limit_le
  have hheadStop := hhead.placed.view.stopPosition_eq hhead.limit_le
  have htailOrder := Nat.le_trans htail.placed.view.first_le htail.placed.view.current_le
  have hposition := firstPosition_le_position hhead
  have hend := position_add_remaining hhead
  have hmax := hhead.limit_le
  have htiled : joint.Tiled := ⟨hheadFirst.symm, hheadStop.symm, hfirst, hstop⟩
  have hblock : (Block.composed header joint head.block tail.block).Sound :=
    ⟨hhead.block, htail.block, hhead.placed, htail.placed, htiled,
      by rw [hsettings]; exact hlimit, hsettings⟩
  refine ⟨hblock, ⟨?_, ⟨Nat.le_refl _, Nat.le_refl _⟩⟩⟩
  refine ⟨hposition, ?_, ?_, ?_, ?_⟩
  · dsimp only [joint]
    omega
  · dsimp only [joint]
    omega
  · simp [Shift.zero]
  · change (stop : Int) + 0 ≤ header.settings.limit
    rw [hsettings]
    omega

end Cursor

end SharedStream
