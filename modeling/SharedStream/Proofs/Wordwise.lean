import SharedStream.Proofs.Words
import SharedStream.Proofs.Worlds
/-!
Words are enough. The windows of sound cursors end at words, under their inner and their outer
names, so every sum that an operation makes of positions and lengths is one of a position in a
window and a length that does not lead out of it. On words, the operations therefore never stop, and
come to the same as without a bound, in every reachable world and at every level of a composition.
-/

namespace SharedStream

theorem Shift.outer?_eq (shift : Shift) {inner : Nat} (hlow : 0 ≤ (inner : Int) + shift.amount)
    (hhigh : (inner : Int) + shift.amount ≤ maxOffset) :
    shift.outer? inner = some (shift.outer inner) := by
  simp only [outer?, outer, hlow, hhigh, and_self, if_true]

namespace View.Placed

variable {view : View} {limit : Nat}

theorem outer?_eq (h : view.Placed limit) (hlimit : limit ≤ maxOffset) {inner : Nat}
    (hfirst : view.first ≤ inner) (hstop : inner ≤ view.stop) :
    view.shift.outer? inner = some (view.shift.outer inner) := by
  have hlow := h.low
  have hhigh := h.high
  exact view.shift.outer?_eq (by omega) (by omega)

theorem remaining?_eq (h : view.Placed limit) : view.remaining? = some view.remaining :=
  Word.sub?_eq h.current_le

theorem position?_eq (h : view.Placed limit) (hlimit : limit ≤ maxOffset) :
    view.position? = some view.position :=
  h.outer?_eq hlimit h.first_le h.current_le

theorem firstPosition?_eq (h : view.Placed limit) (hlimit : limit ≤ maxOffset) :
    view.firstPosition? = some view.firstPosition :=
  h.outer?_eq hlimit (Nat.le_refl _) (Nat.le_trans h.first_le h.current_le)

theorem stopPosition?_eq (h : view.Placed limit) (hlimit : limit ≤ maxOffset) :
    view.stopPosition? = some view.stopPosition :=
  h.outer?_eq hlimit (Nat.le_trans h.first_le h.current_le) (Nat.le_refl _)

theorem seek?_eq (h : view.Placed limit) (hlimit : limit ≤ maxOffset) (position : Nat) :
    view.seek? position = some (view.seek position) := by
  simp only [View.seek?, View.seek, refuseSeek?, h.firstPosition?_eq hlimit,
    h.stopPosition?_eq hlimit, Option.bind_eq_bind, Option.bind_some]
  cases view.shift.inner? position with
  | none => rfl
  | some inner =>
      dsimp only
      split <;> rfl

theorem wanted?_eq (h : view.Placed limit) (capacity : Nat) :
    view.wanted? capacity = some (view.wanted capacity) := by
  simp only [View.wanted?, View.wanted, h.remaining?_eq, Option.bind_eq_bind, Option.bind_some]
  split
  · rfl
  · split <;> rfl

/-- The byte that is released is followed by another position of the window. -/
theorem firstKept?_eq (h : view.Placed limit) (hlimit : limit ≤ maxOffset) (position : Nat) :
    view.firstKept? position = some (view.firstKept position) := by
  have hcurrent := h.current_le
  have hword := h.stop_le
  simp only [View.firstKept?, View.firstKept, refuseRelease?, h.position?_eq hlimit,
    Option.bind_eq_bind, Option.bind_some]
  cases view.shift.inner? position with
  | none => rfl
  | some inner =>
      dsimp only
      split
      · rw [Word.add?_eq (by omega)]
        split <;> rfl
      · rfl

theorem cloneAt?_eq (h : view.Placed limit) (bound offset : Nat) :
    view.cloneAt? bound offset = some (view.cloneAt bound offset) := by
  simp only [View.cloneAt?, View.cloneAt, h.remaining?_eq, Option.bind_eq_bind, Option.bind_some]
  split <;> rfl

theorem splitCheck?_eq (h : view.Placed limit) (hlimit : limit ≤ maxOffset) (position : Nat) :
    view.splitCheck? position = some (view.splitCheck position) := by
  simp only [View.splitCheck?, View.splitCheck, h.position?_eq hlimit, h.remaining?_eq,
    Option.bind_eq_bind, Option.bind_some]
  split
  · rfl
  · split
    · rfl
    · split <;> rfl

end View.Placed

theorem Joint.crosses?_eq (joint : Joint) {position length : Nat}
    (hword : position + length ≤ maxOffset) :
    joint.crosses? position length = some (joint.crosses position length) := by
  unfold crosses? crosses
  split
  · rename_i hleft
    simp [Word.add?_eq hword, hleft]
  · rename_i hright
    simp [hright]

namespace Part

/-- The bytes that a part still brings. -/
def length : Part → Nat
  | range _ _ length => length
  | missing _ => 0

/-- A part of something in a window. -/
def Sound : Part → Prop
  | range child _ length => child.Sound ∧ 0 < length
  | missing _ => True

end Part

namespace Ledger

variable {ledger : Ledger} {header : Header} {joint : Joint} {left right : Block}
  {position length : Nat}

theorem part?_eq {number : Nat} {side : Side} {child : Cursor} {needed : Prop} [Decidable needed]
    {start stop : Nat} (hneeded : needed → start < stop) :
    ledger.part? number side child needed start stop =
      some (if needed then [ledger.part number side child start (stop - start)] else []) := by
  unfold part?
  split
  · have hless := hneeded ‹needed›
    rw [Word.sub?_eq (Nat.le_of_lt hless)]
    simp only [Option.bind_eq_bind, Option.bind_some]
    rw [if_pos (by omega)]
  · rfl

theorem parts?_eq (hpos : 0 < length) (hword : position + length ≤ maxOffset) :
    ledger.parts? header.number joint left right position length =
      some (ledger.parts header.number joint left right position length) := by
  unfold parts?
  rw [Word.add?_eq hword]
  simp only [Option.bind_eq_bind, Option.bind_some]
  rw [part?_eq (by omega), part?_eq (by omega)]
  rfl

/-- Only a part with bytes of a child is handed on to it. -/
theorem releasedParts_nonempty {number : Nat} {released : Extent} {part : Cursor × Extent}
    (hmem : part ∈ ledger.releasedParts number joint left right released) :
    part.2.start < part.2.stop := by
  have hpart : ∀ {side : Side} {child : Cursor},
      part ∈ ledger.releasedPart number joint released side child →
        part.2.start < part.2.stop := by
    intro side child hmem
    unfold releasedPart at hmem
    split at hmem
    · rename_i hneeded
      obtain rfl := List.mem_singleton.mp hmem
      have hoverlap := (Extent.overlaps_iff ..).mp (Bool.and_eq_true_iff.mp hneeded).1
      simp only [Extent.meet]
      omega
    · cases hmem
  rcases List.mem_append.mp hmem with hleft | hright
  · exact hpart hleft
  · exact hpart hright

/-- Every part lies with a child of the composition, and all of them bring no more than the range
has. -/
theorem parts_sound (hsound : (Block.composed header joint left right).Sound) (hpos : 0 < length) :
    (∀ part ∈ ledger.parts header.number joint left right position length, part.Sound) ∧
      sumOver Part.length (ledger.parts header.number joint left right position length) ≤
        length := by
  have hpart : ∀ (side : Side) (start length : Nat), 0 < length →
      (ledger.part header.number side (joint.child left right side) start length).Sound ∧
        (ledger.part header.number side (joint.child left right side) start length).length ≤
          length := by
    intro side start length hsome
    unfold part
    split
    · exact ⟨⟨Cursor.child_sound hsound side, hsome⟩, Nat.le_refl _⟩
    · exact ⟨trivial, Nat.zero_le _⟩
  have hleft := hpart .left position (min (position + length) joint.boundary - position)
  have hright := hpart .right (max position joint.boundary)
    (position + length - max position joint.boundary)
  unfold parts
  dsimp only
  by_cases hbefore : position < joint.boundary
  · obtain ⟨hleftSound, hleftLength⟩ := hleft (by omega)
    by_cases hbehind : joint.boundary < position + length
    · obtain ⟨hrightSound, hrightLength⟩ := hright (by omega)
      rw [if_pos hbefore, if_pos hbehind]
      constructor
      · simp [hleftSound, hrightSound]
      · simp
        omega
    · rw [if_pos hbefore, if_neg hbehind]
      constructor
      · simp [hleftSound]
      · simp
        omega
  · by_cases hbehind : joint.boundary < position + length
    · obtain ⟨hrightSound, hrightLength⟩ := hright (by omega)
      rw [if_neg hbefore, if_pos hbehind]
      constructor
      · simp [hrightSound]
      · simp
        omega
    · omega

end Ledger

/-- A part that is found in a child ends where a word can say. -/
theorem Cursor.locate_ok {child : Cursor} (hsound : child.Sound) {position length start : Nat}
    (hlocate : child.locate position length = .ok start) : start + length ≤ maxOffset := by
  have hstop := hsound.placed.view.stop_le
  unfold Cursor.locate at hlocate
  split at hlocate
  · split at hlocate
    · obtain rfl := Except.ok.inj hlocate
      omega
    · cases hlocate
  · cases hlocate

variable {σ : Type} [Store σ]

namespace Backend

/-- Filling the rest of a buffer. The induction is on what is still to be filled. -/
theorem fill?_eq (store : StoreRef) {start room : Nat} (hword : start + room ≤ maxOffset) :
    ∀ (backend : Backend σ) {filled : Nat}, filled ≤ room →
      backend.fill? store start room filled =
        some (backend.fill store (start + filled) (room - filled)) := by
  intro backend filled
  induction hrest : room - filled using Nat.strongRecOn generalizing backend filled with
  | ind rest ih =>
      intro hfilled
      subst hrest
      rw [fill?, fill]
      by_cases hless : filled < room
      · rw [dif_pos hless, if_neg (by omega), Word.add?_eq (by omega), Word.sub?_eq hfilled]
        simp only [Option.bind_eq_bind, Option.bind_some]
        cases backend.read store (start + filled) (room - filled) with
        | mk answer after =>
            cases answer with
            | error failure => rfl
            | ok reply =>
                by_cases hcount : reply.count = 0
                · simp only [hcount, dif_pos]
                · have htaken : min reply.count (room - filled) ≤ room - filled :=
                    Nat.min_le_right _ _
                  have hmore := ih _ (by omega) after
                    (rfl : room - (filled + min reply.count (room - filled)) = _) (by omega)
                  simp only [hcount, dif_neg, not_false_eq_true]
                  rw [Word.add?_eq (by omega), hmore, Nat.add_assoc, Nat.sub_sub]
                  rfl
      · rw [dif_neg hless, if_pos (by omega)]

omit [Store σ] in
theorem noteCrossing?_eq (backend : Backend σ) (joint : Joint) {position length : Nat}
    (hword : position + length ≤ maxOffset) :
    backend.noteCrossing? joint position length =
      some (backend.noteCrossing joint position length) := by
  rw [noteCrossing?, joint.crosses?_eq hword]
  rfl

theorem length_fill_le (backend : Backend σ) (store : StoreRef) (position length : Nat) :
    (backend.fill store position length).1.bytes.length ≤ length := by
  rcases backend.fill_fills store position length with ⟨-, hall⟩ | ⟨-, -, hless⟩
  · exact Nat.le_of_eq hall
  · exact Nat.le_of_lt hless

/-- A part over a store is filled into the buffer behind what is there. -/
theorem gather?_source {ledger : Ledger} {room : Nat} (hword : room ≤ maxOffset)
    {backend : Backend σ} {filled : List UInt8} {header : Header} {store : StoreRef} {view : View}
    {position length start : Nat} (hsound : Cursor.Sound ⟨.source header store, view⟩)
    (hroom : filled.length + length ≤ room) (parts : List Part)
    (hlocate : Cursor.locate ⟨.source header store, view⟩ position length = .ok start) :
    let got := backend.fill store start length
    backend.gather? ledger room filled
        (.range ⟨.source header store, view⟩ position length :: parts) =
      match got.1.failure with
      | some error => some (⟨filled ++ got.1.bytes, some error⟩, got.2)
      | none => got.2.gather? ledger room (filled ++ got.1.bytes) parts := by
  have hfits := Cursor.locate_ok hsound hlocate
  have hfill := fill?_eq store hfits backend (Nat.zero_le length)
  have hbytes := backend.length_fill_le store start length
  rw [Nat.add_zero, Nat.sub_zero] at hfill
  rw [gather?, hlocate]
  cases hfailure : (backend.fill store start length).1.failure <;>
    simp only [hfill, Word.slice?_eq hroom (by omega), Word.add?_eq (show filled.length +
      (backend.fill store start length).1.bytes.length ≤ maxOffset by omega), Option.bind_eq_bind,
      Option.bind_some, hfailure]

/-- The pending parts lie in windows, and bring no more than the buffer has room for. -/
structure Pending (room : Nat) (filled : List UInt8) (parts : List Part) : Prop where
  sound : ∀ part ∈ parts, part.Sound
  room : filled.length + sumOver Part.length parts ≤ room

/-- Gathering takes a range apart into parts that bring as much, and fills the buffer with what a
store delivers of a part, which is no more than the part has. -/
theorem gather?_eq {ledger : Ledger} {room : Nat} (hword : room ≤ maxOffset)
    (backend : Backend σ) (filled : List UInt8) (parts : List Part) : Pending room filled parts →
      backend.gather? ledger room filled parts = some (backend.gather ledger filled parts) := by
  fun_induction gather backend ledger filled parts with
  | case1 => exact fun _ => by rw [gather?]
  | case2 => exact fun _ => by rw [gather?]
  | case3 backend filled block view position length parts fault hlocate =>
      intro _
      rw [gather?, hlocate]
  | case4 backend filled view position length parts start header joint left right hlocate ih =>
      intro hpending
      obtain ⟨hsound, hpos⟩ := hpending.sound _ (List.mem_cons_self ..)
      have hfits := Cursor.locate_ok hsound hlocate
      obtain ⟨hparts, hlength⟩ :=
        @Ledger.parts_sound ledger header joint left right start length hsound.block hpos
      have hroom := hpending.room
      simp only [sumOver_cons, Part.length] at hroom
      have hmore : Pending room filled
          (ledger.parts header.number joint left right start length ++ parts) := by
        constructor
        · intro part hmem
          rcases List.mem_append.mp hmem with hnew | hold
          · exact hparts part hnew
          · exact hpending.sound part (List.mem_cons_of_mem _ hold)
        · rw [sumOver_append]
          omega
      rw [gather?, hlocate]
      simp only [noteCrossing?_eq _ _ hfits, Option.bind_eq_bind, Option.bind_some]
      split
      · rename_i hnone
        rw [Ledger.parts?_eq hpos hfits] at hnone
        cases hnone
      · rename_i found hfound
        rw [Ledger.parts?_eq_some hfound]
        exact ih hmore
  | case5 backend filled view position length parts start header store got after hfill error
      hfailure hlocate =>
      intro hpending
      have hroom := hpending.room
      simp only [sumOver_cons, Part.length] at hroom
      rw [gather?_source hword (hpending.sound _ (List.mem_cons_self ..)).1 (by omega)
        parts hlocate, hfill]
      simp only [hfailure]
  | case6 backend filled view position length parts start header store got after hfill hnone
      hlocate ih =>
      intro hpending
      have hroom := hpending.room
      simp only [sumOver_cons, Part.length] at hroom
      have hless := backend.length_fill_le store start length
      rw [hfill] at hless
      rw [gather?_source hword (hpending.sound _ (List.mem_cons_self ..)).1 (by omega)
        parts hlocate, hfill]
      simp only [hnone]
      apply ih
      constructor
      · exact fun part hmem => hpending.sound part (List.mem_cons_of_mem _ hmem)
      · dsimp only at hless
        rw [List.length_append]
        omega

theorem readComposed?_eq (backend : Backend σ) (ledger : Ledger) {header : Header} {joint : Joint}
    {left right : Block} {position length : Nat}
    (hsound : (Block.composed header joint left right).Sound) (hpos : 0 < length)
    (hword : position + length ≤ maxOffset) :
    backend.readComposed? ledger header joint left right position length =
      some (backend.readComposed ledger header joint left right position length) := by
  obtain ⟨hparts, hlength⟩ := @Ledger.parts_sound ledger header joint left right position length
    hsound hpos
  have hpending : Pending length []
      (ledger.parts header.number joint left right position length) := by
    constructor
    · exact hparts
    · simpa using hlength
  simp only [readComposed?, readComposed, noteCrossing?_eq _ _ hword, Ledger.parts?_eq hpos hword,
    gather?_eq (show length ≤ maxOffset by omega) _ _ _ hpending, Option.bind_eq_bind,
    Option.bind_some]

theorem readBlock?_eq (backend : Backend σ) (ledger : Ledger) {block : Block}
    {position wanted : Nat}
    (hsound : block.Sound) (hpos : 0 < wanted) (hword : position + wanted ≤ maxOffset) :
    backend.readBlock? ledger block position wanted =
      some (backend.readBlock ledger block position wanted) := by
  cases block with
  | source header store => rfl
  | composed header joint left right =>
      simp only [readBlock?, readBlock, readComposed?_eq backend ledger hsound hpos hword,
        Option.bind_eq_bind, Option.bind_some]
      cases backend.readComposed ledger header joint left right position wanted with
      | mk answer after =>
          cases answer with
          | error error => rfl
          | ok bytes =>
              dsimp only
              split <;> rfl

/-- Where a range that is not empty ends, there is a byte before. -/
theorem adviseAll?_eq (backend : Backend σ) (ledger : Ledger) (ranges : List (Cursor × Extent)) :
    (∀ range ∈ ranges, range.2.start < range.2.stop) →
      backend.adviseAll? ledger ranges = some (backend.adviseAll ledger ranges) := by
  fun_induction adviseAll backend ledger ranges with
  | case1 => exact fun _ => by rw [adviseAll?]
  | case2 backend view range ranges start stop hstart hstop header joint left right ih =>
      intro hranges
      rw [adviseAll?, hstart, hstop]
      dsimp only
      apply ih
      intro part hmem
      rcases List.mem_append.mp hmem with hnew | hold
      · exact Ledger.releasedParts_nonempty hnew
      · exact hranges part (List.mem_cons_of_mem _ hold)
  | case3 backend view range ranges start stop hstart hstop header store ih =>
      intro hranges
      have hless := hranges _ (List.mem_cons_self ..)
      dsimp only at hless
      obtain ⟨hfirst, -⟩ := (Shift.inner?_eq_some_iff ..).mp hstart
      obtain ⟨hlast, -⟩ := (Shift.inner?_eq_some_iff ..).mp hstop
      rw [adviseAll?, hstart, hstop]
      simp only [Word.sub?_eq (show 1 ≤ stop by omega), Option.bind_eq_bind, Option.bind_some]
      exact ih fun part hmem => hranges part (List.mem_cons_of_mem _ hmem)
  | case4 backend block view range ranges hnone ih =>
      intro hranges
      rw [adviseAll?]
      split
      · rename_i start stop hstart hstop
        exact (hnone start stop hstart hstop).elim
      · exact ih fun part hmem => hranges part (List.mem_cons_of_mem _ hmem)

end Backend

namespace Pool

variable (pool : Pool σ) {cursor : Cursor}

omit [Store σ] in
theorem seek?_eq (hsound : cursor.Sound) (position : Nat) :
    pool.seek? cursor position = some (pool.seek cursor position) := by
  simp only [seek?, seek, Cursor.through_eq, hsound.placed.view.seek?_eq hsound.limit_le,
    Option.bind_eq_bind, Option.bind_some]
  cases cursor.view.seek position <;> rfl

/-- A cursor does not move beyond the end of its window. -/
theorem read?_eq (hsound : cursor.Sound) (capacity : Nat) :
    pool.read? cursor capacity = some (pool.read cursor capacity) := by
  have hview := hsound.placed.view
  have hstop := hview.stop_le
  have hfirst := hview.first_le
  have hcurrent := hview.current_le
  simp only [read?, read, Cursor.through_eq, hview.wanted?_eq, Option.bind_eq_bind,
    Option.bind_some]
  cases hwanted : cursor.view.wanted capacity with
  | error fault => rfl
  | ok wanted =>
      cases wanted with
      | none => rfl
      | some wanted =>
          obtain ⟨hpos, hwhole⟩ := View.wanted_some hwanted
          simp only [View.remaining] at hwhole
          simp only [Word.slice?_eq (show 0 + wanted ≤ capacity by omega)
              (show 0 + wanted ≤ maxOffset by omega),
            Backend.readBlock?_eq pool.backend pool.ledger hsound.block hpos
              (show cursor.view.current + wanted ≤ maxOffset by omega), Option.bind_some]
          cases hread : pool.backend.readBlock pool.ledger cursor.block cursor.view.current
              wanted with
          | mk answer backend =>
              cases answer with
              | error error => rfl
              | ok bytes =>
                  have hless := (Backend.readBlock_length hpos hread).2
                  have hmoved := hview.standing
                    (show cursor.view.first ≤ cursor.view.current + bytes.length by omega)
                    (by omega)
                  simp only [Word.add?_eq (show cursor.view.current + bytes.length ≤ maxOffset by
                    omega), Option.bind_some, Cursor.withView, hmoved.position?_eq hsound.limit_le]
                  rfl

theorem adviseBelow?_eq (block : Block) {released : Extent}
    (hsome : released.start < released.stop) :
    pool.adviseBelow? block released = some (pool.adviseBelow block released) := by
  cases block with
  | source header store =>
      simp only [adviseBelow?, Word.sub?_eq (show 1 ≤ released.stop by omega)]
      rfl
  | composed header joint left right =>
      have hadvise := pool.backend.adviseAll?_eq pool.ledger
        (pool.ledger.releasedParts header.number joint left right released)
        fun part hmem => Ledger.releasedParts_nonempty hmem
      simp only [adviseBelow?, hadvise]
      rfl

theorem release?_eq (hsound : cursor.Sound) (position : Nat) :
    pool.release? cursor position = some (pool.release cursor position) := by
  simp only [release?, release, Cursor.through_eq,
    hsound.placed.view.firstKept?_eq hsound.limit_le, Option.bind_eq_bind, Option.bind_some]
  cases hkept : cursor.view.firstKept position with
  | error fault => rfl
  | ok first =>
      obtain ⟨inner, -, hfirst, -, rfl⟩ := View.firstKept_ok hkept
      have hadvise := pool.adviseBelow?_eq cursor.block
        (show (⟨cursor.view.first, inner + 1⟩ : Extent).start < inner + 1 by
          dsimp only
          omega)
      simp only [hadvise, Option.bind_some]

theorem cloneAt?_eq (hsound : cursor.Sound) (offset : Nat) :
    pool.cloneAt? cursor offset = some (pool.cloneAt cursor offset) := by
  simp only [cloneAt?, cloneAt, Cursor.through_eq, hsound.placed.view.cloneAt?_eq,
    Option.bind_eq_bind, Option.bind_some]
  cases cursor.view.cloneAt cursor.block.settings.limit offset <;> rfl

theorem clone?_eq (hsound : cursor.Sound) : pool.clone? cursor = some (pool.clone cursor) := by
  rw [clone?, hsound.placed.view.position?_eq hsound.limit_le, clone_eq]
  exact pool.cloneAt?_eq hsound cursor.position

theorem join?_eq {other : Cursor} (hsound : cursor.Sound) (hother : other.Sound)
    (hook : Option Hook) :
    pool.join? cursor other hook = some (pool.join cursor other hook) := by
  have hview := hsound.placed.view
  simp only [join?, join, Cursor.through_eq, hview.remaining?_eq, hother.placed.view.remaining?_eq,
    hview.firstPosition?_eq hsound.limit_le, hview.stopPosition?_eq hsound.limit_le,
    hview.position?_eq hsound.limit_le, pool.cloneAt?_eq hother, Cursor.remaining,
    Option.bind_eq_bind, Option.bind_some]
  by_cases hlimit : cursor.view.stopPosition + other.view.remaining ≤ cursor.block.settings.limit
  · simp only [hlimit, if_true]
    cases pool.cloneAt other cursor.view.stopPosition with
    | mk made cloned => cases made <;> rfl
  · simp only [hlimit, if_false]

theorem concat?_eq {other : Cursor} (hsound : cursor.Sound) (hother : other.Sound)
    (hook : Option Hook) :
    pool.concat? cursor other hook = some (pool.concat cursor other hook) := by
  simp only [concat?, concat, join?_eq _ hsound hother, Option.bind_eq_bind, Option.bind_some]

/-- The cut lies between where the cursor stands and where it ends. -/
theorem cutHead?_eq (hsound : cursor.Sound) (tail : Cursor) (position : Nat) :
    pool.cutHead? cursor tail position = some (pool.cutHead cursor tail position) := by
  have hview := hsound.placed.view
  unfold cutHead? cutHead
  cases hnamed : cursor.view.shift.inner? position with
  | none => rfl
  | some inner =>
      simp only [Cursor.through_eq]
      cases hcut : cursor.view.truncate inner with
      | error fault => rfl
      | ok view =>
          obtain ⟨hafter, hbefore, -⟩ := View.truncate_ok hcut
          obtain ⟨hname, -⟩ := (Shift.inner?_eq_some_iff ..).mp hnamed
          have hposition := hview.position_eq hsound.limit_le
          have hstop := hview.stopPosition_eq hsound.limit_le
          have hend := Cursor.position_add_remaining hsound
          have hhigh := hview.high
          have hlimit := hsound.limit_le
          simp only [Cursor.position, Cursor.remaining] at hend
          simp only [hview.position?_eq hlimit, hview.remaining?_eq,
            Word.add?_eq (show cursor.view.position + cursor.view.remaining ≤ maxOffset by omega),
            Word.sub?_eq (show cursor.view.position ≤ position by omega),
            Word.sub?_eq (show position ≤ cursor.view.position + cursor.view.remaining by omega),
            Option.bind_eq_bind, Option.bind_some]
          rfl

omit [Store σ] in
theorem seek_sound {moved : Cursor} {position : Nat} (hsound : cursor.Sound)
    (hseek : (pool.seek cursor position).1 = .ok moved) : moved.Sound := by
  obtain ⟨view, hview, rfl⟩ := seek_ok hseek
  obtain ⟨hplaced, hextent⟩ := hsound.placed.view.seek hview
  exact hsound.withView hplaced (.of_eq hextent)

theorem split?_eq (hsound : cursor.Sound) (position : Nat) :
    pool.split? cursor position = some (pool.split cursor position) := by
  have hview := hsound.placed.view
  simp only [split?, split, Cursor.through_eq, Cursor.position,
    hview.splitCheck?_eq hsound.limit_le, hview.position?_eq hsound.limit_le, Option.bind_eq_bind,
    Option.bind_some]
  cases cursor.view.splitCheck position with
  | error fault => rfl
  | ok _ =>
      simp only [pool.seek?_eq hsound, Option.bind_some]
      have hfirst := @seek_sound _ pool cursor
      cases hseek : pool.seek cursor position with
      | mk made gone =>
          cases made with
          | error fault => rfl
          | ok moved =>
              have hmoved := hfirst hsound (congrArg Prod.fst hseek)
              simp only [gone.cloneAt?_eq hmoved, Option.bind_some]
              cases gone.cloneAt moved position with
              | mk clone cloned =>
                  simp only [cloned.seek?_eq hmoved, Option.bind_some]
                  have hsecond := @seek_sound _ cloned moved
                  cases hreturn : cloned.seek moved cursor.view.position with
                  | mk made returned =>
                      cases made with
                      | error fault => rfl
                      | ok back =>
                          have hback := hsecond hmoved (congrArg Prod.fst hreturn)
                          cases clone with
                          | error fault => rfl
                          | ok tail => exact returned.cutHead?_eq hback tail position

/-- The count of the bytes that a loop has read, with those that are still to come, is no more than
the loop began with. -/
theorem drainWithin?_eq (capacity rounds : Nat) : ∀ (pool : Pool σ) {cursor : Cursor}
    {total : Nat}, cursor.Sound → total + cursor.remaining ≤ maxOffset →
      pool.drainWithin? cursor capacity total rounds =
        some (pool.drainWithin cursor capacity rounds) := by
  induction rounds with
  | zero => exact fun _ _ _ _ _ => rfl
  | succ rounds ih =>
      intro pool cursor total hsound htotal
      simp only [drainWithin?, drainWithin, pool.read?_eq hsound, Option.bind_eq_bind,
        Option.bind_some]
      cases hread : pool.read cursor capacity with
      | mk answer next =>
          cases answer with
          | error error => rfl
          | ok made =>
              obtain ⟨result, moved⟩ := made
              cases result with
              | atEnd => rfl
              | read bytes =>
                  obtain ⟨rfl, hless⟩ := read_ok hread
                  simp only [ReadResult.bytes] at hless ⊢
                  have hleft := hsound.remaining_advance bytes.length
                  simp only [Word.add?_eq (show total + bytes.length ≤ maxOffset by omega),
                    Option.bind_some,
                    ih next (hsound.advance hless) (show total + bytes.length +
                      (cursor.advance bytes.length).remaining ≤ maxOffset by omega)]

theorem readToEnd?_eq (hsound : cursor.Sound) :
    pool.readToEnd? cursor = some (pool.readToEnd cursor) := by
  apply drainWithin?_eq drainChunk (cursor.remaining + 1) pool hsound
  have hstop := hsound.placed.view.stop_le
  simp only [Cursor.remaining, View.remaining]
  omega

theorem readBytes?_eq (hsound : cursor.Sound) (capacity : Nat) :
    pool.readBytes? cursor capacity = some (pool.readBytes cursor capacity) := by
  unfold readBytes? readBytes
  split
  · rfl
  · simp only [pool.read?_eq hsound, Option.bind_eq_bind, Option.bind_some]
    cases pool.read cursor capacity with
    | mk answer next => cases answer <;> rfl

end Pool

namespace World

variable {past : Pool σ} {world : World σ} {id : String} {α : Type}

omit [Store σ] in
theorem withCursor?_eq {act? : Cursor → Option (Except Refusal α × World σ)}
    {act : Cursor → Except Refusal α × World σ}
    (hact : ∀ cursor, world.find? id = some cursor → act? cursor = some (act cursor)) :
    world.withCursor? id act? = some (world.withCursor id act) := by
  unfold withCursor? withCursor
  cases hfind : world.find? id with
  | none => rfl
  | some cursor => exact hact cursor hfind

omit [Store σ] in
theorem claiming?_eq {act? : Option (Except Refusal α × World σ)}
    {act : Except Refusal α × World σ} (hact : act? = some act) :
    world.claiming? id act? = some (world.claiming id act) := by
  unfold claiming? claiming
  split
  · rfl
  · exact hact

/-- On words, an operation comes to the same. -/
theorem applyInWords_eq (h : Ordered past world) (operation : Operation σ) :
    world.applyInWords operation = some (world.apply operation) := by
  have hsound : ∀ {id cursor}, world.find? id = some cursor → cursor.Sound :=
    fun hfind => (h.focus hfind).1
  cases operation with
  | build id plan => rfl
  | position id =>
      apply withCursor?_eq
      intro cursor hfind
      have hcursor := hsound hfind
      rw [Cursor.through_eq, hcursor.placed.view.position?_eq hcursor.limit_le]
      rfl
  | remaining id =>
      apply withCursor?_eq
      intro cursor hfind
      rw [Cursor.through_eq, (hsound hfind).placed.view.remaining?_eq]
      rfl
  | refs id => rfl
  | setPosition id position =>
      apply withCursor?_eq
      intro cursor hfind
      rw [world.pool.seek?_eq (hsound hfind)]
      rfl
  | reset id => rfl
  | read id capacity =>
      apply withCursor?_eq
      intro cursor hfind
      rw [world.pool.read?_eq (hsound hfind)]
      cases world.pool.read cursor capacity with
      | mk answer pool => cases answer <;> rfl
  | release id position =>
      apply withCursor?_eq
      intro cursor hfind
      rw [world.pool.release?_eq (hsound hfind)]
      rfl
  | cloneAt id target offset =>
      apply claiming?_eq
      apply withCursor?_eq
      intro cursor hfind
      rw [world.pool.cloneAt?_eq (hsound hfind)]
      rfl
  | clone id target =>
      apply claiming?_eq
      apply withCursor?_eq
      intro cursor hfind
      rw [world.pool.clone?_eq (hsound hfind)]
      rfl
  | split id target position =>
      apply claiming?_eq
      apply withCursor?_eq
      intro cursor hfind
      rw [world.pool.split?_eq (hsound hfind)]
      cases world.pool.split cursor position with
      | mk made pool => cases made <;> rfl
  | concat id other hook =>
      apply withCursor?_eq
      intro head hfind
      split
      · rfl
      · apply withCursor?_eq
        intro tail htail
        rw [world.pool.concat?_eq (hsound hfind) (hsound htail)]
        rfl
  | dispose id => rfl

/-- In every reachable world, whatever the lengths and answers of stores, the limits and the offsets
of clones: no operation and no loop of reads ever stops on words. None comes to a sum beyond the
largest word, takes away more than there is, caps a name, makes a part without bytes or leaves its
buffer. -/
theorem words_suffice (operations : List (Operation σ)) :
    let world := run {} operations
    (∀ operation, world.applyInWords operation = some (world.apply operation)) ∧
    ∀ id cursor, world.find? id = some cursor →
      world.pool.readToEnd? cursor = some (world.pool.readToEnd cursor) ∧
      ∀ capacity, world.pool.readBytes? cursor capacity =
        some (world.pool.readBytes cursor capacity) := by
  intro world
  have h : Ordered {} world := run_empty_ordered operations
  constructor
  · exact applyInWords_eq h
  · intro id cursor hfind
    have hsound := (h.focus hfind).1
    exact ⟨world.pool.readToEnd?_eq hsound, world.pool.readBytes?_eq hsound⟩

end World

end SharedStream
