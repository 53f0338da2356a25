import SharedStream.Proofs.Confinement
import SharedStream.Proofs.Faithful
/-!
Splitting a cursor and joining it again. A split leaves every visible byte with one of the two
halves, under the name that it had, and is refused only where one of them would be empty. Both
halves stand within the limit of the block that they share, so they can always be joined again, and
the result shows what was split.
-/

namespace SharedStream

namespace Cursor

/-- Where the byte with an outer position lies, if the cursor shows it: its store, and its position
there. -/
def byteAt? (cursor : Cursor) (position : Nat) : Option (StoreRef × Nat) :=
  if cursor.view.firstPosition ≤ position then
    Piece.spot? cursor.pieces (position - cursor.view.firstPosition)
  else none

/-- The same window on the same block, wherever the cursor stands in it. -/
def Moves (cursor moved : Cursor) : Prop :=
  ∃ current, moved = cursor.withView { cursor.view with current }

/-- Both cursors show the same bytes under the same names, and allow the same positions. -/
structure Mirrors (cursor original : Cursor) : Prop where
  first : cursor.view.firstPosition = original.view.firstPosition
  stop : cursor.view.stopPosition = original.view.stopPosition
  limit : cursor.block.settings.limit = original.block.settings.limit
  bytes : ∀ position, cursor.byteAt? position = original.byteAt? position

/-- Every byte of `whole` is shown by one of the halves, under the same name: by the head before
`position`, by the tail from there on. -/
structure Halves (whole : Cursor) (position : Nat) (head tail : Cursor) : Prop where
  head_first : head.view.firstPosition = whole.view.firstPosition
  head_stop : head.view.stopPosition = position
  tail_first : tail.view.firstPosition = position
  tail_stop : tail.view.stopPosition = whole.view.stopPosition
  before : ∀ name < position, head.byteAt? name = whole.byteAt? name ∧ tail.byteAt? name = none
  after : ∀ name, position ≤ name → head.byteAt? name = none ∧
    tail.byteAt? name = whole.byteAt? name

namespace Moves

variable {cursor moved last : Cursor}

theorem refl (cursor : Cursor) : cursor.Moves cursor := ⟨cursor.view.current, rfl⟩

theorem trans (hfirst : cursor.Moves moved) (hsecond : moved.Moves last) : cursor.Moves last := by
  obtain ⟨_, rfl⟩ := hfirst
  obtain ⟨current, rfl⟩ := hsecond
  exact ⟨current, rfl⟩

theorem advance (cursor : Cursor) (count : Nat) : cursor.Moves (cursor.advance count) :=
  ⟨cursor.view.current + count, rfl⟩

theorem block_eq (h : cursor.Moves moved) : moved.block = cursor.block := by
  obtain ⟨_, rfl⟩ := h
  rfl

end Moves

namespace Halves

variable {whole head tail : Cursor} {position : Nat}

/-- Where the halves stand does not matter. -/
theorem moved {head' tail' : Cursor} (h : whole.Halves position head tail)
    (hhead : head.Moves head') (htail : tail.Moves tail') : whole.Halves position head' tail' := by
  obtain ⟨_, rfl⟩ := hhead
  obtain ⟨_, rfl⟩ := htail
  exact ⟨h.head_first, h.head_stop, h.tail_first, h.tail_stop, h.before, h.after⟩

/-- A half that shows a byte is not empty. -/
theorem nonempty (h : whole.Halves position head tail) (hhead : head.Sound) (htail : tail.Sound)
    (hafter : whole.view.firstPosition < position) (hbefore : position < whole.view.stopPosition) :
    head.view.first ≠ head.view.stop ∧ tail.view.first ≠ tail.view.stop := by
  have hfirst := hhead.placed.view.firstPosition_eq hhead.limit_le
  have hstop := hhead.placed.view.stopPosition_eq hhead.limit_le
  have htailFirst := htail.placed.view.firstPosition_eq htail.limit_le
  have htailStop := htail.placed.view.stopPosition_eq htail.limit_le
  have hheadFirst := h.head_first
  have hheadStop := h.head_stop
  have hbegin := h.tail_first
  have hend := h.tail_stop
  omega

end Halves

section Bytes

variable {cursor head tail : Cursor} {position : Nat}

theorem Sound.total_pieces (h : cursor.Sound) :
    cursor.view.firstPosition + Piece.total cursor.pieces = cursor.view.stopPosition := by
  have hfirst := h.placed.view.firstPosition_eq h.limit_le
  have hstop := h.placed.view.stopPosition_eq h.limit_le
  have horder := Nat.le_trans h.placed.view.first_le h.placed.view.current_le
  rw [pieces, Block.total_pieces]
  omega

/-- A cursor shows the bytes from its first position up to its end, and no others. -/
theorem Sound.byteAt?_isSome_iff (h : cursor.Sound) :
    (cursor.byteAt? position).isSome = true ↔
      cursor.view.firstPosition ≤ position ∧ position < cursor.view.stopPosition := by
  have htotal := h.total_pieces
  simp only [byteAt?]
  split
  · rw [Piece.isSome_spot?_iff]
    omega
  · simp only [Option.isSome_none, Bool.false_eq_true, false_iff]
    omega

theorem Sound.byteAt?_eq_none (h : cursor.Sound)
    (houtside : position < cursor.view.firstPosition ∨ cursor.view.stopPosition ≤ position) :
    cursor.byteAt? position = none := by
  rw [← Option.not_isSome_iff_eq_none, h.byteAt?_isSome_iff]
  omega

/-- A narrower window shows its bytes where the whole one shows them, if it names them alike. -/
theorem Sound.byteAt?_window (h : cursor.Sound) {part : Cursor} (hpart : part.Sound)
    (hblock : part.block = cursor.block)
    (hshift : part.view.shift.amount = cursor.view.shift.amount)
    (hfirst : cursor.view.first ≤ part.view.first) (hstop : part.view.stop ≤ cursor.view.stop)
    (hfrom : part.view.firstPosition ≤ position) (hto : position < part.view.stopPosition) :
    part.byteAt? position = cursor.byteAt? position := by
  have hname := h.placed.view.firstPosition_eq h.limit_le
  have hnamePart := hpart.placed.view.firstPosition_eq hpart.limit_le
  have hnameStop := hpart.placed.view.stopPosition_eq hpart.limit_le
  have hwindow : part.pieces = Piece.clip cursor.pieces (part.view.first - cursor.view.first)
      (part.view.stop - part.view.first) := by
    rw [pieces, hblock]
    exact h.pieces_window hfirst hstop
  simp only [byteAt?]
  rw [if_pos hfrom, if_pos (by omega), hwindow, Piece.spot?_clip _ _ _ _ (by omega)]
  congr 1
  omega

/-- The two windows that a cut at `inner` makes are halves. -/
theorem Sound.halves_of_cut (h : cursor.Sound) {inner : Nat} (hhead : head.Sound)
    (htail : tail.Sound) (hname : (inner : Int) + cursor.view.shift.amount = position)
    (hafter : cursor.view.first ≤ inner) (hbefore : inner ≤ cursor.view.stop)
    (heq : head = cursor.withView { cursor.view with stop := inner })
    (hrest : tail = cursor.withView ⟨.placing inner position, inner, inner, cursor.view.stop⟩) :
    cursor.Halves position head tail := by
  have hstop := h.placed.view.stopPosition_eq h.limit_le
  have hheadStop := hhead.placed.view.stopPosition_eq hhead.limit_le
  have htailFirst := htail.placed.view.firstPosition_eq htail.limit_le
  have htailStop := htail.placed.view.stopPosition_eq htail.limit_le
  have hshift : tail.view.shift.amount = cursor.view.shift.amount := by
    rw [hrest]
    change (position : Int) - inner = cursor.view.shift.amount
    omega
  rw [hshift] at htailFirst htailStop
  have hheadFirst : head.view.firstPosition = cursor.view.firstPosition := by rw [heq]; rfl
  have hcutHead : head.view.stop = inner := by rw [heq]; rfl
  have hcutTail : tail.view.first = inner := by rw [hrest]; rfl
  have hendTail : tail.view.stop = cursor.view.stop := by rw [hrest]; rfl
  have hshiftHead : head.view.shift.amount = cursor.view.shift.amount := by rw [heq]; rfl
  have hends : head.view.stopPosition = position := by omega
  have hbegins : tail.view.firstPosition = position := by omega
  refine ⟨hheadFirst, hends, hbegins, by omega, ?_, ?_⟩
  · intro name hless
    refine ⟨?_, htail.byteAt?_eq_none (by omega)⟩
    by_cases hshown : cursor.view.firstPosition ≤ name
    · refine h.byteAt?_window hhead (by rw [heq]; rfl) hshiftHead
        (by rw [heq]; exact Nat.le_refl _) (by omega) (by omega) (by omega)
    · rw [h.byteAt?_eq_none (by omega), hhead.byteAt?_eq_none (by omega)]
  · intro name hreached
    refine ⟨hhead.byteAt?_eq_none (by omega), ?_⟩
    by_cases hshown : name < cursor.view.stopPosition
    · exact h.byteAt?_window htail (by rw [hrest]; rfl) hshift (by omega) (by omega) (by omega)
        (by omega)
    · rw [h.byteAt?_eq_none (by omega), htail.byteAt?_eq_none (by omega)]

/-- A concatenation to a cursor that stands at its first byte, which carries on the names of the
head. -/
theorem Sound.byteAt?_joined {header : Header} (hhead : head.Sound)
    (hjoined : (head.joined tail header).Sound) (hbegin : tail.view.current = tail.view.first)
    (hadjoin : tail.view.firstPosition = head.view.stopPosition) :
    (head.joined tail header).byteAt? position =
      if position < head.view.stopPosition then head.byteAt? position
      else tail.byteAt? position := by
  have hfirst := hjoined.placed.view.firstPosition_eq hjoined.limit_le
  have htotal := hhead.total_pieces
  have hfirst' : (head.joined tail header).view.firstPosition = head.view.firstPosition := by
    simp only [joined, Shift.zero] at hfirst ⊢
    omega
  have hahead : tail.ahead = tail.pieces := by
    simp only [ahead, pieces, remaining, View.remaining, hbegin]
  simp only [byteAt?, hfirst', hhead.joined_pieces, hahead]
  by_cases hshown : head.view.firstPosition ≤ position
  · rw [if_pos hshown, if_pos hshown, Piece.spot?_append]
    by_cases hleft : position < head.view.stopPosition
    · rw [if_pos (by omega), if_pos hleft]
    · rw [if_neg (by omega), if_neg hleft, if_pos (by omega)]
      congr 1
      omega
  · rw [if_neg hshown, if_neg hshown, if_pos (by omega)]

/-- Halves joined again show what the whole shows. -/
theorem Halves.joined_mirrors {header : Header} (h : cursor.Halves position head tail)
    (hhead : head.Sound) (htail : tail.Sound) (hjoined : (head.joined tail header).Sound)
    (hbegin : tail.view.current = tail.view.first)
    (hsettings : header.settings = cursor.block.settings) :
    (head.joined tail header).Mirrors cursor ∧
      (head.joined tail header).position = head.position := by
  have hfirst := hjoined.placed.view.firstPosition_eq hjoined.limit_le
  have hstop := hjoined.placed.view.stopPosition_eq hjoined.limit_le
  have hposition := hjoined.placed.view.position_eq hjoined.limit_le
  have hend := Cursor.position_add_remaining htail
  have htailFirst := htail.placed.view.firstPosition_eq htail.limit_le
  have htailPosition := htail.placed.view.position_eq htail.limit_le
  have hheadFirst := h.head_first
  have hheadStop := h.head_stop
  have hnamed := h.tail_first
  have hlast := h.tail_stop
  have hadjoin : tail.view.firstPosition = head.view.stopPosition := by omega
  refine ⟨⟨?_, ?_, ?_, ?_⟩, ?_⟩
  · simp only [joined, Shift.zero] at hfirst ⊢
    omega
  · simp only [joined, Shift.zero, Cursor.position] at hstop hend ⊢
    omega
  · exact congrArg Settings.limit hsettings
  · intro name
    rw [hhead.byteAt?_joined hjoined hbegin hadjoin, hheadStop]
    split
    · rename_i hless
      exact (h.before name hless).1
    · rename_i hreached
      exact (h.after name (Nat.le_of_not_lt hreached)).2
  · simp only [joined, Shift.zero, Cursor.position] at hposition ⊢
    omega

end Bytes

end Cursor

/-- Within the limit no end is too large to be a position, so a split is refused for its position
only. -/
theorem Cursor.Sound.splitCheck_eq {cursor : Cursor} (h : cursor.Sound) (position : Nat) :
    cursor.view.splitCheck position =
      if position = cursor.position ∨ position = cursor.view.stopPosition then
        .error (.emptyHalf position cursor.position cursor.view.stopPosition)
      else if position < cursor.position ∨ cursor.view.stopPosition < position then
        .error (.splitOutside position cursor.position cursor.view.stopPosition)
      else .ok () := by
  have hend := Cursor.position_add_remaining h
  have hstop := h.placed.view.stopPosition_eq h.limit_le
  have hhigh := h.placed.view.high
  have hlimit := h.limit_le
  have hword : ¬ maxOffset < cursor.view.stopPosition := by omega
  rw [← hend] at hword ⊢
  exact if_neg hword

namespace World

variable {σ : Type} [Store σ] {past : Pool σ} {world : World σ} {id target : String}
  {cursor head tail : Cursor}

/-- What a split is answered with. -/
def splitAnswer (cursor : Cursor) (position : Nat) : Except Refusal Answer :=
  if position = cursor.position ∨ position = cursor.view.stopPosition then
    .error (Fault.emptyHalf position cursor.position cursor.view.stopPosition)
  else if position < cursor.position ∨ cursor.view.stopPosition < position then
    .error (Fault.splitOutside position cursor.position cursor.view.stopPosition)
  else .ok .done

/-- An empty half is an illegal argument, a position outside is not found. -/
theorem splitAnswer_iff (hsound : cursor.Sound) (position : Nat) :
    ((∃ error : Failure, splitAnswer cursor position = .error error ∧
        error.kind = .illegalArgument) ↔
      position = cursor.position ∨ position = cursor.view.stopPosition) ∧
    ((∃ error : Failure, splitAnswer cursor position = .error error ∧
      error.kind = .notFound) ↔
      position < cursor.position ∨ cursor.view.stopPosition < position) ∧
    (splitAnswer cursor position = .ok .done ↔
      cursor.position < position ∧ position < cursor.view.stopPosition) := by
  have hend := Cursor.position_add_remaining hsound
  unfold splitAnswer
  by_cases hedge : position = cursor.position ∨ position = cursor.view.stopPosition
  · have hwithin : ¬ (position < cursor.position ∨ cursor.view.stopPosition < position) := by
      omega
    have hnot : ¬ (cursor.position < position ∧ position < cursor.view.stopPosition) := by omega
    rw [if_pos hedge]
    simp [hedge, hwithin, hnot, Failure.kind, Fault.kind]
  · rw [if_neg hedge]
    by_cases houtside : position < cursor.position ∨ cursor.view.stopPosition < position
    · have hnot : ¬ (cursor.position < position ∧ position < cursor.view.stopPosition) := by
        omega
      rw [if_pos houtside]
      simp [hedge, houtside, hnot, Failure.kind, Fault.kind]
    · have hinside : cursor.position < position ∧ position < cursor.view.stopPosition := by omega
      rw [if_neg houtside]
      simp [hedge, houtside, hinside]

theorem apply_split (h : Ordered past world) (hfind : world.find? id = some cursor)
    (hfree : world.isLive target = false) (position : Nat) :
    let outcome := world.apply (.split id target position)
    outcome.1 = splitAnswer cursor position ∧
      (outcome.1 = .ok .done → ∃ head tail,
        outcome.2.find? id = some head ∧ outcome.2.find? target = some tail ∧
        cursor.Halves position head tail ∧ head.position = cursor.position ∧
        tail.view.current = tail.view.first ∧ head.block = cursor.block ∧
        tail.block = cursor.block) := by
  obtain ⟨hsound, hkept⟩ := h.focus hfind
  have hcheck := hsound.splitCheck_eq position
  simp only [apply, claiming, hfree, withCursor, hfind, Bool.false_eq_true, if_false, splitAnswer]
  by_cases hedge : position = cursor.position ∨ position = cursor.view.stopPosition
  · rw [if_pos hedge] at hcheck ⊢
    simp only [Pool.split, Cursor.through_eq, hcheck]
    exact ⟨trivial, fun hdone => by cases hdone⟩
  · rw [if_neg hedge] at hcheck ⊢
    by_cases houtside : position < cursor.position ∨ cursor.view.stopPosition < position
    · rw [if_pos houtside] at hcheck ⊢
      simp only [Pool.split, Cursor.through_eq, hcheck]
      exact ⟨trivial, fun hdone => by cases hdone⟩
    · rw [if_neg houtside] at hcheck ⊢
      obtain ⟨inner, head, tail, next, hname, hafter, hbefore, hhead, htail, hsplit, hheadSound,
        htailSound, -⟩ := hkept.split hsound hcheck
      have hfirst := hsound.placed.view.first_le
      have hhalves := hsound.halves_of_cut hheadSound htailSound hname (by omega) (by omega) hhead
        htail
      simp only [hsplit]
      obtain ⟨hfindHead, hfindTail⟩ :=
        find?_divide (show (world.withPool next).find? id = some cursor from hfind) hfree head tail
      refine ⟨trivial, fun _ => ⟨head, tail, hfindHead, hfindTail, hhalves, ?_, ?_, ?_, ?_⟩⟩
      · rw [hhead]
        rfl
      · rw [htail]
        rfl
      · rw [hhead]
        rfl
      · rw [htail]
        rfl

/-- Two cursors that both sides allow to be joined are joined. -/
theorem apply_concat (h : Ordered past world) (hfind : world.find? id = some head)
    (hother : world.find? target = some tail) (hne : id ≠ target) (hook : Option Hook)
    (hhead : head.view.stopPosition + tail.remaining ≤ head.block.settings.limit)
    (htail : head.view.stopPosition + tail.remaining ≤ tail.block.settings.limit) :
    let outcome := world.apply (.concat id target hook)
    outcome.1 = .ok .done ∧ ∃ number,
      let joined := head.joined tail ⟨number, head.block.settings, none, hook⟩
      outcome.2.find? id = some joined ∧ joined.Sound := by
  obtain ⟨hheadSound, -⟩ := h.focus hfind
  obtain ⟨htailSound, -⟩ := h.focus hother
  simp only [apply, withCursor, hfind, hother, if_neg hne]
  cases hmade : world.pool.concat head tail hook with
  | mk made pool =>
      cases made with
      | error fault =>
          have hjoin := (world.pool.concat_eq head tail hook).1
          rw [hmade] at hjoin
          rcases Pool.join_error hjoin.symm with ⟨-, hover⟩ | ⟨-, -, hover⟩ <;> omega
      | ok cursor =>
          obtain ⟨-, -, number, rfl⟩ := Pool.concat_ok hmade
          exact ⟨rfl, number, find?_update hfind _,
            Cursor.joined_sound hheadSound htailSound rfl hhead htail⟩

/-- Halves can be joined whenever the tail stands at its first byte. -/
theorem rejoin (h : Ordered past world) (hsound : cursor.Sound)
    (hfind : world.find? id = some head) (hother : world.find? target = some tail)
    (hne : id ≠ target) {position : Nat} (hhalves : cursor.Halves position head tail)
    (hhead : head.block = cursor.block) (htail : tail.block = cursor.block)
    (hbegin : tail.view.current = tail.view.first) (hook : Option Hook) :
    let outcome := world.apply (.concat id target hook)
    outcome.1 = .ok .done ∧ ∃ whole, outcome.2.find? id = some whole ∧
      whole.Mirrors cursor ∧ whole.position = head.position := by
  obtain ⟨hheadSound, -⟩ := h.focus hfind
  obtain ⟨htailSound, -⟩ := h.focus hother
  have hend := Cursor.position_add_remaining htailSound
  have hfirst := htailSound.placed.view.firstPosition_eq htailSound.limit_le
  have hposition := htailSound.placed.view.position_eq htailSound.limit_le
  have hstop := hsound.placed.view.stopPosition_eq hsound.limit_le
  have hhigh := hsound.placed.view.high
  have hheadStop := hhalves.head_stop
  have htailFirst := hhalves.tail_first
  have htailStop := hhalves.tail_stop
  have hfits : head.view.stopPosition + tail.remaining ≤ cursor.block.settings.limit := by
    simp only [Cursor.position] at hend
    omega
  obtain ⟨hanswer, number, hwhole, hjoined⟩ := apply_concat h hfind hother hne hook
    (by rw [hhead]; exact hfits) (by rw [htail]; exact hfits)
  refine ⟨hanswer, _, hwhole, ?_⟩
  exact hhalves.joined_mirrors hheadSound htailSound hjoined hbegin
    (congrArg Block.settings hhead)

/-- A read moves its cursor at most, and no other. -/
theorem find?_read (world : World σ) {name : String} (hfind : world.find? name = some cursor)
    (id : String) (capacity : Nat) :
    ∃ moved, (world.apply (.read id capacity)).2.find? name = some moved ∧
      cursor.Moves moved := by
  by_cases hsame : name = id
  · subst hsame
    simp only [apply, withCursor, hfind]
    cases hread : world.pool.read cursor capacity with
    | mk made pool =>
        cases made with
        | error error => exact ⟨cursor, hfind, .refl cursor⟩
        | ok made =>
            obtain ⟨result, moved⟩ := made
            obtain ⟨rfl, -⟩ := Pool.read_ok hread
            exact ⟨_, find?_update hfind _, .advance cursor _⟩
  · exact ⟨cursor, (find?_apply_of_not_touched (.read id capacity) (by simpa using hsame)).trans
      hfind, .refl cursor⟩

theorem find?_reads (world : World σ) {name : String} (hfind : world.find? name = some cursor)
    {reads : List (Operation σ)}
    (hreads : ∀ read ∈ reads, ∃ id capacity, read = .read id capacity) :
    ∃ moved, (world.run reads).find? name = some moved ∧ cursor.Moves moved := by
  induction reads generalizing world cursor with
  | nil => exact ⟨cursor, hfind, .refl cursor⟩
  | cons read reads ih =>
      obtain ⟨id, capacity, rfl⟩ := hreads read (List.mem_cons_self ..)
      obtain ⟨middle, hmiddle, hfirst⟩ := find?_read world hfind id capacity
      obtain ⟨moved, hmoved, hsecond⟩ :=
        ih _ hmiddle fun read hmem => hreads read (List.mem_cons_of_mem _ hmem)
      exact ⟨moved, hmoved, hfirst.trans hsecond⟩

/-- A cursor with a visible byte can be reset. -/
theorem apply_reset (world : World σ) (hfind : world.find? id = some cursor)
    (hsome : cursor.view.first ≠ cursor.view.stop) :
    let outcome := world.apply (.reset id)
    let moved := cursor.withView { cursor.view with current := cursor.view.first }
    outcome.1 = .ok .done ∧ outcome.2.find? id = some moved := by
  have hreset : cursor.reset =
      .ok (cursor.withView { cursor.view with current := cursor.view.first }) := by
    simp only [Cursor.reset, Cursor.through_eq, View.reset, if_neg hsome]
    rfl
  simp only [apply, withCursor, hfind, hreset, settleMoved]
  exact ⟨trivial, find?_update hfind _⟩

/-- After a reset of both, the halves can be joined wherever they stood before. -/
theorem rejoin_reset (h : Ordered past world) (hsound : cursor.Sound)
    (hfind : world.find? id = some head) (hother : world.find? target = some tail)
    (hne : id ≠ target) {position : Nat} (hhalves : cursor.Halves position head tail)
    (hhead : head.block = cursor.block) (htail : tail.block = cursor.block)
    (hfirst : head.view.first ≠ head.view.stop) (hlast : tail.view.first ≠ tail.view.stop) :
    let resets := [.reset id, .reset target]
    world.answers resets = [.ok .done, .ok .done] ∧
      ∀ hook, ∃ whole,
        let joined := (world.run resets).apply (.concat id target hook)
        joined.1 = .ok .done ∧ joined.2.find? id = some whole ∧ whole.Mirrors cursor ∧
          whole.position = cursor.view.firstPosition := by
  intro resets
  let middle := (world.apply (.reset id)).2
  let last := (middle.apply (.reset target)).2
  let front := head.withView { head.view with current := head.view.first }
  let back := tail.withView { tail.view with current := tail.view.first }
  obtain ⟨hanswer, hfront⟩ := apply_reset world hfind hfirst
  have htarget : middle.find? target = some tail :=
    (find?_apply_of_not_touched (.reset id) (by simpa using Ne.symm hne)).trans hother
  obtain ⟨hanswer', hback⟩ := apply_reset middle htarget hlast
  have hkept : last.find? id = some front :=
    (find?_apply_of_not_touched (.reset target) (by simpa using hne)).trans hfront
  have hmoved : cursor.Halves position front back :=
    hhalves.moved ⟨head.view.first, rfl⟩ ⟨tail.view.first, rfl⟩
  refine ⟨congrArg₂ (fun first second => [first, second]) hanswer hanswer', fun hook => ?_⟩
  have hlands : Ordered past last := run_ordered h resets
  obtain ⟨hjoined, whole, hwhole, hmirrors, hposition⟩ :=
    rejoin hlands hsound hkept hback hne hmoved hhead htail rfl hook
  exact ⟨whole, hjoined, hwhole, hmirrors, hposition.trans hhalves.head_first⟩

/-- In any reachable world, for any cursor and position, and whatever the stores do. A split is
refused at the two ends of the bytes ahead, where it would leave an empty half, and outside of them;
in between it is always granted, and the limit never stands in its way. The cursor keeps its
position and its first byte and now ends where it was split, the tail begins there and ends where
the cursor ended, and every visible byte is shown by one of the two and not by the other. The halves
can always be joined again: at once, and also after any reads of any cursors if both halves are
reset after them. Either way the result shows the bytes that were split, under the same names and
with the same limit; it stands where the cursor stood, or at its first byte if that was reset. -/
theorem split_rejoins (operations : List (Operation σ)) {id target : String} {cursor : Cursor}
    (hfind : (run {} operations).find? id = some cursor)
    (hfree : (run {} operations).isLive target = false) (position : Nat) :
    let outcome := (run {} operations).apply (.split id target position)
    (∀ name, (cursor.byteAt? name).isSome = true ↔
      cursor.view.firstPosition ≤ name ∧ name < cursor.view.stopPosition) ∧
    ((∃ error : Failure, outcome.1 = .error error ∧ error.kind = .illegalArgument) ↔
      position = cursor.position ∨ position = cursor.view.stopPosition) ∧
    ((∃ error : Failure, outcome.1 = .error error ∧ error.kind = .notFound) ↔
      position < cursor.position ∨ cursor.view.stopPosition < position) ∧
    (outcome.1 = .ok .done ↔
      cursor.position < position ∧ position < cursor.view.stopPosition) ∧
    (outcome.1 = .ok .done → ∃ head tail,
      outcome.2.find? id = some head ∧ outcome.2.find? target = some tail ∧
      cursor.Halves position head tail ∧ head.position = cursor.position ∧
      tail.position = position ∧
      (∀ hook, ∃ whole,
        let joined := outcome.2.apply (.concat id target hook)
        joined.1 = .ok .done ∧ joined.2.find? id = some whole ∧ whole.Mirrors cursor ∧
          whole.position = cursor.position) ∧
      (∀ reads : List (Operation σ),
        (∀ read ∈ reads, ∃ name capacity, read = .read name capacity) →
        let resets := [.reset id, .reset target]
        (outcome.2.run reads).answers resets = [.ok .done, .ok .done] ∧
        ∀ hook, ∃ whole,
          let joined := ((outcome.2.run reads).run resets).apply (.concat id target hook)
          joined.1 = .ok .done ∧ joined.2.find? id = some whole ∧ whole.Mirrors cursor ∧
            whole.position = cursor.view.firstPosition)) := by
  intro outcome
  have h : Ordered {} (run {} operations) := run_empty_ordered operations
  have hsound := (h.focus hfind).1
  obtain ⟨hanswer, hgranted⟩ := apply_split h hfind hfree position
  obtain ⟨hedges, houtside, hinside⟩ := splitAnswer_iff hsound position
  rw [← hanswer] at hedges houtside hinside
  refine ⟨fun _ => hsound.byteAt?_isSome_iff, hedges, houtside, hinside, fun hdone => ?_⟩
  obtain ⟨head, tail, hhead, htail, hhalves, hstands, hbegin, hblock, hblockTail⟩ :=
    hgranted hdone
  have hnext : Ordered {} outcome.2 := (apply_lands h _).ordered
  have hheadSound := (hnext.focus hhead).1
  have htailSound := (hnext.focus htail).1
  have hne : id ≠ target := by
    rintro rfl
    rw [isLive, hfind] at hfree
    cases hfree
  refine ⟨head, tail, hhead, htail, hhalves, hstands, ?_, ?_, ?_⟩
  · rw [← hhalves.tail_first, Cursor.position, View.position, hbegin]
    rfl
  · intro hook
    obtain ⟨hjoined, whole, hwhole, hmirrors, hposition⟩ :=
      rejoin hnext hsound hhead htail hne hhalves hblock hblockTail hbegin hook
    exact ⟨whole, hjoined, hwhole, hmirrors, hposition.trans hstands⟩
  · intro reads hreads
    obtain ⟨hless, hmore⟩ := hinside.mp hdone
    obtain ⟨moved, hmoved, hmoves⟩ := find?_reads outcome.2 hhead hreads
    obtain ⟨rest, hrest, hrests⟩ := find?_reads outcome.2 htail hreads
    have hlater := run_ordered hnext reads
    obtain ⟨hfirst, hlast⟩ :=
      (hhalves.moved hmoves hrests).nonempty (hlater.focus hmoved).1 (hlater.focus hrest).1
        (Nat.lt_of_le_of_lt (Cursor.firstPosition_le_position hsound) hless) hmore
    exact rejoin_reset hlater hsound hmoved hrest hne (hhalves.moved hmoves hrests)
      (hmoves.block_eq.trans hblock) (hrests.block_eq.trans hblockTail) hfirst hlast

/-- A clone of two stores end to end, from position 100 on. It has passed three bytes and released
two; its stores meet at position 106. -/
def crossing : List (Operation MemoryStore) :=
  let plan (length : Nat) : Blueprint MemoryStore :=
    { store := ⟨.cyclic length⟩, settings := .compact }
  [.build "a" (plan 6), .build "b" (plan 5), .concat "a" "b" none, .cloneAt "a" "c" 100,
    .setPosition "c" 103, .release "c" 101]

theorem split_rejoins_crossing :
    let outcome := (run {} crossing).apply (.split "c" "d" 106)
    ∃ cursor head tail, (run {} crossing).find? "c" = some cursor ∧
      cursor.view.firstPosition = 102 ∧ cursor.position = 103 ∧
        cursor.view.stopPosition = 111 ∧
      outcome.2.find? "c" = some head ∧ outcome.2.find? "d" = some tail ∧
      cursor.Halves 106 head tail ∧
      ∃ whole, (outcome.2.apply (.concat "c" "d" none)).2.find? "c" = some whole ∧
        whole.Mirrors cursor ∧ whole.position = 103 := by
  intro outcome
  have hfound : ((run {} crossing).find? "c").map (fun cursor =>
      (cursor.view.firstPosition, cursor.position, cursor.view.stopPosition)) =
      some (102, 103, 111) := by decide +kernel
  obtain ⟨cursor, hfind, hpositions⟩ := Option.map_eq_some_iff.mp hfound
  obtain ⟨hfirst, hposition, hstop⟩ := by simpa only [Prod.mk.injEq] using hpositions
  have hfree : (run {} crossing).isLive "d" = false := by decide +kernel
  obtain ⟨-, -, -, hgranted, hhalves⟩ := split_rejoins crossing hfind hfree 106
  obtain ⟨head, tail, hhead, htail, hcut, -, -, hjoin, -⟩ := hhalves (hgranted.mpr (by omega))
  obtain ⟨whole, -, hwhole, hmirrors, hstands⟩ := hjoin none
  exact ⟨cursor, head, tail, hfind, hfirst, hposition, hstop, hhead, htail, hcut, whole, hwhole,
    hmirrors, hstands.trans hposition⟩

end World

end SharedStream
