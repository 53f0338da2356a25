import SharedStream.Proofs.Plain
import SharedStream.Proofs.Refusals
/-!
What a release is answered with. By the cursor's own positions a byte that is still ahead cannot be
released, and one before the first visible byte is released already. The answer agrees with this
but for positions before the first byte of the block: these name no inner position, and are
answered as if the byte were ahead.
-/

namespace SharedStream

/-- The position lies before the first byte of the block, as the view names it. -/
def View.Precedes (view : View) (position : Nat) : Prop := (position : Int) < view.shift.amount

instance (view : View) (position : Nat) : Decidable (view.Precedes position) :=
  inferInstanceAs (Decidable ((position : Int) < view.shift.amount))

namespace Cursor

/-- What a release through `position` should come to, going by the positions that the cursor
shows. -/
def releaseDue (cursor : Cursor) (position : Nat) : Verdict :=
  if cursor.position ≤ position then .failure [.illegalArgument]
  else if position < cursor.view.firstPosition then .failure [.notFound]
  else .answer .done

/-- What a release through `position` does come to. -/
def releaseAnswer (cursor : Cursor) (position : Nat) : Except Refusal Answer :=
  if cursor.position ≤ position ∨ cursor.view.Precedes position then
    .error (Fault.notPassed position cursor.position)
  else if position < cursor.view.firstPosition then .error (Fault.alreadyReleased position)
  else .ok .done

end Cursor

namespace View.Placed

variable {view : View} {limit position : Nat}

theorem inner?_eq_none (hprecedes : view.Precedes position) :
    view.shift.inner? position = none := by
  simp only [Precedes] at hprecedes
  simp only [Shift.inner?]
  rw [if_neg (by omega)]

/-- The inner position of a byte that the cursor has passed, visible or not. -/
theorem inner?_of_passed (h : view.Placed limit) (hlimit : limit ≤ maxOffset)
    (hpassed : position < view.position) (hnamed : ¬ view.Precedes position) :
    ∃ inner, view.shift.inner? position = some inner ∧ inner < view.current ∧
      (inner : Int) + view.shift.amount = position := by
  have hposition := h.position_eq hlimit
  have hcurrent := h.current_le
  simp only [Precedes] at hnamed
  have hinner : (((position : Int) - view.shift.amount).toNat : Int) + view.shift.amount =
      position := by omega
  exact ⟨_, h.inner?_eq_some hinner (by omega), by omega, hinner⟩

/-- Nothing that is still ahead can be released. -/
theorem firstKept_ahead (h : view.Placed limit) (hlimit : limit ≤ maxOffset)
    (hahead : view.position ≤ position) :
    view.firstKept position = .error (.notPassed position view.position) := by
  have hposition := h.position_eq hlimit
  simp only [firstKept]
  split
  · rename_i inner hinner
    obtain ⟨hname, -⟩ := (Shift.inner?_eq_some_iff ..).mp hinner
    rw [if_neg (by omega)]
  · rfl

/-- Each of the three verdicts on a release, with what calls for it. -/
theorem firstKept_cases (h : view.Placed limit) (hlimit : limit ≤ maxOffset) (position : Nat) :
    ((view.position ≤ position ∨ view.Precedes position) ∧
      view.firstKept position = .error (.notPassed position view.position)) ∨
    (position < view.position ∧ ¬ view.Precedes position ∧ position < view.firstPosition ∧
      view.firstKept position = .error (.alreadyReleased position)) ∨
    (position < view.position ∧ ¬ view.Precedes position ∧ view.firstPosition ≤ position ∧
      ∃ inner : Nat, (inner : Int) + view.shift.amount = position ∧
        view.firstKept position = .ok (inner + 1)) := by
  by_cases hahead : view.position ≤ position
  · exact Or.inl ⟨Or.inl hahead, h.firstKept_ahead hlimit hahead⟩
  · by_cases hprecedes : view.Precedes position
    · refine Or.inl ⟨Or.inr hprecedes, ?_⟩
      simp only [firstKept, inner?_eq_none hprecedes]
    · obtain ⟨inner, hinner, hpassed, hname⟩ :=
        h.inner?_of_passed hlimit (Nat.lt_of_not_le hahead) hprecedes
      have hfirst := h.firstPosition_eq hlimit
      refine Or.inr ?_
      by_cases hgone : position < view.firstPosition
      · refine Or.inl ⟨by omega, hprecedes, hgone, ?_⟩
        simp only [firstKept, hinner]
        rw [if_pos hpassed, if_pos (by omega)]
      · refine Or.inr ⟨by omega, hprecedes, by omega, inner, hname, ?_⟩
        simp only [firstKept, hinner]
        rw [if_pos hpassed, if_neg (by omega)]

end View.Placed

section Judging

variable {cursor other : Cursor} {position : Nat}

/-- A visible byte lies in the block. -/
theorem Cursor.Sound.not_precedes (h : cursor.Sound)
    (hvisible : cursor.view.firstPosition ≤ position) : ¬ cursor.view.Precedes position := by
  have hfirst := h.placed.view.firstPosition_eq h.limit_le
  have hlow := h.placed.view.low
  simp only [View.Precedes]
  omega

theorem Cursor.Sound.releaseAnswer_eq_done_iff (h : cursor.Sound) :
    cursor.releaseAnswer position = .ok .done ↔
      cursor.view.firstPosition ≤ position ∧ position < cursor.position := by
  simp only [releaseAnswer]
  split
  · rename_i hrefused
    simp only [reduceCtorEq, false_iff, not_and]
    intro hvisible
    have hnamed := h.not_precedes hvisible
    simp only [hnamed, or_false] at hrefused
    omega
  · split <;> simp <;> omega

/-- The answer is the one that is due, unless the position is released and precedes the block. -/
theorem Cursor.Sound.releaseDue_allows_iff (h : cursor.Sound) :
    (cursor.releaseDue position).Allows (cursor.releaseAnswer position) ↔
      ¬ (position < cursor.view.firstPosition ∧ cursor.view.Precedes position) := by
  have hfirst := Cursor.firstPosition_le_position h
  have hvisible := @Cursor.Sound.not_precedes cursor position h
  simp only [releaseDue, releaseAnswer]
  by_cases hahead : cursor.position ≤ position
  · have hnot : ¬ position < cursor.view.firstPosition := by omega
    simp [hahead, hnot, Verdict.Allows, Failure.kind, Fault.kind]
  · by_cases hprecedes : cursor.view.Precedes position
    · have hgone : position < cursor.view.firstPosition := by
        by_contra hnot
        exact hvisible (Nat.le_of_not_lt hnot) hprecedes
      simp [hahead, hprecedes, hgone, Verdict.Allows, Failure.kind, Fault.kind]
    · by_cases hgone : position < cursor.view.firstPosition <;>
        simp [hahead, hprecedes, hgone, Verdict.Allows, Failure.kind, Fault.kind]

/-- Between two cursors that show the same positions, the block below makes a difference to
positions that are released, and to no others. -/
theorem Cursor.Sound.releaseAnswer_eq_iff (h : cursor.Sound) (hother : other.Sound)
    (hfirst : cursor.view.firstPosition = other.view.firstPosition)
    (hposition : cursor.position = other.position) :
    cursor.releaseAnswer position = other.releaseAnswer position ↔
      (position < cursor.view.firstPosition →
        (cursor.view.Precedes position ↔ other.view.Precedes position)) := by
  have hvisible := @Cursor.Sound.not_precedes cursor position h
  have hvisibleOther := @Cursor.Sound.not_precedes other position hother
  have hle := Cursor.firstPosition_le_position h
  rw [← hfirst] at hvisibleOther
  simp only [releaseAnswer, ← hfirst, ← hposition]
  by_cases hgone : position < cursor.view.firstPosition
  · have hpassed : ¬ cursor.position ≤ position := by omega
    by_cases hone : cursor.view.Precedes position <;>
      by_cases htwo : other.view.Precedes position <;> simp [hgone, hpassed, hone, htwo]
  · have hkept := Nat.le_of_not_lt hgone
    simp [hgone, hvisible hkept, hvisibleOther hkept]

end Judging

namespace World

variable {σ : Type} [Store σ] {past : Pool σ} {world : World σ} {id : String} {cursor : Cursor}

theorem apply_release (h : Ordered past world) (hfind : world.find? id = some cursor)
    (position : Nat) :
    (world.apply (.release id position)).1 = cursor.releaseAnswer position := by
  have hsound := (h.focus hfind).1
  simp only [apply, withCursor, hfind, Pool.release, Cursor.through_eq, Cursor.releaseAnswer]
  rcases hsound.placed.view.firstKept_cases hsound.limit_le position with
    ⟨hrefused, hkept⟩ | ⟨hpassed, hnamed, hgone, hkept⟩ |
    ⟨hpassed, hnamed, hvisible, inner, -, hkept⟩
  · simp only [hkept, settleMoved]
    exact (if_pos hrefused).symm
  · have hbehind : ¬ cursor.position ≤ position := Nat.not_le_of_lt hpassed
    simp only [hkept, settleMoved, hnamed, hbehind, hgone, or_self, if_true, if_false]
  · have hbehind : ¬ cursor.position ≤ position := Nat.not_le_of_lt hpassed
    have hhere : ¬ position < cursor.view.firstPosition := Nat.not_lt_of_le hvisible
    simp only [hkept, settleMoved, hnamed, hbehind, hhere, or_self, if_false]

/-- After a release the cursor stands where it stood, over the same names, and its first visible
byte is the one after those released. -/
theorem find?_release (h : Ordered past world) (hfind : world.find? id = some cursor)
    {position : Nat} (hdone : (world.apply (.release id position)).1 = .ok .done) :
    ∃ kept, (world.apply (.release id position)).2.find? id = some kept ∧
      kept.view.shift = cursor.view.shift ∧ kept.position = cursor.position ∧
      kept.view.firstPosition = position + 1 := by
  have hsound := (h.focus hfind).1
  have hlands := apply_lands h (.release id position)
  have hcases := hsound.placed.view.firstKept_cases hsound.limit_le position
  rw [apply_release h hfind, hsound.releaseAnswer_eq_done_iff] at hdone
  rcases hcases with ⟨hrefused, -⟩ | ⟨-, -, hgone, -⟩ |
    ⟨hpassed, -, -, inner, hname, hkept⟩
  · have hnamed := hsound.not_precedes hdone.1
    simp only [hnamed, or_false, Cursor.position] at hrefused hdone
    omega
  · omega
  · obtain ⟨hplaced, -⟩ := hsound.placed.view.release hkept
    refine ⟨cursor.withView { cursor.view with first := inner + 1 }, ?_, rfl, rfl, ?_⟩
    · simp only [apply, withCursor, hfind, Pool.release, Cursor.through_eq, hkept, settleMoved]
      exact find?_update hfind _
    · have hfirst := hplaced.firstPosition_eq hsound.limit_le
      simp only [Cursor.withView] at hfirst ⊢
      omega

theorem release_refused (h : Ordered past world) {position : Nat} {refusal : Refusal}
    (hrefused : (world.apply (.release id position)).1 = .error refusal) :
    (world.apply (.release id position)).2 = world :=
  apply_spares h (.release id position) (Prod.ext hrefused rfl)

/-- The answer to a release, in any reachable world and for any cursor and position. A visible byte
that the cursor has passed can be released, and no other one. What is refused changes nothing, in
particular a second release at or before a position that is released. The refusal is of the kind
that the cursor's own positions call for, with one exception: a position before the first visible
byte that also precedes the block is refused as one that is not passed yet. Two cursors that show
the same positions get the same answer, but for the same exception. -/
theorem release_answers (operations : List (Operation σ)) :
    let world := run {} operations
    (∀ id cursor, world.find? id = some cursor → ∀ position,
      let outcome := world.apply (.release id position)
      outcome.1 = cursor.releaseAnswer position ∧
        (outcome.1 = .ok .done ↔
          cursor.view.firstPosition ≤ position ∧ position < cursor.position) ∧
        (∀ refusal, outcome.1 = .error refusal → outcome.2 = world) ∧
        ((cursor.releaseDue position).Allows outcome.1 ↔
          ¬ (position < cursor.view.firstPosition ∧ cursor.view.Precedes position)) ∧
        (outcome.1 = .ok .done → ∀ again ≤ position,
          outcome.2.apply (.release id again) =
            (.error (if cursor.view.Precedes again then Fault.notPassed again cursor.position
              else Fault.alreadyReleased again), outcome.2))) ∧
    (∀ id other cursor twin, world.find? id = some cursor → world.find? other = some twin →
      cursor.view.firstPosition = twin.view.firstPosition → cursor.position = twin.position →
      ∀ position,
        ((world.apply (.release id position)).1 = (world.apply (.release other position)).1 ↔
          (position < cursor.view.firstPosition →
            (cursor.view.Precedes position ↔ twin.view.Precedes position)))) := by
  intro world
  have h : Ordered {} world := run_empty_ordered operations
  refine ⟨?_, ?_⟩
  · intro id cursor hfind position outcome
    have hsound := (h.focus hfind).1
    have hanswer : outcome.1 = cursor.releaseAnswer position := apply_release h hfind position
    refine ⟨hanswer, ?_, fun _ hrefused => release_refused h hrefused, ?_, ?_⟩
    · rw [hanswer]
      exact hsound.releaseAnswer_eq_done_iff
    · rw [hanswer]
      exact hsound.releaseDue_allows_iff
    · intro hdone again hagain
      obtain ⟨kept, hkept, hshift, hposition, hfirst⟩ := find?_release h hfind hdone
      have hnext : Ordered {} outcome.2 := (apply_lands h _).ordered
      rw [hanswer, hsound.releaseAnswer_eq_done_iff] at hdone
      have hsecond : (outcome.2.apply (.release id again)).1 =
          .error (if cursor.view.Precedes again then Fault.notPassed again cursor.position
            else Fault.alreadyReleased again) := by
        have hsame : kept.view.Precedes again ↔ cursor.view.Precedes again := by
          simp only [View.Precedes, hshift]
        have hpassed : ¬ cursor.position ≤ again := by omega
        rw [apply_release hnext hkept, Cursor.releaseAnswer, hposition, hfirst]
        simp only [hsame, hpassed, false_or, if_pos (Nat.lt_succ_of_le hagain)]
        split <;> rfl
      exact Prod.ext hsecond (release_refused hnext hsecond)
  · intro id other cursor twin hfind hother hfirst hposition position
    rw [apply_release h hfind, apply_release h hother]
    exact (h.focus hfind).1.releaseAnswer_eq_iff (h.focus hother).1 hfirst hposition

/-- Ten bytes, and a clone of all of them from position 100 on that has passed five and released
three. -/
def renamed : List (Operation MemoryStore) :=
  [.build "a" { store := ⟨.cyclic 10⟩, settings := .compact }, .cloneAt "a" "b" 100,
    .setPosition "b" 105, .release "b" 102]

/-- A second release before a released position is refused in two ways: at 101 for what is released
already, but at 99 for not being before the current position 105. -/
theorem release_answers_renamed :
    let world := run {} renamed
    ∃ cursor, world.find? "b" = some cursor ∧ cursor.view.firstPosition = 103 ∧
      cursor.position = 105 ∧
      (world.apply (.release "b" 101)).1 = .error (Fault.alreadyReleased 101) ∧
      (world.apply (.release "b" 99)).1 = .error (Fault.notPassed 99 105) ∧
      ¬ (cursor.releaseDue 99).Allows (world.apply (.release "b" 99)).1 := by
  intro world
  have hfound : ((run {} renamed).find? "b").map (fun cursor =>
      (cursor.view.firstPosition, cursor.position)) = some (103, 105) := by decide +kernel
  have hsecond : ((run {} renamed).apply (.release "b" 101)).1 =
      .error (Fault.alreadyReleased 101) := by decide +kernel
  have hanswer : ((run {} renamed).apply (.release "b" 99)).1 =
      .error (Fault.notPassed 99 105) := by decide +kernel
  obtain ⟨cursor, hfind, hpositions⟩ := Option.map_eq_some_iff.mp hfound
  obtain ⟨hfirst, hposition⟩ := Prod.mk.inj hpositions
  refine ⟨cursor, hfind, hfirst, hposition, hsecond, hanswer, ?_⟩
  rw [hanswer, Cursor.releaseDue, hfirst, hposition]
  simp [Verdict.Allows, Failure.kind, Fault.kind]

end World

end SharedStream
