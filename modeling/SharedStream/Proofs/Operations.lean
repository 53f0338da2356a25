import SharedStream.Cursor.Making
import SharedStream.Proofs.Geometry
import SharedStream.Proofs.Keeping
import SharedStream.Proofs.Recursion
/-!
One lemma for each operation on cursors. An operation that is refused changes no page. One that is
granted gives a sound cursor and keeps the pool, with the new cursor among the holders.
-/

namespace SharedStream

variable {σ : Type} [Store σ]

theorem View.wanted_some {view : View} {capacity wanted : Nat}
    (hwanted : view.wanted capacity = .ok (some wanted)) :
    0 < wanted ∧ wanted = min capacity view.remaining := by
  unfold View.wanted at hwanted
  split at hwanted
  · cases hwanted
  · split at hwanted
    · cases hwanted
    · obtain rfl := Option.some.inj (Except.ok.inj hwanted)
      refine ⟨?_, rfl⟩
      simp only [View.remaining]
      omega

theorem View.wanted_error {view : View} {capacity : Nat} {fault : Fault}
    (hwanted : view.wanted capacity = .error fault) : capacity = 0 ∧ fault = .emptyBuffer := by
  unfold View.wanted at hwanted
  split at hwanted
  · exact ⟨‹_›, (Except.error.inj hwanted).symm⟩
  · split at hwanted <;> cases hwanted

/-- A store may be exposed if its length is a position that its settings allow. -/
theorem Blueprint.check_ok {plan : Blueprint σ} {length : Nat} (hcheck : plan.check = .ok length) :
    length = Store.length plan.store ∧ 0 < length ∧ length ≤ plan.settings.limit := by
  unfold Blueprint.check at hcheck
  split at hcheck
  · cases hcheck
  · dsimp only at hcheck
    split at hcheck
    · cases hcheck
    · split at hcheck
      · cases hcheck
      · obtain rfl := Except.ok.inj hcheck
        omega

theorem Blueprint.check_error {plan : Blueprint σ} {fault : Fault}
    (hcheck : plan.check = .error fault) :
    (fault = .zeroLimit ∨ fault = .emptyStore (Store.name plan.store) ∨
        fault = .storeTooLong (Store.length plan.store) plan.settings.limit) ∧
      ¬ (0 < plan.settings.limit ∧ 0 < Store.length plan.store ∧
        Store.length plan.store ≤ plan.settings.limit) := by
  unfold Blueprint.check Settings.validate at hcheck
  split at hcheck
  · rename_i hvalid
    split at hvalid
    · cases hvalid
      exact ⟨Or.inl (Except.error.inj hcheck).symm, by omega⟩
    · cases hvalid
  · dsimp only at hcheck
    split at hcheck
    · exact ⟨Or.inr (Or.inl (Except.error.inj hcheck).symm), by omega⟩
    · split at hcheck
      · exact ⟨Or.inr (Or.inr (Except.error.inj hcheck).symm), by omega⟩
      · cases hcheck

namespace Backend

/-- A read that succeeds delivers something, and not more than was asked for. -/
theorem readBlock_length {backend after : Backend σ} {ledger : Ledger} {block : Block}
    {position wanted : Nat} {bytes : List UInt8} (hwanted : 0 < wanted)
    (hread : backend.readBlock ledger block position wanted = (.ok bytes, after)) :
    0 < bytes.length ∧ bytes.length ≤ wanted := by
  cases block with
  | source header store =>
      simp only [readBlock, ask] at hread
      split at hread
      · simp at hread
      · rename_i reply _ _
        split at hread
        · simp at hread
        · rename_i hcount
          obtain ⟨rfl, -⟩ := Prod.mk.inj hread |>.imp_left Except.ok.inj
          rw [Reply.length_front]
          omega
  | composed header joint left right =>
      obtain ⟨hanswer, -⟩ := @readComposed_collect _ _ _ _ _ ledger (Alike.refl backend) header
        joint left right position wanted
      have hfills := @collect_fills _ _ ledger (.composed header joint left right) backend position
        wanted hwanted
      simp only [readBlock] at hread
      split at hread
      · simp at hread
      · rename_i got _ hgot
        rw [hgot] at hanswer
        split at hread
        · simp at hread
        · obtain ⟨rfl, -⟩ := Prod.mk.inj hread |>.imp_left Except.ok.inj
          exact length_of_answer hfills hwanted hanswer.symm

end Backend

theorem Cursor.reset_ok {cursor moved : Cursor} (hreset : cursor.reset = .ok moved) :
    ∃ view, cursor.view.reset = .ok view ∧ moved = cursor.withView view := by
  simp only [reset, through_eq] at hreset
  cases hview : cursor.view.reset with
  | error fault =>
      rw [hview] at hreset
      cases hreset
  | ok view =>
      rw [hview] at hreset
      exact ⟨view, rfl, (Except.ok.inj hreset).symm⟩

theorem Cursor.reset_error {cursor : Cursor} {fault : Fault}
    (hreset : cursor.reset = .error fault) : fault = .everythingReleased := by
  simp only [reset, through_eq] at hreset
  cases hview : cursor.view.reset with
  | error refused =>
      rw [hview] at hreset
      obtain rfl := Except.error.inj hreset
      exact View.reset_error hview
  | ok view =>
      rw [hview] at hreset
      cases hreset

namespace Cursor

variable {cursor : Cursor}

/-- A cursor that moves forward in its window stays sound. -/
theorem Sound.advance (h : cursor.Sound) {count : Nat} (hcount : count ≤ cursor.remaining) :
    (cursor.advance count).Sound := by
  have hfirst := h.placed.view.first_le
  have hcurrent := h.placed.view.current_le
  simp only [remaining, View.remaining] at hcount
  exact h.withView (h.placed.view.standing (by omega) (by omega)) (Extent.Within.refl _)

theorem Sound.position_advance (h : cursor.Sound) {count : Nat}
    (hcount : count ≤ cursor.remaining) :
    (cursor.advance count).position = cursor.position + count := by
  have hmoved := (h.advance hcount).placed.view.position_eq h.limit_le
  have hposition := h.placed.view.position_eq h.limit_le
  simp only [position, Cursor.advance, Cursor.withView] at hmoved ⊢
  omega

theorem Sound.remaining_advance (h : cursor.Sound) (count : Nat) :
    (cursor.advance count).remaining = cursor.remaining - count := by
  have hcurrent := h.placed.view.current_le
  simp only [remaining, View.remaining, Cursor.advance, Cursor.withView]
  omega

theorem advance_advance (cursor : Cursor) (count more : Nat) :
    (cursor.advance count).advance more = cursor.advance (count + more) := by
  simp only [advance, withView, Nat.add_assoc]

end Cursor

/-- The cursor that a concatenation gives: it stands where `head` stood, over a block of `head` and
a clone of what is before `other`. -/
def Cursor.joined (head other : Cursor) (header : Header) : Cursor :=
  let boundary := head.view.stopPosition
  let tail : View :=
    ⟨.placing other.view.current boundary, other.view.current, other.view.current,
      other.view.stop⟩
  let joint : Joint :=
    ⟨head.view.firstPosition, boundary, boundary + other.remaining, head.view, tail⟩
  ⟨.composed header joint head.block other.block,
    ⟨.zero, joint.start, head.position, joint.stop⟩⟩

theorem Cursor.joined_sound {head other : Cursor} {header : Header} (hhead : head.Sound)
    (hother : other.Sound) (hsettings : header.settings = head.block.settings)
    (hlimit : head.view.stopPosition + other.remaining ≤ head.block.settings.limit)
    (hfits : head.view.stopPosition + other.remaining ≤ other.block.settings.limit) :
    (head.joined other header).Sound := by
  have hclone : other.view.cloneAt other.block.settings.limit head.view.stopPosition =
      .ok ⟨.placing other.view.current head.view.stopPosition, other.view.current,
        other.view.current, other.view.stop⟩ := if_pos hfits
  obtain ⟨hplaced, hwithin⟩ := hother.placed.view.cloneAt hclone
  have hcurrent := hother.placed.view.current_le
  apply Cursor.join_sound hhead (hother.withView hplaced hwithin) ?_ ?_ hsettings hlimit
  · simp only [Cursor.withView, Shift.placing]
    omega
  · simp only [Cursor.withView, Shift.placing, Cursor.remaining, View.remaining]
    omega

namespace Pool

/-- What an operation comes to. Refused, it leaves the holders and every page as they were.
Granted, it gives a sound cursor that holds its block beside `rest`. -/
def Grants {ε : Type} (past : Pool σ) (ledger : Ledger) (held rest : List Hold) :
    Except ε Cursor × Pool σ → Prop
  | (.error _, pool) => past.Kept pool held ∧ pool.ledger = ledger
  | (.ok cursor, pool) => cursor.Sound ∧ past.Kept pool (cursor.hold :: rest)

theorem Grants.evolves {ε : Type} {past : Pool σ} {ledger : Ledger} {held rest : List Hold}
    {outcome : Except ε Cursor × Pool σ} (h : past.Grants ledger held rest outcome) :
    past.backend.Evolves outcome.2.backend := by
  obtain ⟨made, pool⟩ := outcome
  cases made with
  | error error => exact h.1.since.stores
  | ok cursor => exact h.2.since.stores

theorem splitCheck_ok {view : View} {position : Nat} (hcheck : view.splitCheck position = .ok ()) :
    view.position < position ∧ position < view.position + view.remaining := by
  unfold View.splitCheck at hcheck
  dsimp only at hcheck
  split at hcheck
  · cases hcheck
  · split at hcheck
    · cases hcheck
    · split at hcheck
      · cases hcheck
      · omega

omit [Store σ] in
theorem seek_eq {cursor : Cursor} {position inner : Nat} (pool : Pool σ)
    (hinner : cursor.view.shift.inner? position = some inner) (hfirst : cursor.view.first ≤ inner)
    (hstop : inner ≤ cursor.view.stop) :
    pool.seek cursor position =
      (.ok (cursor.withView { cursor.view with current := inner }),
        pool.log (.positionSet position)) := by
  simp only [seek, Cursor.through_eq, View.seek, hinner]
  rw [if_pos ⟨hfirst, hstop⟩]

section Outcomes

variable {pool : Pool σ} {cursor moved : Cursor} {position : Nat} {fault : Fault}

omit [Store σ] in
theorem seek_ok (hseek : (pool.seek cursor position).1 = .ok moved) :
    ∃ view, cursor.view.seek position = .ok view ∧ moved = cursor.withView view := by
  simp only [seek, Cursor.through_eq] at hseek
  split at hseek
  · cases hseek
  · exact ⟨_, ‹_›, (Except.ok.inj hseek).symm⟩

omit [Store σ] in
theorem seek_error (hseek : (pool.seek cursor position).1 = .error fault) :
    fault = .outsideView position cursor.view.firstPosition cursor.view.stopPosition := by
  simp only [seek, Cursor.through_eq] at hseek
  split at hseek
  · obtain rfl := Except.error.inj hseek
    exact View.seek_error ‹_›
  · cases hseek

theorem release_ok (hrelease : (pool.release cursor position).1 = .ok moved) :
    ∃ first, cursor.view.firstKept position = .ok first ∧
      moved = cursor.withView { cursor.view with first } := by
  simp only [release, Cursor.through_eq] at hrelease
  split at hrelease
  · cases hrelease
  · exact ⟨_, ‹_›, (Except.ok.inj hrelease).symm⟩

theorem release_error (hrelease : (pool.release cursor position).1 = .error fault) :
    cursor.view.firstKept position = .error fault := by
  simp only [release, Cursor.through_eq] at hrelease
  split at hrelease
  · obtain rfl := Except.error.inj hrelease
    assumption
  · cases hrelease

end Outcomes

/-- A hold that is taken and let go again leaves no trace. -/
theorem letGo_retain {pool : Pool σ} {ledger : Ledger} {block : Block} {page : Page}
    (hpage : ledger.get? block.number = some page) (hpos : 0 < page.refs)
    (hledger : pool.ledger = ledger.retain block.number) :
    pool.letGo block = { pool with ledger } := by
  have hcopied : pool.ledger.get? block.number = some { page with refs := page.refs + 1 } := by
    rw [hledger]
    exact Ledger.get?_modify_self hpage _
  have hback : pool.ledger.modify block.number (fun p => { p with refs := p.refs - 1 }) =
      ledger := by
    rw [hledger, Ledger.retain, Ledger.modify_modify]
    exact ledger.modify_id block.number
  simp only [letGo, unhold, hcopied]
  rw [if_neg (by omega), disposeAll_nil, hback]

theorem cloneAt_eq {cursor : Cursor} {offset : Nat} (pool : Pool σ)
    (hfits : offset + cursor.view.remaining ≤ cursor.block.settings.limit) :
    (pool.cloneAt cursor offset).1 =
      .ok (cursor.withView ⟨.placing cursor.view.current offset, cursor.view.current,
        cursor.view.current, cursor.view.stop⟩) := by
  simp only [cloneAt, Cursor.through_eq, View.cloneAt]
  rw [if_pos hfits]

theorem cloneAt_ok {pool next : Pool σ} {cursor clone : Cursor} {offset : Nat}
    (hclone : pool.cloneAt cursor offset = (.ok clone, next)) :
    offset + cursor.remaining ≤ cursor.block.settings.limit ∧
      clone = cursor.withView ⟨.placing cursor.view.current offset, cursor.view.current,
        cursor.view.current, cursor.view.stop⟩ := by
  simp only [cloneAt, Cursor.through_eq] at hclone
  split at hclone
  · cases hclone
  · rename_i view hview
    obtain ⟨hfits, rfl⟩ := View.cloneAt_ok hview
    obtain ⟨rfl, -⟩ := (Prod.mk.inj hclone).imp_left Except.ok.inj
    exact ⟨hfits, rfl⟩

theorem cloneAt_error {pool : Pool σ} {cursor : Cursor} {offset : Nat} {fault : Fault}
    (hclone : (pool.cloneAt cursor offset).1 = .error fault) :
    fault = .cloneOverflow offset cursor.remaining cursor.block.settings.limit ∧
      cursor.block.settings.limit < offset + cursor.remaining := by
  simp only [cloneAt, Cursor.through_eq] at hclone
  split at hclone
  · rename_i hview
    obtain rfl := Except.error.inj hclone
    exact View.cloneAt_error hview
  · cases hclone

theorem concat_eq (pool : Pool σ) (head other : Cursor) (hook : Option Hook) :
    let copied : Pool σ := { pool with ledger := pool.ledger.retain head.block.number }
    (pool.concat head other hook).1 = (copied.join head other hook).1 ∧
      (pool.concat head other hook).2 = (copied.join head other hook).2.letGo head.block :=
  ⟨rfl, rfl⟩

/-- Two cursors are joined if all positions are allowed, by the limits of both sides. -/
theorem join_ok {pool : Pool σ} {head other cursor : Cursor} {hook : Option Hook}
    (hjoin : (pool.join head other hook).1 = .ok cursor) :
    head.view.stopPosition + other.remaining ≤ head.block.settings.limit ∧
      head.view.stopPosition + other.remaining ≤ other.block.settings.limit ∧
      ∃ number, cursor = head.joined other ⟨number, head.block.settings, none, hook⟩ := by
  simp only [join, Cursor.through_eq] at hjoin
  split at hjoin
  · rename_i hlimit
    split at hjoin
    · cases hjoin
    · rename_i hmade
      obtain ⟨hfits, rfl⟩ := cloneAt_ok hmade
      obtain rfl := Except.ok.inj hjoin
      exact ⟨hlimit, hfits, _, rfl⟩
  · cases hjoin

/-- Two cursors are not joined if one side does not allow the positions. The head is asked first. -/
theorem join_error {pool : Pool σ} {head other : Cursor} {hook : Option Hook} {fault : Fault}
    (hjoin : (pool.join head other hook).1 = .error fault) :
    fault = .concatOverflow head.view.stopPosition other.remaining head.block.settings.limit ∧
        head.block.settings.limit < head.view.stopPosition + other.remaining ∨
      fault = .cloneOverflow head.view.stopPosition other.remaining other.block.settings.limit ∧
        head.view.stopPosition + other.remaining ≤ head.block.settings.limit ∧
        other.block.settings.limit < head.view.stopPosition + other.remaining := by
  simp only [join, Cursor.through_eq] at hjoin
  split at hjoin
  · rename_i hlimit
    split at hjoin
    · rename_i hmade
      obtain rfl := Except.error.inj hjoin
      obtain ⟨hfault, hover⟩ := cloneAt_error (congrArg Prod.fst hmade)
      exact Or.inr ⟨hfault, hlimit, hover⟩
    · cases hjoin
  · rename_i hlimit
    exact Or.inl ⟨(Except.error.inj hjoin).symm, Nat.lt_of_not_le hlimit⟩

theorem concat_ok {pool next : Pool σ} {head other cursor : Cursor} {hook : Option Hook}
    (hconcat : pool.concat head other hook = (.ok cursor, next)) :
    head.view.stopPosition + other.remaining ≤ head.block.settings.limit ∧
      head.view.stopPosition + other.remaining ≤ other.block.settings.limit ∧
      ∃ number, cursor = head.joined other ⟨number, head.block.settings, none, hook⟩ := by
  have hjoin := (pool.concat_eq head other hook).1
  rw [hconcat] at hjoin
  exact join_ok hjoin.symm

/-- A read that is granted moves the cursor over the bytes that it delivers. -/
theorem read_ok {pool next : Pool σ} {cursor moved : Cursor} {capacity : Nat} {result : ReadResult}
    (hread : pool.read cursor capacity = (.ok (result, moved), next)) :
    moved = cursor.advance result.bytes.length ∧ result.bytes.length ≤ cursor.remaining := by
  simp only [read, Cursor.through_eq] at hread
  split at hread
  · cases hread
  · obtain ⟨rfl, rfl⟩ := Prod.mk.inj (Except.ok.inj (Prod.mk.inj hread).1)
    exact ⟨rfl, Nat.zero_le _⟩
  · rename_i wanted hwanted
    split at hread
    · cases hread
    · rename_i hmade
      obtain ⟨hpos, hless⟩ := View.wanted_some hwanted
      have hcount := (Backend.readBlock_length hpos hmade).2
      obtain ⟨rfl, rfl⟩ := Prod.mk.inj (Except.ok.inj (Prod.mk.inj hread).1)
      refine ⟨rfl, ?_⟩
      simp only [ReadResult.bytes, Cursor.remaining]
      omega

/-- What a split has done when the tail is cloned at `position`, where the cursor went for it as
`moved`, and the cursor has gone back. -/
def beforeCut (pool : Pool σ) (cursor moved : Cursor) (position : Nat) : Pool σ :=
  ((pool.log (.positionSet position)).cloneAt moved position).2.log (.positionSet cursor.position)

namespace Kept

variable {past pool : Pool σ} {held rest : List Hold} {cursor : Cursor}

theorem seek (h : past.Kept pool (cursor.hold :: rest)) (hsound : cursor.Sound) (position : Nat) :
    past.Grants pool.ledger (cursor.hold :: rest) rest (pool.seek cursor position) := by
  simp only [Pool.seek, Cursor.through_eq]
  cases hseek : cursor.view.seek position with
  | error fault => exact ⟨h, rfl⟩
  | ok view =>
      obtain ⟨hplaced, hextent⟩ := hsound.placed.view.seek hseek
      refine ⟨hsound.withView hplaced (.of_eq hextent), ?_⟩
      have hhold : (cursor.withView view).hold = cursor.hold := by
        simp [Cursor.hold, Cursor.withView, Cursor.extent, hextent]
      rw [hhold]
      exact h.log rfl rfl

theorem reset (h : past.Kept pool (cursor.hold :: rest)) (hsound : cursor.Sound) :
    past.Grants pool.ledger (cursor.hold :: rest) rest (cursor.reset, pool) := by
  simp only [Cursor.reset, Cursor.through_eq]
  cases hreset : cursor.view.reset with
  | error fault => exact ⟨h, rfl⟩
  | ok view =>
      obtain ⟨hplaced, hextent⟩ := hsound.placed.view.reset hreset
      refine ⟨hsound.withView hplaced (.of_eq hextent), ?_⟩
      have hhold : (cursor.withView view).hold = cursor.hold := by
        simp [Cursor.hold, Cursor.withView, Cursor.extent, hextent]
      rw [hhold]
      exact h

theorem build (h : past.Kept pool held) (plan : Blueprint σ) :
    past.Grants pool.ledger held held (pool.build plan) := by
  unfold Pool.build
  cases hcheck : plan.check with
  | error fault =>
      refine ⟨⟨h.balanced, h.told.discardStore plan.store, h.since.trans ⟨?_, ?_⟩⟩, rfl⟩
      · exact ⟨_, (Backend.Replays.add _ _).trans (Backend.Replays.drop _ _)⟩
      · exact fun hpage => ⟨_, hpage, rfl, fun _ hzero => hzero⟩
  | ok length =>
      obtain ⟨-, hpos, hlimit⟩ := Blueprint.check_ok hcheck
      refine ⟨⟨trivial, View.whole_placed hlimit plan.settings.limit_le, trivial⟩, ?_⟩
      refine Kept.add (by simpa [Page.spans, Page.span, Page.slot, Slot.vacant] using h)
        rfl rfl ?_ ?_ ?_ ?_ ?_ ?_
      · intro side
        cases side <;> simp [Page.slot, Block.slotRange, Slot.ofNeeded]
      · intro side child hchild
        cases hchild
      · exact ⟨_, (Backend.Replays.add _ _).trans (.log _ rfl)⟩
      · simp [Backend.log, Backend.add]
      · intro store
        simp [Block.store?, Backend.log, Backend.add]
        omega
      · exact ⟨[_], by simp [Backend.log, Backend.add]; rfl,
          by simp [Event.isQuiet, Event.isEnding]⟩

theorem advised (h : past.Kept pool held) (block : Block) (released : Extent) :
    past.Kept (pool.adviseBelow block released) held := by
  obtain ⟨hledger, hadvice⟩ := pool.adviseBelow_advises block released
  have hkept := h.quiet (hadvice.mono Event.isQuiet_of_isAdvice)
  rwa [← hledger] at hkept

/-- The stores hear of a release before the holder's extent shrinks. -/
theorem release (h : past.Kept pool (cursor.hold :: rest)) (hsound : cursor.Sound)
    (position : Nat) :
    past.Grants pool.ledger (cursor.hold :: rest) rest (pool.release cursor position) := by
  simp only [Pool.release, Cursor.through_eq]
  cases hkept : cursor.view.firstKept position with
  | error fault => exact ⟨h, rfl⟩
  | ok first =>
      obtain ⟨hplaced, hwithin⟩ := hsound.placed.view.release hkept
      refine ⟨hsound.withView hplaced hwithin, ?_⟩
      exact (h.advised cursor.block ⟨cursor.view.first, first⟩).narrow fun range =>
        hwithin.overlaps

omit [Store σ] in
/-- What a clone is going to see, the cursor that it is cloned from sees already. -/
theorem seen_of_clone {ledger : Ledger} {extent : Extent} (hmem : cursor.hold ∈ held)
    (hwithin : extent.Within cursor.extent) (side : Side)
    (hoverlap : extent.overlaps (cursor.block.slotRange side) = true) :
    0 < ledger.tally (⟨cursor.block, .empty⟩ :: held)
      (Hold.sees cursor.block.number (cursor.block.slotRange side)) := by
  have hcounts : ledger.Counts (⟨cursor.block, .empty⟩ :: held) cursor.hold :=
    Or.inl (List.mem_cons_of_mem _ hmem)
  apply hcounts.tally_pos
  simp only [Hold.sees, Hold.on, Cursor.hold_block, beq_self_eq_true, Bool.true_and]
  exact hwithin.overlaps hoverlap

/-- A clone sees no more than the cursor that it is cloned from, which is counted already. -/
theorem cloneAt (h : past.Kept pool held) (hmem : cursor.hold ∈ held) (hsound : cursor.Sound)
    (offset : Nat) : past.Grants pool.ledger held held (pool.cloneAt cursor offset) := by
  simp only [Pool.cloneAt, Cursor.through_eq]
  cases hclone : cursor.view.cloneAt cursor.block.settings.limit offset with
  | error fault => exact ⟨h, rfl⟩
  | ok view =>
      obtain ⟨hplaced, hwithin⟩ := hsound.placed.view.cloneAt hclone
      exact ⟨hsound.withView hplaced hwithin,
        (h.retain hmem rfl).resize (seen_of_clone hmem hwithin)⟩

/-- A child that the new composition does not see goes at once. -/
theorem keepIf {needed : Bool} (h : past.Kept pool (cursor.hold :: held)) :
    past.Kept (pool.keepIf needed cursor)
      ((if needed then [cursor.hold] else []) ++ held) := by
  unfold Pool.keepIf
  cases needed with
  | true => exact h
  | false =>
      simp only [Bool.false_eq_true, if_false, abandon_eq]
      exact h.dispose

theorem perm_third {α : Type} (front : List α) (first second : α) (back : List α) :
    (front ++ first :: second :: back).Perm (second :: (front ++ first :: back)) := by
  have hmiddle := @List.perm_middle _ second (front ++ [first]) back
  simpa using hmiddle

/-- The new block takes over both cursors, as far as it sees them. -/
theorem compose {head tail : Cursor} {joint : Joint} (hook : Option Hook)
    (h : past.Kept pool (⟨head.block, .empty⟩ :: head.hold :: tail.hold :: rest))
    (hleft : joint.leftView = head.view) (hright : joint.rightView = tail.view)
    (htail : ∃ hold ∈ rest, hold.block = tail.block) :
    past.Kept (pool.compose head tail joint hook).2
      (⟨head.block, .empty⟩ :: (pool.compose head tail joint hook).1.hold :: rest) := by
  let kept (needed : Bool) (cursor : Cursor) : List Hold := if needed then [cursor.hold] else []
  let blind : Hold := ⟨head.block, .empty⟩
  have hfirst : past.Kept _ (kept (joint.whole.overlaps (joint.range .left)) head ++
      blind :: tail.hold :: rest) := (h.perm (List.Perm.swap ..)).keepIf
  have hsecond : past.Kept _ (kept (joint.whole.overlaps (joint.range .right)) tail ++
      (kept (joint.whole.overlaps (joint.range .left)) head ++ blind :: rest)) :=
    (hfirst.perm (perm_third _ blind tail.hold rest)).keepIf
  have hattached : ∀ needed, (Slot.ofNeeded needed).attached = needed := by
    intro needed
    cases needed <;> rfl
  have hspans : ∀ (header : Header) (refs : Nat),
      (Page.spans ⟨.composed header joint head.block tail.block, refs,
        .ofNeeded (joint.whole.overlaps (joint.range .left)),
        .ofNeeded (joint.whole.overlaps (joint.range .right))⟩).map Cursor.hold =
      kept (joint.whole.overlaps (joint.range .left)) head ++
        kept (joint.whole.overlaps (joint.range .right)) tail := by
    intro header refs
    simp only [Page.spans, Page.span, Page.slot, hattached, Block.child?, Option.toList_some,
      Joint.child, hleft, hright, List.map_append, kept]
    split <;> split <;> rfl
  unfold Pool.compose
  dsimp only
  generalize @Pool.keepIf σ _ _ (joint.whole.overlaps (joint.range .right)) tail = middle
    at hsecond ⊢
  let header : Header := ⟨middle.ledger.fresh, head.block.settings, none, hook⟩
  let page : Page :=
    ⟨.composed header joint head.block tail.block, 1,
      .ofNeeded (joint.whole.overlaps (joint.range .left)),
      .ofNeeded (joint.whole.overlaps (joint.range .right))⟩
  have hadd : past.Kept ⟨middle.ledger.add page, middle.backend⟩
      (⟨page.block, joint.whole⟩ :: blind :: rest) := by
    refine Kept.add (hsecond.perm ?_) rfl rfl ?slot ?child (.refl _) (Nat.le_refl _) ?store
      ⟨[], by simp, by simp⟩
    case slot =>
      intro side
      cases side <;> rfl
    case child =>
      intro side child hchild
      cases side with
      | left =>
          cases hchild
          exact hsecond.balanced.known blind (by simp)
      | right =>
          cases hchild
          obtain ⟨hold, hmem, hsame⟩ := htail
          have hknown := hsecond.balanced.known hold (by simp [hmem])
          rw [hsame] at hknown
          exact hknown
    case store =>
      intro store
      simp only [page, Block.store?, reduceCtorEq, false_iff]
      omega
    · rw [hspans, List.append_assoc]
      exact List.perm_append_comm_assoc ..
  exact hadd.perm (List.Perm.swap ..)

/-- Joining needs a second hold on the head's block, which the new block takes over. -/
theorem join {head other : Cursor}
    (h : past.Kept pool (⟨head.block, .empty⟩ :: head.hold :: rest))
    (hhead : head.Sound) (hmem : other.hold ∈ rest) (hother : other.Sound) (hook : Option Hook) :
    past.Grants pool.ledger (⟨head.block, .empty⟩ :: head.hold :: rest)
      (⟨head.block, .empty⟩ :: rest) (pool.join head other hook) := by
  simp only [Pool.join, Cursor.through_eq]
  split
  · rename_i hlimit
    have hheld := List.mem_cons_of_mem ⟨head.block, .empty⟩
      (List.mem_cons_of_mem head.hold hmem)
    have hclone := h.cloneAt hheld hother head.view.stopPosition
    cases hmade : pool.cloneAt other head.view.stopPosition with
    | mk made cloned =>
        rw [hmade] at hclone
        cases made with
        | error fault => exact hclone
        | ok tail =>
            obtain ⟨-, hkept⟩ := hclone
            obtain ⟨hfits, rfl⟩ := cloneAt_ok hmade
            refine ⟨Cursor.joined_sound hhead hother rfl hlimit hfits, ?_⟩
            let tail := other.withView ⟨.placing other.view.current head.view.stopPosition,
              other.view.current, other.view.current, other.view.stop⟩
            let joint : Joint := ⟨head.view.firstPosition, head.view.stopPosition,
              head.view.stopPosition + other.remaining, head.view, tail.view⟩
            have hordered : past.Kept cloned (⟨head.block, .empty⟩ :: head.hold :: tail.hold ::
                rest) := hkept.perm ((List.Perm.swap ..).trans ((List.Perm.swap ..).cons _))
            have hjoined : past.Kept (cloned.compose head tail joint hook).2 _ :=
              hordered.compose hook rfl rfl ⟨other.hold, hmem, rfl⟩
            exact (hjoined.perm (List.Perm.swap ..)).log rfl rfl
  · exact ⟨h, rfl⟩

/-- The head's block lives on as a child, and the cursor moves over to the new block. If the two
cannot be joined, nothing is left of the copy of the head. -/
theorem concat {head other : Cursor} (h : past.Kept pool (head.hold :: rest))
    (hhead : head.Sound) (hmem : other.hold ∈ rest) (hother : other.Sound) (hook : Option Hook) :
    past.Grants pool.ledger (head.hold :: rest) rest (pool.concat head other hook) := by
  obtain ⟨page, hpage, -, hpos⟩ := h.balanced.page_of_mem (List.mem_cons_self ..)
  have hcopied := h.retain (List.mem_cons_self ..) (Cursor.hold_block head)
  have hjoin := hcopied.join hhead hmem hother hook
  simp only [Pool.concat]
  cases hmade : Pool.join { pool with ledger := pool.ledger.retain head.block.number } head other
      hook with
  | mk made joined =>
      rw [hmade] at hjoin
      cases made with
      | error fault =>
          have hback : joined.letGo head.block = _ := letGo_retain hpage hpos hjoin.2
          exact ⟨hjoin.1.letGo, by rw [hback]⟩
      | ok cursor => exact ⟨hjoin.1, (hjoin.2.perm (List.Perm.swap ..)).letGo⟩

/-- Whatever the stores answer, a read moves the cursor over what it delivers and no further. -/
theorem read (h : past.Kept pool (cursor.hold :: rest)) (hsound : cursor.Sound) (capacity : Nat) :
    past.Grants pool.ledger (cursor.hold :: rest) rest
      ((pool.read cursor capacity).1.map Prod.snd, (pool.read cursor capacity).2) := by
  simp only [Pool.read, Cursor.through_eq]
  cases hwanted : cursor.view.wanted capacity with
  | error fault => exact ⟨h, rfl⟩
  | ok wanted =>
      cases wanted with
      | none => exact ⟨hsound, h⟩
      | some wanted =>
          obtain ⟨hpos, hless⟩ := View.wanted_some hwanted
          have hquiet := pool.backend.readBlock_quiet pool.ledger cursor.block cursor.view.current
            wanted
          cases hread : pool.backend.readBlock pool.ledger cursor.block
            cursor.view.current wanted with
          | mk answer backend =>
              rw [hread] at hquiet
              cases answer with
              | error error =>
                  simp only [hread, Except.map]
                  exact ⟨h.quiet hquiet, rfl⟩
              | ok bytes =>
                  simp only [hread, Except.map]
                  obtain ⟨-, hcount⟩ := Backend.readBlock_length hpos hread
                  refine ⟨hsound.advance ?_, ?_⟩
                  · simp only [Cursor.remaining]
                    omega
                  exact (h.quiet hquiet).log (cursor.block.readEvent_store? _ _)
                    (cursor.block.readEvent_isQuiet _ _)

/-- Once a split is allowed, nothing in it can go wrong: the cursor stands on its own bytes all the
way, and the tail keeps its names. What is left to do then is to cut the head. -/
theorem split_start (h : past.Kept pool (cursor.hold :: rest)) (hsound : cursor.Sound)
    {position : Nat} (hcheck : cursor.view.splitCheck position = .ok ()) :
    ∃ (inner : Nat) (moved head tail : Cursor) (front back : Nat),
      (inner : Int) + cursor.view.shift.amount = position ∧
      cursor.view.current < inner ∧ inner < cursor.view.stop ∧
      moved = cursor.withView { cursor.view with current := inner } ∧
      head = cursor.withView { cursor.view with stop := inner } ∧
      tail = cursor.withView ⟨.placing inner position, inner, inner, cursor.view.stop⟩ ∧
      pool.split cursor position = (.ok (head, tail),
        ((pool.beforeCut cursor moved position).resize cursor.block cursor.extent head.extent).log
          (.streamSplit position front back)) ∧
      head.Sound ∧ tail.Sound ∧
      past.Kept (pool.beforeCut cursor moved position) (cursor.hold :: tail.hold :: rest) := by
  obtain ⟨hafter, hbefore⟩ := splitCheck_ok hcheck
  have hplaced := hsound.placed.view
  have hname := hplaced.position_eq hsound.limit_le
  have hfirst := hplaced.first_le
  have hcurrent := hplaced.current_le
  simp only [View.remaining] at hbefore
  let inner := cursor.view.current + (position - cursor.view.position)
  have hinner : (inner : Int) + cursor.view.shift.amount = position := by omega
  let moved := cursor.withView { cursor.view with current := inner }
  have hseek : pool.seek cursor position = (.ok moved, pool.log (.positionSet position)) :=
    pool.seek_eq (hplaced.inner?_eq_some hinner (by omega)) (by omega) (by omega)
  have hmoved : past.Kept (pool.log (.positionSet position)) (cursor.hold :: rest) :=
    h.log rfl rfl
  have hmovedSound : moved.Sound :=
    hsound.withView (hplaced.standing (by omega) (by omega)) (Extent.Within.refl _)
  let tail := cursor.withView ⟨.placing inner position, inner, inner, cursor.view.stop⟩
  have hfits : position + moved.view.remaining ≤ moved.block.settings.limit := by
    have hhigh := hplaced.high
    simp only [moved, Cursor.withView, View.remaining]
    omega
  have hmem : moved.hold ∈ cursor.hold :: rest := List.mem_cons_self ..
  have hclone := hmoved.cloneAt hmem hmovedSound position
  cases hmade : (pool.log (.positionSet position)).cloneAt moved position with
  | mk made cloned =>
      have hmadeTail : made = .ok tail := by
        have heq := (pool.log (.positionSet position)).cloneAt_eq hfits
        rw [hmade] at heq
        exact heq
      subst hmadeTail
      rw [hmade] at hclone
      obtain ⟨htail, hkept⟩ := hclone
      have hback : cloned.seek moved cursor.position =
          (.ok cursor, cloned.log (.positionSet cursor.position)) :=
        cloned.seek_eq (hplaced.inner?_eq_some hname.symm (by omega)) (by exact hfirst)
          (by exact hcurrent)
      have hnamed : cursor.view.shift.inner? position = some inner :=
        hplaced.inner?_eq_some hinner (by omega)
      have hcut : cursor.view.truncate inner = .ok { cursor.view with stop := inner } :=
        if_pos ⟨by omega, by omega⟩
      obtain ⟨hheadPlaced, hheadWithin⟩ := hplaced.truncate hcut
      let head := cursor.withView { cursor.view with stop := inner }
      have hstart : pool.beforeCut cursor moved position =
          cloned.log (.positionSet cursor.position) := by
        rw [beforeCut, hmade]
      have hsplit : pool.split cursor position = (.ok (head, tail),
          ((pool.beforeCut cursor moved position).resize cursor.block cursor.extent
            head.extent).log (.streamSplit position (position - cursor.position)
              (cursor.position + cursor.remaining - position))) := by
        simp only [Pool.split, Cursor.through_eq, hcheck, hseek, hmade, hback, cutHead, hnamed,
          hcut, hstart]
        rfl
      have hlogged : past.Kept (pool.beforeCut cursor moved position)
          (cursor.hold :: tail.hold :: rest) := by
        rw [hstart]
        exact (hkept.perm (List.Perm.swap ..)).log rfl rfl
      exact ⟨inner, moved, head, tail, _, _, hinner, by omega, by omega, rfl, rfl, rfl, hsplit,
        hsound.withView hheadPlaced hheadWithin, htail, hlogged⟩

/-- The head is cut where the tail begins. -/
theorem split (h : past.Kept pool (cursor.hold :: rest)) (hsound : cursor.Sound)
    {position : Nat} (hcheck : cursor.view.splitCheck position = .ok ()) :
    ∃ (inner : Nat) (head tail : Cursor) (next : Pool σ),
      (inner : Int) + cursor.view.shift.amount = position ∧
      cursor.view.current < inner ∧ inner < cursor.view.stop ∧
      head = cursor.withView { cursor.view with stop := inner } ∧
      tail = cursor.withView ⟨.placing inner position, inner, inner, cursor.view.stop⟩ ∧
      pool.split cursor position = (.ok (head, tail), next) ∧ head.Sound ∧ tail.Sound ∧
      past.Kept next (head.hold :: tail.hold :: rest) := by
  obtain ⟨inner, moved, head, tail, front, back, hinner, hafter, hbefore, rfl, rfl, rfl, hsplit,
    hhead, htail, hstart⟩ := h.split_start hsound hcheck
  have hwithin : Extent.Within ⟨cursor.view.first, inner⟩ cursor.extent :=
    ⟨Nat.le_refl _, Nat.le_of_lt hbefore⟩
  exact ⟨inner, _, _, _, hinner, hafter, hbefore, rfl, rfl, hsplit, hhead, htail,
    (hstart.narrow fun range => hwithin.overlaps).log rfl rfl⟩

end Kept

end Pool

end SharedStream
