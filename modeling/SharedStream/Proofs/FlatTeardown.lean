import SharedStream.Proofs.Seats
import SharedStream.Proofs.Wordwise
import SharedStream.Store.Basic
/-!
Teardown without nesting. The operations given here are those of the pool with a single work list,
the one on which detached children wait to be disposed of. A block that goes must not keep a child
any more, so there is nothing that its destructor could collect; a child that a new composition does
not need must not be counted anywhere, and detaching it must detach nothing else. The operations
stop where this is not so. In every reachable world they never stop, and come to the same as with
destructors that tear down what they find. Guards of the tables never refuse and are left out.
-/

namespace SharedStream

deriving instance DecidableEq for Page
deriving instance DecidableEq for Ledger

namespace Pool

variable {σ : Type} [Store σ]

/-- A block goes. Both of its slots must be empty, and it must have nothing to hand on. -/
def freeFlat? (pool : Pool σ) (block : Block) (page : Page) : Option (Pool σ) :=
  if page.left.attached || page.right.attached then none
  else
    match pool.free block page with
    | (next, []) => some next
    | (_, _ :: _) => none

/-- One hold on a block ends, and with the last one the block. -/
def unholdFlat? (pool : Pool σ) (block : Block) : Option (Pool σ) :=
  match pool.ledger.get? block.number with
  | none => none
  | some page =>
      if page.refs = 1 then pool.freeFlat? block page
      else
        some { pool with
          ledger := pool.ledger.modify block.number fun p => { p with refs := p.refs - 1 } }

/-- Dispose of detached children, one after another. This is the only place where children wait. -/
def disposeAllFlat? (pool : Pool σ) : List Cursor → Option (Pool σ)
  | [] => some pool
  | child :: children =>
      match _h : pool.detach child with
      | (next, detached) => do
          let next ← next.unholdFlat? child.block
          next.disposeAllFlat? (detached ++ children)
termination_by children => forestWeight children
decreasing_by
  have hweight := forestWeight_recount pool child.block child.extent .empty
  simp only [← detach_eq, _h] at hweight
  simp only [forestWeight_append, forestWeight_cons]
  omega

/-- A holder's extent changes, and the children that nobody sees any more are disposed of. -/
def resizeFlat? (pool : Pool σ) (block : Block) (before after : Extent) : Option (Pool σ) :=
  let (pool, detached) := pool.recount block before after
  pool.disposeAllFlat? detached

def disposeFlat? (pool : Pool σ) (cursor : Cursor) : Option (Pool σ) := do
  let pool ← pool.resizeFlat? cursor.block cursor.extent .empty
  pool.unholdFlat? cursor.block

/-- A child that nobody came to hold goes. Detaching it must change no count in the books and detach
no other child. -/
def abandonFlat? (pool : Pool σ) (child : Cursor) : Option (Pool σ) :=
  match pool.detach child with
  | (next, []) => if next.ledger = pool.ledger then next.unholdFlat? child.block else none
  | (_, _ :: _) => none

def keepIfFlat? (pool : Pool σ) (needed : Bool) (child : Cursor) : Option (Pool σ) :=
  if needed then some pool else pool.abandonFlat? child

def composeFlat? (pool : Pool σ) (head tail : Cursor) (joint : Joint) (hook : Option Hook) :
    Option (Cursor × Pool σ) := do
  let needLeft := joint.whole.overlaps (joint.range .left)
  let needRight := joint.whole.overlaps (joint.range .right)
  let pool ← pool.keepIfFlat? needLeft head
  let pool ← pool.keepIfFlat? needRight tail
  let header : Header :=
    { number := pool.ledger.fresh, settings := head.block.settings, blockHook := hook }
  let block := Block.composed header joint head.block tail.block
  let page : Page :=
    { block, refs := 1, left := .ofNeeded needLeft, right := .ofNeeded needRight }
  some (⟨block, ⟨.zero, joint.start, head.position, joint.stop⟩⟩,
    { pool with ledger := pool.ledger.add page })

def releaseFlat? (pool : Pool σ) (cursor : Cursor) (position : Nat) :
    Option (Except Fault Cursor × Pool σ) :=
  match cursor.view.firstKept position with
  | .error fault => some (.error fault, pool)
  | .ok first => do
      let kept := cursor.withView { cursor.view with first }
      let pool := pool.adviseBelow cursor.block ⟨cursor.view.first, first⟩
      let pool ← pool.resizeFlat? cursor.block cursor.extent kept.extent
      some (.ok kept, pool)

def cloneAtFlat? (pool : Pool σ) (cursor : Cursor) (offset : Nat) :
    Option (Except Fault Cursor × Pool σ) :=
  match cursor.view.cloneAt cursor.block.settings.limit offset with
  | .error fault => some (.error fault, pool)
  | .ok view => do
      let clone := cursor.withView view
      let pool := { pool with ledger := pool.ledger.retain cursor.block.number }
      let pool ← pool.resizeFlat? cursor.block .empty clone.extent
      some (.ok clone, pool)

def joinFlat? (pool : Pool σ) (head other : Cursor) (hook : Option Hook) :
    Option (Except Fault Cursor × Pool σ) :=
  let limit := head.block.settings.limit
  let boundary := head.view.stopPosition
  let stop := boundary + other.remaining
  if stop ≤ limit then do
    match ← pool.cloneAtFlat? other boundary with
    | (.error fault, pool) => some (.error fault, pool)
    | (.ok tail, pool) =>
        let joint : Joint := ⟨head.view.firstPosition, boundary, stop, head.view, tail.view⟩
        let (cursor, pool) ← pool.composeFlat? head tail joint hook
        some (.ok cursor, pool.log (.concatenated boundary stop head.position))
  else some (.error (.concatOverflow boundary other.remaining limit), pool)

def concatFlat? (pool : Pool σ) (head other : Cursor) (hook : Option Hook) :
    Option (Except Fault Cursor × Pool σ) := do
  let pool := { pool with ledger := pool.ledger.retain head.block.number }
  let (made, pool) ← pool.joinFlat? head other hook
  let pool ← pool.unholdFlat? head.block
  some (made, pool)

def disposeCloneFlat? (pool : Pool σ) : Except Fault Cursor → Option (Pool σ)
  | .error _ => some pool
  | .ok clone => pool.disposeFlat? clone

def cutHeadFlat? (pool : Pool σ) (head tail : Cursor) (position : Nat) :
    Option (Except Fault (Cursor × Cursor) × Pool σ) :=
  match head.view.shift.inner? position with
  | none => do
      let pool ← pool.disposeFlat? tail
      some (.error (.splitUnnamed position), pool)
  | some inner =>
      match head.view.truncate inner with
      | .error fault => do
          let pool ← pool.disposeFlat? tail
          some (.error fault, pool)
      | .ok view => do
          let cut := head.withView view
          let pool ← pool.resizeFlat? head.block head.extent cut.extent
          some (.ok (cut, tail),
            pool.log (.streamSplit position (position - head.position)
              (head.position + head.remaining - position)))

def splitFlat? (pool : Pool σ) (cursor : Cursor) (position : Nat) :
    Option (Except Fault (Cursor × Cursor) × Pool σ) :=
  match cursor.view.splitCheck position with
  | .error fault => some (.error fault, pool)
  | .ok () =>
      match pool.seek cursor position with
      | (.error fault, pool) => some (.error fault, pool)
      | (.ok moved, pool) => do
          let (clone, pool) ← pool.cloneAtFlat? moved position
          match pool.seek moved cursor.position, clone with
          | (.error fault, pool), clone => do
              let pool ← pool.disposeCloneFlat? clone
              some (.error fault, pool)
          | (.ok _, pool), .error fault => some (.error fault, pool)
          | (.ok back, pool), .ok tail => pool.cutHeadFlat? back tail position

end Pool

namespace World

variable {σ : Type} [Store σ]

/-- An operation with a single work list. The other operations end no hold. -/
def applyFlat? (world : World σ) : Operation σ → Option (Except Refusal Answer × World σ)
  | .release id position => world.withCursor? id fun cursor => do
      let outcome ← world.pool.releaseFlat? cursor position
      some (world.settleMoved id outcome)
  | .cloneAt id target offset => world.claiming? target <| world.withCursor? id fun cursor => do
      let outcome ← world.pool.cloneAtFlat? cursor offset
      some (world.settleNew target outcome)
  | .clone id target => world.claiming? target <| world.withCursor? id fun cursor => do
      let outcome ← world.pool.cloneAtFlat? cursor cursor.position
      some (world.settleNew target outcome)
  | .split id target position => world.claiming? target <| world.withCursor? id fun cursor => do
      match ← world.pool.splitFlat? cursor position with
      | (.error fault, pool) => some (.error fault, world.withPool pool)
      | (.ok (head, tail), pool) =>
          some (.ok .done, ((world.withPool pool).update id head).add target tail)
  | .concat id other hook => world.withCursor? id fun head =>
      if id = other then some (.error .selfConcat, world)
      else world.withCursor? other fun tail => do
        let outcome ← world.pool.concatFlat? head tail hook
        some (world.settleMoved id outcome)
  | .dispose id => world.withCursor? id fun cursor => do
      let pool ← world.pool.disposeFlat? cursor
      some (.ok .done, (world.withPool pool).remove id)
  | operation => some (world.apply operation)

def runFlat? (world : World σ) (operations : List (Operation σ)) : Option (World σ) :=
  operations.foldlM (fun world operation => (world.applyFlat? operation).map Prod.snd) world

end World

/-! What the operations with a single work list come to in good order. -/

namespace Ledger

theorem modify_of_fixed {ledger : Ledger} {number : Nat} {page : Page} {change : Page → Page}
    (hpage : ledger.get? number = some page) (hfixed : change page = page) :
    ledger.modify number change = ledger := by
  cases ledger with
  | mk pages =>
      simp only [modify, mk.injEq]
      apply Array.ext_getElem?
      intro other
      rw [Array.getElem?_modify]
      split
      · rename_i hsame
        subst hsame
        have hthere : pages[number]? = some page := hpage
        rw [hthere, Option.map_some, hfixed]
      · rfl

end Ledger

namespace Pool

variable {σ : Type}

/-- A slot whose range is seen neither before nor after is left alone. -/
theorem recountSlot_of_unseen (pool : Pool σ) (header : Header) (joint : Joint)
    {before after : Extent} {side : Side} (hbefore : before.overlaps (joint.range side) = false)
    (hafter : after.overlaps (joint.range side) = false) :
    pool.recountSlot header joint before after side = (pool, false) := by
  unfold recountSlot
  cases hpage : pool.ledger.get? header.number with
  | none => rfl
  | some page =>
      have hslot : page.setSlot (page.slot side) side = page := by cases side <;> rfl
      have hledger : pool.ledger.modify header.number
          (fun p => p.setSlot (page.slot side) side) = pool.ledger :=
        Ledger.modify_of_fixed hpage hslot
      simp only [Slot.recount, hbefore, hafter, hledger, noteNeed]
      rfl

theorem recount_of_unseen (pool : Pool σ) {block : Block} {before after : Extent}
    (hbefore : ∀ side, before.overlaps (block.slotRange side) = false)
    (hafter : ∀ side, after.overlaps (block.slotRange side) = false) :
    pool.recount block before after = (pool, []) := by
  cases block with
  | source header store => rfl
  | composed header joint left right =>
      have hslot : ∀ side, pool.recountSlot header joint before after side = (pool, false) :=
        fun side => pool.recountSlot_of_unseen header joint (hbefore side) (hafter side)
      simp only [recount, hslot]
      rfl

variable [Store σ]

theorem freeFlat?_eq (pool : Pool σ) (block : Block) {page : Page}
    (hvacant : ∀ side, (page.slot side).attached = false) :
    pool.freeFlat? block page = some (pool.free block page).1 := by
  have hleft : page.left.attached = false := hvacant .left
  have hright : page.right.attached = false := hvacant .right
  cases block <;> simp [freeFlat?, free, hleft, hright]

namespace Kept

variable {past pool : Pool σ} {held rest : List Hold} {block : Block} {cursor : Cursor}

/-- The last hold on a block sees nothing of it any more, and the children are gone by then. -/
theorem unholdFlat?_eq {extent : Extent} (h : past.Kept pool (⟨block, extent⟩ :: held))
    (hblind : ∀ side, extent.overlaps (block.slotRange side) = false) :
    pool.unholdFlat? block = some (pool.unhold block).1 := by
  obtain ⟨page, hpage, hblock, -⟩ := h.balanced.page_of_mem (List.mem_cons_self ..)
  change pool.ledger.get? block.number = some page at hpage
  simp only [unholdFlat?, Pool.unhold, hpage]
  split
  · rename_i hlast
    exact pool.freeFlat?_eq block fun side =>
      vacant_of_last h.balanced (hblind side) hpage hblock hlast
  · rfl

theorem unholdFlat?_letGo {extent : Extent} (h : past.Kept pool (⟨block, extent⟩ :: held))
    (hblind : ∀ side, extent.overlaps (block.slotRange side) = false) :
    pool.unholdFlat? block = some (pool.letGo block) := by
  rw [h.unholdFlat?_eq hblind]
  simp only [Pool.letGo, (h.unhold hblind).1, disposeAll_nil]

/-- What a child detaches is all that there is to be put on the list. -/
theorem disposeAllFlat?_eq {children : List Cursor}
    (h : past.Kept pool (children.map Cursor.hold ++ held)) :
    pool.disposeAllFlat? children = some (pool.disposeAll children) := by
  fun_induction pool.disposeAll children with
  | case1 pool => rw [disposeAllFlat?]
  | case2 pool child children next detached hone ih =>
      have hnext : past.Kept next
          (detached.map Cursor.hold ++ (children.map Cursor.hold ++ held)) := by
        have hkept := Kept.disposeOne h
        rw [hone] at hkept
        exact hkept
      have hrecount : past.Kept _ (⟨child.block, .empty⟩ :: _) :=
        Kept.recount h (pool.ledger.seen_of_narrow child.block _ child.extent.empty_narrow)
      have hblind := fun side => Extent.empty_overlaps (child.block.slotRange side)
      have hunhold := hrecount.unholdFlat?_eq hblind
      simp only [Pool.disposeOne, detach_eq, (hrecount.unhold hblind).1, List.nil_append,
        Prod.mk.injEq] at hone
      obtain ⟨rfl, rfl⟩ := hone
      rw [disposeAllFlat?]
      simp only [detach_eq, hunhold, Option.bind_eq_bind, Option.bind_some]
      exact ih (by rw [List.map_append, List.append_assoc]; exact hnext)

theorem resizeFlat?_eq {before after : Extent} (h : past.Kept pool (⟨block, before⟩ :: held))
    (hseen : ∀ side, after.overlaps (block.slotRange side) = true →
      0 < pool.ledger.tally (⟨block, before⟩ :: held)
        (Hold.sees block.number (block.slotRange side))) :
    pool.resizeFlat? block before after = some (pool.resize block before after) :=
  ((h.recount hseen).perm List.perm_middle.symm).disposeAllFlat?_eq

theorem narrowFlat?_eq {before after : Extent} (h : past.Kept pool (⟨block, before⟩ :: held))
    (hnarrow : ∀ range, after.overlaps range = true → before.overlaps range = true) :
    pool.resizeFlat? block before after = some (pool.resize block before after) :=
  h.resizeFlat?_eq (pool.ledger.seen_of_narrow block held hnarrow)

theorem disposeFlat?_eq (h : past.Kept pool (cursor.hold :: held)) :
    pool.disposeFlat? cursor = some (pool.dispose cursor) := by
  have hnarrow := cursor.extent.empty_narrow
  have hlast : past.Kept (pool.resize cursor.block cursor.extent .empty)
      (⟨cursor.block, .empty⟩ :: held) := Kept.narrow h hnarrow
  rw [disposeFlat?, narrowFlat?_eq h hnarrow, Option.bind_eq_bind, Option.bind_some,
    hlast.unholdFlat?_letGo fun _ => Extent.empty_overlaps _, Pool.dispose]

/-- A child that sees nothing is counted nowhere but as a holder of its block. -/
theorem abandonFlat?_eq (h : past.Kept pool (cursor.hold :: held))
    (hempty : cursor.extent.isEmpty = true) :
    pool.abandonFlat? cursor = some (pool.abandon cursor) := by
  have hblind : ∀ side, cursor.extent.overlaps (cursor.block.slotRange side) = false := by
    intro side
    simp [Extent.overlaps, hempty]
  have hdetach : pool.detach cursor = (pool, []) := by
    rw [detach_eq]
    exact pool.recount_of_unseen hblind fun _ => Extent.empty_overlaps _
  simp only [abandonFlat?, abandon, hdetach, if_true, disposeAll_nil]
  exact Kept.unholdFlat?_letGo h hblind

theorem keepIfFlat?_eq {needed : Bool} (h : past.Kept pool (cursor.hold :: held))
    (hempty : needed = false → cursor.extent.isEmpty = true) :
    pool.keepIfFlat? needed cursor = some (pool.keepIf needed cursor) := by
  cases needed with
  | true => rfl
  | false =>
      simp only [keepIfFlat?, Pool.keepIf, Bool.false_eq_true, if_false]
      exact h.abandonFlat?_eq (hempty rfl)

end Kept

end Pool

/-- A side that the first holder of a composition does not see has no bytes. -/
theorem Joint.range_isEmpty {joint : Joint} {side : Side} (hstart : joint.start ≤ joint.boundary)
    (hstop : joint.boundary ≤ joint.stop)
    (hunseen : joint.whole.overlaps (joint.range side) = false) :
    (joint.range side).stop ≤ (joint.range side).start := by
  rw [← Bool.not_eq_true, Extent.overlaps_iff] at hunseen
  simp only [Joint.whole] at hunseen
  cases side with
  | left =>
      simp only [Joint.range] at hunseen ⊢
      omega
  | right =>
      simp only [Joint.range] at hunseen ⊢
      omega

/-- In a composition of `count` bytes behind a head, only a side without bytes goes unseen. -/
theorem Cursor.Sound.unseen_of_join {head : Cursor} (hhead : head.Sound) (count : Nat)
    (tail : View) :
    let boundary := head.view.stopPosition
    let joint : Joint :=
      ⟨head.view.firstPosition, boundary, boundary + count, head.view, tail⟩
    (joint.whole.overlaps (joint.range .left) = false → head.extent.isEmpty = true) ∧
      (joint.whole.overlaps (joint.range .right) = false → count = 0) := by
  intro boundary joint
  have hplaced := hhead.placed.view
  have hfirst := hplaced.firstPosition_eq hhead.limit_le
  have hstop := hplaced.stopPosition_eq hhead.limit_le
  have hlower := hplaced.first_le
  have hupper := hplaced.current_le
  have hstart : joint.start ≤ joint.boundary := by
    simp only [joint, boundary]
    omega
  have hend : joint.boundary ≤ joint.stop := Nat.le_add_right _ _
  constructor
  · intro hunseen
    have hempty := Joint.range_isEmpty hstart hend hunseen
    simp only [joint, boundary, Joint.range] at hempty
    have hnothing : head.view.stop ≤ head.view.first := by omega
    exact decide_eq_true hnothing
  · intro hunseen
    have hempty := Joint.range_isEmpty hstart hend hunseen
    simp only [joint, Joint.range] at hempty
    omega

namespace Pool

variable {σ : Type} [Store σ]

namespace Kept

variable {past pool : Pool σ} {held rest : List Hold} {block : Block} {cursor : Cursor}

/-- Both cursors are taken over, but for one that has no bytes. -/
theorem composeFlat?_eq {head tail : Cursor} {joint : Joint} (hook : Option Hook)
    (h : past.Kept pool (⟨head.block, .empty⟩ :: head.hold :: tail.hold :: rest))
    (hleft : joint.whole.overlaps (joint.range .left) = false → head.extent.isEmpty = true)
    (hright : joint.whole.overlaps (joint.range .right) = false → tail.extent.isEmpty = true) :
    pool.composeFlat? head tail joint hook = some (pool.compose head tail joint hook) := by
  have hfirst := h.perm (List.Perm.swap ..)
  have hkept : past.Kept (pool.keepIf (joint.whole.overlaps (joint.range .left)) head) _ :=
    Kept.keepIf hfirst
  have hsecond := hkept.perm (perm_third _ ⟨head.block, .empty⟩ tail.hold rest)
  simp only [composeFlat?, Pool.compose, Kept.keepIfFlat?_eq hfirst hleft,
    Kept.keepIfFlat?_eq hsecond hright, Option.bind_eq_bind, Option.bind_some]

theorem cloneAtFlat?_eq (h : past.Kept pool held) (hmem : cursor.hold ∈ held)
    (hsound : cursor.Sound) (offset : Nat) :
    pool.cloneAtFlat? cursor offset = some (pool.cloneAt cursor offset) := by
  simp only [cloneAtFlat?, Pool.cloneAt, Cursor.through_eq]
  cases hclone : cursor.view.cloneAt cursor.block.settings.limit offset with
  | error fault => rfl
  | ok view =>
      obtain ⟨-, hwithin⟩ := hsound.placed.view.cloneAt hclone
      have hresize : _ = some (Pool.resize _ cursor.block .empty (cursor.withView view).extent) :=
        (h.retain hmem rfl).resizeFlat?_eq (seen_of_clone hmem hwithin)
      simp only [Cursor.hold_block] at hresize
      simp only [hresize, Option.bind_eq_bind, Option.bind_some]

theorem joinFlat?_eq {head other : Cursor}
    (h : past.Kept pool (⟨head.block, .empty⟩ :: head.hold :: rest)) (hhead : head.Sound)
    (hmem : other.hold ∈ rest) (hother : other.Sound) (hook : Option Hook) :
    pool.joinFlat? head other hook = some (pool.join head other hook) := by
  have hheld := List.mem_cons_of_mem ⟨head.block, .empty⟩ (List.mem_cons_of_mem head.hold hmem)
  have hclone := h.cloneAt hheld hother head.view.stopPosition
  simp only [joinFlat?, Pool.join, Cursor.through_eq,
    h.cloneAtFlat?_eq hheld hother head.view.stopPosition, Option.bind_eq_bind, Option.bind_some]
  split
  · cases hmade : pool.cloneAt other head.view.stopPosition with
    | mk made cloned =>
        rw [hmade] at hclone
        cases made with
        | error fault => rfl
        | ok tail =>
            obtain ⟨-, rfl⟩ := cloneAt_ok hmade
            let tail := other.withView ⟨.placing other.view.current head.view.stopPosition,
              other.view.current, other.view.current, other.view.stop⟩
            let joint : Joint := ⟨head.view.firstPosition, head.view.stopPosition,
              head.view.stopPosition + other.remaining, head.view, tail.view⟩
            have hordered : past.Kept cloned (⟨head.block, .empty⟩ :: head.hold :: tail.hold ::
                rest) := hclone.2.perm ((List.Perm.swap ..).trans ((List.Perm.swap ..).cons _))
            obtain ⟨hleft, hright⟩ := hhead.unseen_of_join other.remaining tail.view
            have hright (hunseen : joint.whole.overlaps (joint.range .right) = false) :
                tail.extent.isEmpty = true :=
              decide_eq_true (Nat.le_of_sub_eq_zero (hright hunseen))
            have hcompose := hordered.composeFlat?_eq hook hleft hright
            simp only [tail] at hcompose
            simp only [hcompose, Option.bind_some]
  · rfl

theorem concatFlat?_eq {head other : Cursor} (h : past.Kept pool (head.hold :: rest))
    (hhead : head.Sound) (hmem : other.hold ∈ rest) (hother : other.Sound) (hook : Option Hook) :
    pool.concatFlat? head other hook = some (pool.concat head other hook) := by
  have hcopied := h.retain (List.mem_cons_self ..) (Cursor.hold_block head)
  have hjoin := hcopied.join hhead hmem hother hook
  have hblind := fun side => Extent.empty_overlaps (head.block.slotRange side)
  simp only [concatFlat?, Pool.concat, hcopied.joinFlat?_eq hhead hmem hother hook,
    Option.bind_eq_bind, Option.bind_some]
  cases hmade : Pool.join { pool with ledger := pool.ledger.retain head.block.number } head other
      hook with
  | mk made joined =>
      rw [hmade] at hjoin
      cases made with
      | error fault => simp only [hjoin.1.unholdFlat?_letGo hblind, Option.bind_some]
      | ok cursor =>
          have hlast := hjoin.2.perm (List.Perm.swap ..)
          simp only [hlast.unholdFlat?_letGo hblind, Option.bind_some]

theorem releaseFlat?_eq (h : past.Kept pool (cursor.hold :: rest)) (hsound : cursor.Sound)
    (position : Nat) :
    pool.releaseFlat? cursor position = some (pool.release cursor position) := by
  simp only [releaseFlat?, Pool.release, Cursor.through_eq]
  cases hkept : cursor.view.firstKept position with
  | error fault => rfl
  | ok first =>
      obtain ⟨-, hwithin⟩ := hsound.placed.view.release hkept
      have hadvised := h.advised cursor.block ⟨cursor.view.first, first⟩
      have hnarrow : _ = some (Pool.resize _ cursor.block cursor.extent
          (cursor.withView { cursor.view with first }).extent) :=
        Kept.narrowFlat?_eq hadvised fun range => hwithin.overlaps
      simp only [hnarrow, Option.bind_eq_bind, Option.bind_some]

theorem cutHeadFlat?_eq {head tail : Cursor} (h : past.Kept pool (head.hold :: tail.hold :: rest))
    (hsound : head.Sound) (position : Nat) :
    pool.cutHeadFlat? head tail position = some (pool.cutHead head tail position) := by
  have hdispose := (h.perm (List.Perm.swap ..)).disposeFlat?_eq
  simp only [cutHeadFlat?, Pool.cutHead, Cursor.through_eq, hdispose, Option.bind_eq_bind,
    Option.bind_some]
  cases head.view.shift.inner? position with
  | none => rfl
  | some inner =>
      cases hcut : head.view.truncate inner with
      | error fault => simp only [hcut]
      | ok view =>
          obtain ⟨-, hwithin⟩ := hsound.placed.view.truncate hcut
          have hnarrow : _ = some (Pool.resize _ head.block head.extent
              (head.withView view).extent) :=
            Kept.narrowFlat?_eq h fun range => hwithin.overlaps
          simp only [hcut, hnarrow, Option.bind_some]

theorem splitFlat?_eq (h : past.Kept pool (cursor.hold :: rest)) (hsound : cursor.Sound)
    (position : Nat) : pool.splitFlat? cursor position = some (pool.split cursor position) := by
  have hfirst := h.seek hsound position
  simp only [splitFlat?, Pool.split, Cursor.through_eq]
  cases cursor.view.splitCheck position with
  | error fault => rfl
  | ok _ =>
      cases hseek : pool.seek cursor position with
      | mk made gone =>
          rw [hseek] at hfirst
          cases made with
          | error fault => rfl
          | ok moved =>
              obtain ⟨hmoved, hgone⟩ := hfirst
              have hmem : moved.hold ∈ moved.hold :: rest := List.mem_cons_self ..
              have hclone := hgone.cloneAt hmem hmoved position
              simp only [hgone.cloneAtFlat?_eq hmem hmoved, Option.bind_eq_bind, Option.bind_some]
              cases hmade : gone.cloneAt moved position with
              | mk clone cloned =>
                  rw [hmade] at hclone
                  cases clone with
                  | error fault =>
                      cases cloned.seek moved cursor.position with
                      | mk back returned => cases back <;> rfl
                  | ok tail =>
                      have hboth := hclone.2.perm (List.Perm.swap ..)
                      have hsecond := hboth.seek hmoved cursor.position
                      cases hback : cloned.seek moved cursor.position with
                      | mk back returned =>
                          rw [hback] at hsecond
                          cases back with
                          | error fault =>
                              have hlast := hsecond.1.perm (List.Perm.swap ..)
                              simp only [disposeCloneFlat?, hlast.disposeFlat?_eq,
                                Option.bind_some, disposeClone]
                          | ok head => exact hsecond.2.cutHeadFlat?_eq hsecond.1 position

end Kept

end Pool

namespace World

variable {σ : Type} [Store σ] {past : Pool σ} {world : World σ}

/-- In good order an operation comes to the same with a single work list. -/
theorem applyFlat?_eq (h : Ordered past world) (operation : Operation σ) :
    world.applyFlat? operation = some (world.apply operation) := by
  have hmem : ∀ {id cursor}, world.find? id = some cursor → cursor.hold ∈ world.holds :=
    fun hfind => (holds_perm h.named hfind).mem_iff.mpr (List.mem_cons_self ..)
  cases operation with
  | release id position =>
      apply withCursor?_eq
      intro cursor hfind
      obtain ⟨hsound, hkept⟩ := h.focus hfind
      rw [hkept.releaseFlat?_eq hsound]
      rfl
  | cloneAt id target offset =>
      apply claiming?_eq
      apply withCursor?_eq
      intro cursor hfind
      rw [h.kept.cloneAtFlat?_eq (hmem hfind) (h.focus hfind).1]
      rfl
  | clone id target =>
      apply claiming?_eq
      apply withCursor?_eq
      intro cursor hfind
      rw [h.kept.cloneAtFlat?_eq (hmem hfind) (h.focus hfind).1, Pool.clone_eq]
      rfl
  | split id target position =>
      apply claiming?_eq
      apply withCursor?_eq
      intro cursor hfind
      obtain ⟨hsound, hkept⟩ := h.focus hfind
      rw [hkept.splitFlat?_eq hsound]
      cases world.pool.split cursor position with
      | mk made pool => cases made <;> rfl
  | concat id other hook =>
      apply withCursor?_eq
      intro head hfind
      split
      · rfl
      · rename_i hne
        apply withCursor?_eq
        intro tail htail
        obtain ⟨hsound, hkept⟩ := h.focus hfind
        rw [hkept.concatFlat?_eq hsound (mem_others htail (Ne.symm hne)) (h.focus htail).1]
        rfl
  | dispose id =>
      apply withCursor?_eq
      intro cursor hfind
      rw [(h.focus hfind).2.disposeFlat?_eq, Pool.tryDispose_eq]
      rfl
  | build | position | remaining | refs | setPosition | reset | read => rfl

theorem runFlat?_eq (h : Ordered past world) (operations : List (Operation σ)) :
    world.runFlat? operations = some (world.run operations) := by
  induction operations generalizing world with
  | nil => rfl
  | cons operation operations ih =>
      simp only [runFlat?, List.foldlM_cons, applyFlat?_eq h operation, Option.map_some,
        Option.bind_eq_bind, Option.bind_some]
      exact ih (apply_lands h operation).ordered

/-- In every run, from the empty world on, the work list is the only one. A block that goes keeps no
child any more and has nothing to hand on, whoever its last holder was: a cursor, the seat of
another block, or a concatenation. A child that a concatenation has no use for is counted nowhere
and leads to no other. -/
theorem teardown_is_flat (operations : List (Operation σ)) :
    runFlat? {} operations = some (run {} operations) :=
  runFlat?_eq empty_ordered operations

/-- It stops at a block that goes with a child in its left slot, and at a child that is given up
while it is seen. -/
example :
    let leaf := Block.source ⟨0, {}, none, none⟩ ⟨0, "bytes"⟩
    let pair := Block.composed ⟨1, {}, none, none⟩
      ⟨0, 2, 4, .whole 2, ⟨.placing 0 2, 0, 0, 2⟩⟩ leaf leaf
    let pool : Pool MemoryStore :=
      ⟨⟨#[⟨leaf, 2, .vacant, .vacant⟩, ⟨pair, 1, ⟨1, true⟩, ⟨1, true⟩⟩]⟩,
        {}⟩
    (pool.unholdFlat? pair).isNone = true ∧
      (pool.abandonFlat? ⟨pair, ⟨.zero, 0, 0, 4⟩⟩).isNone = true ∧
      (pool.disposeFlat? ⟨pair, ⟨.zero, 0, 0, 4⟩⟩).isNone = false := by
  decide +kernel

end World

end SharedStream
