import SharedStream.Dispatch
import SharedStream.Pool
/-!
Letting go. When a holder's extent shrinks, the children it no longer sees lose a need; a child that
nobody needs is detached, and disposing of it ends one hold on its block, which may free the block
and detach further children. All of this runs over one explicit list of detached children, left
before right, so its depth is not the depth of the composition.
-/

namespace SharedStream

/-- The work that detached children can still make. -/
def forestWeight (children : List Cursor) : Nat :=
  sumOver (fun child => child.block.weight) children

@[simp] theorem forestWeight_nil : forestWeight [] = 0 := rfl

@[simp] theorem forestWeight_cons (child : Cursor) (children : List Cursor) :
    forestWeight (child :: children) = child.block.weight + forestWeight children := by
  simp [forestWeight]

@[simp] theorem forestWeight_append (children others : List Cursor) :
    forestWeight (children ++ others) = forestWeight children + forestWeight others := by
  simp [forestWeight]

/-- Whichever children a composition hands on, they make less work than the composition did. -/
theorem forestWeight_children (header : Header) (joint : Joint) (left right : Block)
    (leftGone rightGone : Bool) :
    2 * (forestWeight (if leftGone then [joint.child left right .left] else []) +
      forestWeight (if rightGone then [joint.child left right .right] else [])) + 1 ≤
        (Block.composed header joint left right).weight := by
  rw [Block.weight]
  cases leftGone with
  | false => cases rightGone <;> simp
  | true =>
      cases rightGone with
      | false => simp
      | true => simp [Nat.mul_add]

namespace Pool

variable {σ : Type}

/-- Note that a holder which did not see a child sees it now. -/
def noteNeed (pool : Pool σ) (header : Header) (side : Side) (needs : Nat) (seen sees : Bool) :
    Pool σ :=
  if !seen && sees then pool.log (.childNeeded header.number side needs) else pool

/-- One holder of the composition `header` changes its extent, as the slot on `side` sees it. The
second part says whether the child there is detached. -/
def recountSlot (pool : Pool σ) (header : Header) (joint : Joint) (before after : Extent)
    (side : Side) : Pool σ × Bool :=
  match pool.ledger.get? header.number with
  | none => (pool, false)
  | some page =>
      let range := joint.range side
      let (slot, detached) := (page.slot side).recount range before after
      let pool :=
        { pool with ledger := pool.ledger.modify header.number fun p => p.setSlot slot side }
      let pool :=
        pool.noteNeed header side (page.slot side).needs (before.overlaps range)
          (after.overlaps range)
      if detached then (pool.log (.childRetired header.number side), true) else (pool, false)

/-- One holder of `block` changes its extent. The children that are detached by it come out in the
order in which they have to be disposed of. The right slot is settled first. -/
def recount (pool : Pool σ) (block : Block) (before after : Extent) : Pool σ × List Cursor :=
  match block with
  | .source _ _ => (pool, [])
  | .composed header joint left right =>
      let (pool, rightGone) := pool.recountSlot header joint before after .right
      let (pool, leftGone) := pool.recountSlot header joint before after .left
      (pool,
        (if leftGone then [joint.child left right .left] else []) ++
          (if rightGone then [joint.child left right .right] else []))

theorem forestWeight_recount (pool : Pool σ) (block : Block) (before after : Extent) :
    2 * forestWeight (pool.recount block before after).2 + 1 ≤ block.weight := by
  cases block with
  | source header store => simp [recount, Block.weight]
  | composed header joint left right =>
      simp only [recount, forestWeight_append]
      exact forestWeight_children ..

variable [Store σ]

/-- A block goes: its data hook runs, then its block hook, then its store is dropped. A composition
hands on the children that it still holds. -/
def free (pool : Pool σ) (block : Block) (page : Page) : Pool σ × List Cursor :=
  let header := block.header
  let backend := pool.backend.log (.blockFreed header.number block.name)
  let backend := backend.runHook header.number .data header.dataHook
  let backend := backend.runHook header.number .block header.blockHook
  let ledger := pool.ledger.modify header.number Page.close
  match block with
  | .source _ store => (⟨ledger, backend.drop store⟩, [])
  | .composed _ joint left right =>
      (⟨ledger, backend⟩,
        (if page.right.attached then [joint.child left right .right] else []) ++
          (if page.left.attached then [joint.child left right .left] else []))

theorem forestWeight_free (pool : Pool σ) (block : Block) (page : Page) :
    2 * forestWeight (pool.free block page).2 + 1 ≤ block.weight := by
  cases block with
  | source header store => simp [free, Block.weight]
  | composed header joint left right =>
      simp only [free, forestWeight_append]
      rw [Nat.add_comm (forestWeight _)]
      exact forestWeight_children ..

/-- One hold on a block ends; the last one frees the block. -/
def unhold (pool : Pool σ) (block : Block) : Pool σ × List Cursor :=
  match pool.ledger.get? block.number with
  | none => (pool, [])
  | some page =>
      if page.refs = 1 then pool.free block page
      else
        ({ pool with
            ledger := pool.ledger.modify block.number fun p => { p with refs := p.refs - 1 } }, [])

theorem forestWeight_unhold (pool : Pool σ) (block : Block) :
    2 * forestWeight (pool.unhold block).2 + 1 ≤ block.weight := by
  have hpos := block.weight_pos
  unfold unhold
  split
  · simp
    omega
  · split
    · exact forestWeight_free _ _ _
    · simp
      omega

/-- A child sees nothing any more. A child over a store is asked for that through the table of its
block; a refusal would only be noted. -/
def detach (pool : Pool σ) (child : Cursor) : Pool σ × List Cursor :=
  match child.block with
  | .composed _ _ _ _ => pool.recount child.block child.extent .empty
  | .source _ _ =>
      child.through .dispose (fun fault => (pool.log (.disposeFailed fault), [])) (pool, [])

omit [Store σ] in
@[simp] theorem detach_eq (pool : Pool σ) (child : Cursor) :
    pool.detach child = pool.recount child.block child.extent .empty := by
  obtain ⟨block, view⟩ := child
  cases block with
  | source header store => simp only [detach, Cursor.through_eq, recount]
  | composed header joint left right => rfl

/-- Dispose of one detached child: its own children lose its need, then its hold ends. The second
part lists the children detached by that, first to be disposed of first. -/
def disposeOne (pool : Pool σ) (child : Cursor) : Pool σ × List Cursor :=
  let (pool, detached) := pool.detach child
  let (pool, leftover) := pool.unhold child.block
  (pool, leftover ++ detached)

theorem forestWeight_disposeOne (pool : Pool σ) (child : Cursor) :
    forestWeight (pool.disposeOne child).2 < child.block.weight := by
  have hrecount := forestWeight_recount pool child.block child.extent .empty
  have hunhold := forestWeight_unhold (pool.recount child.block child.extent .empty).1 child.block
  simp only [disposeOne, detach_eq, forestWeight_append]
  omega

def disposeAll (pool : Pool σ) : List Cursor → Pool σ
  | [] => pool
  | child :: children =>
      match _h : pool.disposeOne child with
      | (next, detached) => next.disposeAll (detached ++ children)
termination_by children => forestWeight children
decreasing_by
  have hstep := forestWeight_disposeOne pool child
  simp only [_h] at hstep
  simp only [forestWeight_append, forestWeight_cons]
  omega

theorem disposeAll_nil (pool : Pool σ) : pool.disposeAll [] = pool := by
  rw [disposeAll]

/-- A holder's extent changes, with everything that follows from it. -/
def resize (pool : Pool σ) (block : Block) (before after : Extent) : Pool σ :=
  let (pool, detached) := pool.recount block before after
  pool.disposeAll detached

/-- One hold on a block ends, with everything that follows from it. -/
def letGo (pool : Pool σ) (block : Block) : Pool σ :=
  let (pool, leftover) := pool.unhold block
  pool.disposeAll leftover

/-- A cursor goes: the children it saw lose its need, then its hold on the block ends. -/
def dispose (pool : Pool σ) (cursor : Cursor) : Pool σ :=
  (pool.resize cursor.block cursor.extent .empty).letGo cursor.block

/-- A child that nobody came to hold goes: it is detached, then its hold on the block ends. -/
def abandon (pool : Pool σ) (child : Cursor) : Pool σ :=
  let (pool, detached) := pool.detach child
  (pool.disposeAll detached).letGo child.block

@[simp] theorem abandon_eq (pool : Pool σ) (child : Cursor) :
    pool.abandon child = pool.dispose child := by
  rw [abandon, detach_eq]
  rfl

/-- Dispose of a cursor through the table of its block. Were it refused, the hold on the block would
end nevertheless. -/
def tryDispose (pool : Pool σ) (cursor : Cursor) : Except Fault Unit × Pool σ :=
  cursor.through .dispose (fun fault => (.error fault, pool.letGo cursor.block))
    (.ok (), pool.dispose cursor)

@[simp] theorem tryDispose_eq (pool : Pool σ) (cursor : Cursor) :
    pool.tryDispose cursor = (.ok (), pool.dispose cursor) := by
  rw [tryDispose, Cursor.through_eq]

end Pool

end SharedStream
