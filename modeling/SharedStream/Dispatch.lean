import SharedStream.Block
/-!
Which operations serve a block. A block over a store and a composition each have a table of
operations. A call on a cursor goes through the table of the cursor's block, and every operation
begins by making sure that the block is one that its table serves.
-/

namespace SharedStream

/-- What is asked of the block under a cursor. -/
inductive Call where
  | setPosition
  | reset
  | read
  | remaining
  | position
  | release
  | clone
  | dispose
  | shrink
deriving DecidableEq

def Call.name : Call → String
  | setPosition => "set_position"
  | reset => "reset"
  | read => "read"
  | remaining => "remaining_size"
  | position => "position"
  | release => "release"
  | clone => "clone"
  | dispose => "dispose"
  | shrink => "shrink"

inductive Table where
  | source
  | composed
deriving DecidableEq

def Table.name : Table → String
  | source => "SourceOps"
  | composed => "CompositionOps"

/-- The guard at the head of every operation of a table. -/
def Table.accept (table : Table) (call : Call) (block : Block) : Except Fault Unit :=
  match table, block with
  | source, .source _ _ => .ok ()
  | composed, .composed _ _ _ _ => .ok ()
  | _, _ => .error (.wrongTable table.name call.name block.name)

def Block.table : Block → Table
  | source _ _ => .source
  | composed _ _ _ _ => .composed

/-- A table serves the blocks that it is the table of, and no others. -/
theorem Table.accept_eq_ok_iff (table : Table) (call : Call) (block : Block) :
    table.accept call block = .ok () ↔ block.table = table := by
  cases table <;> cases block <;> simp [accept, Block.table]

/-- Make a call through the table of the cursor's block. -/
@[macro_inline] def Cursor.through {α : Type} (cursor : Cursor) (call : Call)
    (refuse : Fault → α) (act : α) : α :=
  match cursor.block.table.accept call cursor.block with
  | .error fault => refuse fault
  | .ok () => act

@[simp] theorem Cursor.through_eq {α : Type} (cursor : Cursor) (call : Call)
    (refuse : Fault → α) (act : α) : cursor.through call refuse act = act := by
  rw [through, (Table.accept_eq_ok_iff _ call cursor.block).mpr rfl]

end SharedStream
