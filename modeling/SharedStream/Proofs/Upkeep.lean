import SharedStream.Proofs.Keeping
/-!
Letting go writes about needs and endings, and about nothing else. Whatever follows from a change of
an extent or from the end of a hold, however deep it goes, asks no store for anything and tells it
nothing but that it is dropped.
-/

namespace SharedStream

namespace Event

/-- The event tells of a change of the needs, or of an ending. -/
def isUpkeep : Event → Bool
  | childNeeded _ _ _ | childRetired _ _ => true
  | event => event.isEnding

theorem isUpkeep_of_isEnding {event : Event} (h : event.isEnding = true) :
    event.isUpkeep = true := by
  cases event <;> simp_all [isEnding, isUpkeep]

end Event

namespace Pool

variable {σ : Type} [Store σ]

/-- Changing an extent writes that children are needed, or that they are retired. -/
theorem recount_writes {kind : Event → Bool} (pool : Pool σ) (block : Block)
    (before after : Extent)
    (hneeded : ∀ number side needs, kind (.childNeeded number side needs) = true)
    (hretired : ∀ number side, kind (.childRetired number side) = true) :
    pool.backend.Writes kind (pool.recount block before after).1.backend := by
  cases block with
  | source header store => exact Backend.Writes.refl _
  | composed header joint left right =>
      have hslot : ∀ (pool : Pool σ) (side : Side), pool.backend.Writes kind
          (pool.recountSlot header joint before after side).1.backend := fun pool side =>
        pool.recountSlot_writes header joint before after side (fun _ => hneeded _ _ _)
          (hretired _ _)
      exact (hslot pool .right).trans (hslot _ .left)

theorem recount_upkeeps (pool : Pool σ) (block : Block) (before after : Extent) :
    pool.backend.Writes Event.isUpkeep (pool.recount block before after).1.backend :=
  pool.recount_writes block before after (fun _ _ _ => rfl) fun _ _ => rfl

theorem unhold_upkeeps (pool : Pool σ) (block : Block) :
    pool.backend.Writes Event.isUpkeep (pool.unhold block).1.backend := by
  unfold unhold
  split
  · exact Backend.Writes.refl _
  · rename_i page _
    split
    · have hfree := Kept.free_replays pool block page
      refine ⟨Kept.free_size pool block page, ⟨_, hfree⟩, block.lastWords, hfree.journal,
        fun event hmem => ?_⟩
      exact Event.isUpkeep_of_isEnding (Block.isEnding_of_concerns (Block.mem_lastWords hmem))
    · exact Backend.Writes.refl _

theorem disposeOne_upkeeps (pool : Pool σ) (child : Cursor) :
    pool.backend.Writes Event.isUpkeep (pool.disposeOne child).1.backend := by
  simp only [disposeOne, detach_eq]
  exact (pool.recount_upkeeps child.block child.extent .empty).trans
    (unhold_upkeeps _ child.block)

theorem disposeAll_upkeeps (pool : Pool σ) (children : List Cursor) :
    pool.backend.Writes Event.isUpkeep (pool.disposeAll children).backend := by
  refine disposeAll_induction
    (motive := fun next _ => pool.backend.Writes Event.isUpkeep next.backend) ?_ pool children
    (Backend.Writes.refl _)
  intro next child children hsofar
  exact hsofar.trans (next.disposeOne_upkeeps child)

theorem resize_upkeeps (pool : Pool σ) (block : Block) (before after : Extent) :
    pool.backend.Writes Event.isUpkeep (pool.resize block before after).backend :=
  (pool.recount_upkeeps block before after).trans (disposeAll_upkeeps _ _)

theorem letGo_upkeeps (pool : Pool σ) (block : Block) :
    pool.backend.Writes Event.isUpkeep (pool.letGo block).backend :=
  (pool.unhold_upkeeps block).trans (disposeAll_upkeeps _ _)

theorem dispose_upkeeps (pool : Pool σ) (cursor : Cursor) :
    pool.backend.Writes Event.isUpkeep (pool.dispose cursor).backend :=
  (pool.resize_upkeeps cursor.block cursor.extent .empty).trans (letGo_upkeeps _ _)

end Pool

end SharedStream
