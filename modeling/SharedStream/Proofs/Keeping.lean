import SharedStream.Proofs.Endings
import SharedStream.Proofs.Recounting
/-!
The pool in good order, change by change. A pool is *kept* for some holds if its books balance for
them and its journal is true. Each single change keeps the pool for the holds after it, and whatever
happens, the journal only grows, blocks keep their pages, and a need of zero stays at zero.
-/

namespace SharedStream.Pool

variable {σ : Type} [Store σ]

/-- What `past` recorded is still recorded, and its stores are still there. -/
structure Since (past pool : Pool σ) : Prop where
  stores : past.backend.Evolves pool.backend
  pages : ∀ {number page}, past.ledger.get? number = some page →
    ∃ next, pool.ledger.get? number = some next ∧ next.block = page.block ∧
      ∀ side, (page.slot side).needs = 0 → (next.slot side).needs = 0

namespace Since

variable {past pool next : Pool σ}

theorem refl (pool : Pool σ) : pool.Since pool :=
  ⟨.refl _, fun hpage => ⟨_, hpage, rfl, fun _ hzero => hzero⟩⟩

theorem journal (h : past.Since pool) :
    past.backend.journal.toList <+: pool.backend.journal.toList :=
  h.stores.journal

theorem trans (hfirst : past.Since pool) (hsecond : pool.Since next) : past.Since next := by
  refine ⟨hfirst.stores.trans hsecond.stores, ?_⟩
  intro number page hpage
  obtain ⟨middle, hmiddle, hblock, hzero⟩ := hfirst.pages hpage
  obtain ⟨last, hlast, hblock', hzero'⟩ := hsecond.pages hmiddle
  exact ⟨last, hlast, hblock'.trans hblock, fun side h => hzero' side (hzero side h)⟩

theorem quiet {backend : Backend σ} (hquiet : pool.backend.Quiet backend) :
    pool.Since { pool with backend } :=
  ⟨hquiet.stores, fun hpage => ⟨_, hpage, rfl, fun _ hzero => hzero⟩⟩

theorem modify {backend : Backend σ} {number : Nat} {change : Page → Page}
    (hstores : pool.backend.Evolves backend)
    (hblock : ∀ page, (change page).block = page.block)
    (hzero : ∀ {page}, pool.ledger.get? number = some page →
      ∀ side, (page.slot side).needs = 0 → ((change page).slot side).needs = 0) :
    pool.Since ⟨pool.ledger.modify number change, backend⟩ := by
  refine ⟨hstores, ?_⟩
  intro other page hpage
  by_cases hne : other = number
  · subst hne
    exact ⟨change page, Ledger.get?_modify_self hpage change, hblock page, hzero hpage⟩
  · exact ⟨page, (Ledger.get?_modify_of_ne hne change).trans hpage, rfl, fun _ h => h⟩

theorem add {backend : Backend σ} (page : Page)
    (hstores : pool.backend.Evolves backend) :
    pool.Since ⟨pool.ledger.add page, backend⟩ := by
  refine ⟨hstores, ?_⟩
  intro number old hold
  have hne : number ≠ pool.ledger.fresh := Nat.ne_of_lt (Ledger.lt_fresh hold)
  exact ⟨old, (Ledger.get?_add_of_ne _ _ hne).trans hold, rfl, fun _ h => h⟩

end Since

/-- What one disposal preserves, the disposal of a whole list preserves. -/
theorem disposeAll_induction {motive : Pool σ → List Cursor → Prop}
    (hstep : ∀ pool child children, motive pool (child :: children) →
      motive (pool.disposeOne child).1 ((pool.disposeOne child).2 ++ children))
    (pool : Pool σ) (children : List Cursor) (h : motive pool children) :
    motive (pool.disposeAll children) [] := by
  fun_induction disposeAll pool children with
  | case1 => exact h
  | case2 pool child children next detached hnext ih =>
      have hone := hstep pool child children h
      rw [hnext] at hone
      exact ih hone

/-- The books balance for `held`, the journal is true, and nothing that `past` recorded is lost. -/
structure Kept (past pool : Pool σ) (held : List Hold) : Prop where
  balanced : pool.ledger.Balanced held
  told : pool.Told
  since : past.Since pool

namespace Kept

variable {past pool : Pool σ} {held : List Hold} {block : Block}

theorem restart (h : past.Kept pool held) : pool.Kept pool held :=
  ⟨h.balanced, h.told, Since.refl pool⟩

theorem perm (h : past.Kept pool held) {others : List Hold} (hperm : held.Perm others) :
    past.Kept pool others :=
  ⟨h.balanced.perm hperm, h.told, h.since⟩

theorem quiet (h : past.Kept pool held) {backend : Backend σ}
    (hquiet : pool.backend.Quiet backend) : past.Kept { pool with backend } held :=
  ⟨h.balanced, h.told.quiet hquiet, h.since.trans (Since.quiet hquiet)⟩

theorem log (h : past.Kept pool held) {event : Event} (hof : event.store? = none)
    (hevent : event.isQuiet = true) : past.Kept (pool.log event) held :=
  h.quiet (Backend.Writes.log _ hof hevent)

theorem retain (h : past.Kept pool held) {hold : Hold} (hmem : hold ∈ held)
    (hblock : hold.block = block) :
    past.Kept { pool with ledger := pool.ledger.retain block.number }
      (⟨block, .empty⟩ :: held) := by
  subst hblock
  obtain ⟨page, hpage, hsame, hpos⟩ := h.balanced.page_of_mem hmem
  refine ⟨h.balanced.retain ⟨page, hpage, hsame⟩, ?_, ?_⟩
  · refine h.told.modify (fun _ => rfl) ?_
    intro other hother
    obtain rfl : page = other := Option.some.inj (hpage.symm.trans hother)
    simp only
    omega
  · refine h.since.trans (Since.modify (.refl _) (fun _ => rfl) ?_)
    intro other _ side hzero
    rw [Page.slot_withRefs other (other.refs + 1)]
    exact hzero

/-- A hold is counted with its new extent, if somebody sees already whatever that sees. -/
theorem recount {before after : Extent} (h : past.Kept pool (⟨block, before⟩ :: held))
    (hseen : ∀ side, after.overlaps (block.slotRange side) = true →
      0 < pool.ledger.tally (⟨block, before⟩ :: held)
        (Hold.sees block.number (block.slotRange side))) :
    past.Kept (pool.recount block before after).1
      (⟨block, after⟩ :: ((pool.recount block before after).2.map Cursor.hold ++ held)) := by
  have hquiet : pool.backend.Quiet (pool.recount block before after).1.backend := by
    obtain ⟨page, hpage, hblock, -⟩ := h.balanced.page_of_mem (List.mem_cons_self ..)
    cases block with
    | source header store => exact Backend.Writes.refl _
    | composed header joint left right =>
        change pool.ledger.get? header.number = some page at hpage
        have hneeds : ∀ side, after.overlaps (joint.range side) = true →
            0 < (page.slot side).needs := by
          intro side hoverlap
          have hslot := h.balanced.needs hpage side
          rw [hblock] at hslot
          rw [hslot]
          exact hseen side hoverlap
        have hright := recountSlot_quiet pool header joint before after .right
          (by simpa [Ledger.slot, hpage] using hneeds .right)
        have hledger := (recountSlot_of_page joint before after .right hpage).1
        have hleft := recountSlot_quiet (pool.recountSlot header joint before after .right).1
          header joint before after .left (by
            rw [hledger]
            simp only [Ledger.slot, Ledger.get?_modify_self hpage, Option.elim_some]
            rw [Page.slot_setSlot_of_ne _ _ (by decide)]
            exact hneeds .left)
        exact hright.trans hleft
  obtain ⟨change, hledger, hkeeps, hzero⟩ := recount_ledger h.balanced hseen
  have hpool : (pool.recount block before after).1 =
      ⟨pool.ledger.modify block.number change,
        (pool.recount block before after).1.backend⟩ := by
    rw [← hledger]
  refine ⟨recount_balanced h.balanced hseen, ?_, ?_⟩
  · rw [hpool]
    refine (h.told.modify (fun page => (hkeeps page).1) ?_).quiet hquiet
    intro page _
    rw [(hkeeps page).2]
  · rw [hpool]
    exact h.since.trans (Since.modify hquiet.stores (fun page => (hkeeps page).1) hzero)

/-- A new block, held once. The children that its holder sees were held until now. -/
theorem add {page : Page} (h : past.Kept pool (page.spans.map Cursor.hold ++ held))
    {extent : Extent} {backend : Backend σ} (hnumber : page.block.number = pool.ledger.fresh)
    (hrefs : page.refs = 1)
    (hslot : ∀ side, page.slot side = .ofNeeded (extent.overlaps (page.block.slotRange side)))
    (hchild : ∀ {side child}, page.block.child? side = some child →
      pool.ledger.Knows child.block)
    (hstores : pool.backend.Evolves backend)
    (hsize : pool.backend.stores.size ≤ backend.stores.size)
    (hstore : ∀ store, page.block.store? = some store ↔
      pool.backend.stores.size ≤ store ∧ store < backend.stores.size)
    (hjournal : ∃ events, backend.journal.toList = pool.backend.journal.toList ++ events ∧
      ∀ event ∈ events, event.isQuiet = true) :
    past.Kept ⟨pool.ledger.add page, backend⟩ (⟨page.block, extent⟩ :: held) := by
  refine ⟨h.balanced.add hnumber hrefs hslot hchild, ?_, ?_⟩
  · exact h.told.add hnumber (by omega) hsize hstore hjournal
  · exact h.since.trans (Since.add page hstores)

/-- The last words of a block are what becomes of the stores when it is freed. -/
theorem free_replays (pool : Pool σ) (block : Block) (page : Page) :
    pool.backend.Replays block.lastWords (pool.free block page).1.backend := by
  have hfreed := Backend.Replays.log pool.backend
    (show (Event.blockFreed block.number block.name).store? = none from rfl)
  have hdata := hfreed.trans (.runHook _ block.number .data block.header.dataHook)
  have hhooks := hdata.trans (.runHook _ block.number .block block.header.blockHook)
  cases block with
  | source header store =>
      have hdropped := hhooks.trans (.drop _ store)
      simpa [free, Block.lastWords, Block.store?, Block.number, Block.header] using hdropped
  | composed header joint left right =>
      simpa [free, Block.lastWords, Block.store?, Block.number, Block.header] using hhooks

theorem free_size (pool : Pool σ) (block : Block) (page : Page) :
    (pool.free block page).1.backend.stores.size = pool.backend.stores.size := by
  have hhook : ∀ (backend : Backend σ) (number : Nat) (role : HookRole) (hook : Option Hook),
      (backend.runHook number role hook).stores = backend.stores := by
    intro backend number role hook
    cases hook <;> rfl
  cases block with
  | source header store => simp [free, Backend.drop, hhook, Backend.log]
  | composed header joint left right => simp [free, hhook, Backend.log]

theorem free_ledger (pool : Pool σ) (block : Block) (page : Page) :
    (pool.free block page).1.ledger = pool.ledger.modify block.number Page.close := by
  cases block <;> rfl

/-- A hold that sees nothing ends, and with the last one the block. -/
theorem unhold {extent : Extent} (h : past.Kept pool (⟨block, extent⟩ :: held))
    (hblind : ∀ side, extent.overlaps (block.slotRange side) = false) :
    (pool.unhold block).2 = [] ∧ past.Kept (pool.unhold block).1 held := by
  obtain ⟨hnone, hbalanced⟩ := unhold_balanced h.balanced hblind
  obtain ⟨page, hpage, hblock, hpos⟩ := h.balanced.page_of_mem (List.mem_cons_self ..)
  change pool.ledger.get? block.number = some page at hpage
  change page.block = block at hblock
  refine ⟨hnone, hbalanced, ?_, ?_⟩
  · simp only [Pool.unhold, hpage]
    split
    · have hpool : (pool.free block page).1 =
          ⟨pool.ledger.modify block.number Page.close, (pool.free block page).1.backend⟩ := by
        rw [← free_ledger]
      rw [hpool]
      refine h.told.close hpage (by omega) (free_size pool block page) ?_
      rw [hblock]
      exact (free_replays pool block page).journal
    · rename_i hothers
      refine h.told.modify (fun _ => rfl) ?_
      intro other hother
      obtain rfl : page = other := Option.some.inj (hpage.symm.trans hother)
      simp only
      omega
  · refine h.since.trans ?_
    simp only [Pool.unhold, hpage]
    split
    · have hpool : (pool.free block page).1 =
          ⟨pool.ledger.modify block.number Page.close, (pool.free block page).1.backend⟩ := by
        rw [← free_ledger]
      rw [hpool]
      exact Since.modify ⟨_, free_replays pool block page⟩ (fun _ => rfl)
        fun _ side _ => by rw [Page.slot_close]; rfl
    · refine Since.modify (.refl _) (fun _ => rfl) ?_
      intro other _ side hzero
      rw [Page.slot_withRefs other (other.refs - 1)]
      exact hzero

/-- Disposing of a child hands on the children that nobody sees without it. -/
theorem disposeOne {child : Cursor} (h : past.Kept pool (child.hold :: held)) :
    past.Kept (pool.disposeOne child).1
      ((pool.disposeOne child).2.map Cursor.hold ++ held) := by
  have hrecount : past.Kept _ (⟨child.block, .empty⟩ :: _) :=
    h.recount (pool.ledger.seen_of_narrow child.block held child.extent.empty_narrow)
  obtain ⟨hnone, hunhold⟩ := hrecount.unhold fun side => Extent.empty_overlaps _
  simp only [Pool.disposeOne, detach_eq]
  rw [hnone, List.nil_append]
  exact hunhold

theorem disposeAll {children : List Cursor}
    (h : past.Kept pool (children.map Cursor.hold ++ held)) :
    past.Kept (pool.disposeAll children) held := by
  refine disposeAll_induction
    (motive := fun pool children => past.Kept pool (children.map Cursor.hold ++ held)) ?_
    pool children h
  intro pool child children hkept
  rw [List.map_append, List.append_assoc]
  exact hkept.disposeOne

/-- A holder's extent changes, with everything that follows from it. -/
theorem resize {before after : Extent} (h : past.Kept pool (⟨block, before⟩ :: held))
    (hseen : ∀ side, after.overlaps (block.slotRange side) = true →
      0 < pool.ledger.tally (⟨block, before⟩ :: held)
        (Hold.sees block.number (block.slotRange side))) :
    past.Kept (pool.resize block before after) (⟨block, after⟩ :: held) :=
  ((h.recount hseen).perm List.perm_middle.symm).disposeAll

/-- An extent may always shrink. -/
theorem narrow {before after : Extent} (h : past.Kept pool (⟨block, before⟩ :: held))
    (hnarrow : ∀ range, after.overlaps range = true → before.overlaps range = true) :
    past.Kept (pool.resize block before after) (⟨block, after⟩ :: held) :=
  h.resize (pool.ledger.seen_of_narrow block held hnarrow)

theorem letGo (h : past.Kept pool (⟨block, .empty⟩ :: held)) :
    past.Kept (pool.letGo block) held := by
  obtain ⟨hnone, hunhold⟩ := h.unhold fun side => Extent.empty_overlaps _
  simp only [Pool.letGo]
  rw [hnone, disposeAll_nil]
  exact hunhold

theorem dispose {cursor : Cursor} (h : past.Kept pool (cursor.hold :: held)) :
    past.Kept (pool.dispose cursor) held := by
  exact (h.narrow cursor.extent.empty_narrow).letGo

end Kept

end SharedStream.Pool
