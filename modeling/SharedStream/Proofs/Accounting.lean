import SharedStream.Proofs.Worlds
/-!
The books are exact. The holders of a block are the live cursors over it and the children of that
block that a composition which is still there keeps in a slot. After any run, the page of a block
counts its holders, a slot counts those that see its range, and it has a child as long as that is
not zero. A need that has come down to zero stays there, and is never raised in between either.
-/

namespace SharedStream

namespace World

variable {σ : Type}

/-- The pages of the blocks that are still there. -/
def living (world : World σ) : List Page :=
  world.pool.ledger.pages.toList.filter fun page => decide (0 < page.refs)

/-- The holders of the block with a number. -/
def holders (world : World σ) (number : Nat) : List Cursor :=
  (world.cursors.map Prod.snd ++ world.living.flatMap Page.spans).filter
    fun cursor => cursor.block.number == number

/-- The books of a world say what is so. -/
structure Accounted (world : World σ) : Prop where
  refs : ∀ {number page}, world.pool.ledger.get? number = some page →
    page.refs = (world.holders number).length
  needs : ∀ {number page}, world.pool.ledger.get? number = some page →
    ∀ {header joint left right}, page.block = .composed header joint left right → ∀ side,
      (page.slot side).needs = (world.holders number).countP
        fun holder => holder.extent.overlaps (joint.range side)
  attached : ∀ {number page}, world.pool.ledger.get? number = some page → ∀ side,
    ((page.slot side).attached = true ↔ 0 < (page.slot side).needs)
  /-- Whatever a live cursor is bound to has a page, which the cursor reports. -/
  bound : ∀ {id cursor}, (id, cursor) ∈ world.cursors →
    (∃ page, world.pool.ledger.get? cursor.block.number = some page ∧
      page.block = cursor.block) ∧
      world.pool.refs cursor = (world.holders cursor.block.number).length

theorem spans_of_gone {ledger : Ledger} {held : List Hold} (h : ledger.Balanced held)
    {number : Nat} {page : Page} (hpage : ledger.get? number = some page) (hgone : page.refs = 0) :
    page.spans = [] := by
  have hside : ∀ side, (page.slot side).attached = false := by
    intro side
    have hless : ledger.tally held (Hold.sees number (page.block.slotRange side)) ≤
        ledger.tally held (Hold.on number) := by
      apply Nat.add_le_add
      · exact List.countP_mono_left fun hold _ => Hold.on_of_sees
      · exact List.countP_mono_left fun cursor _ => Hold.on_of_sees
    rw [← h.refs hpage, ← h.needs hpage side] at hless
    have hnone : ¬ 0 < (page.slot side).needs := by omega
    rw [← h.attached hpage side] at hnone
    exact Bool.eq_false_iff.mpr hnone
  rw [Page.spans, Page.span_eq_nil (hside .left), Page.span_eq_nil (hside .right), List.append_nil]

private theorem flatMap_filter_of_nil {α β : Type} (f : α → List β) (p : α → Bool)
    (xs : List α)
    (hnil : ∀ x ∈ xs, p x = false → f x = []) : (xs.filter p).flatMap f = xs.flatMap f := by
  induction xs with
  | nil => rfl
  | cons x xs ih =>
      have hrest := ih fun y hy => hnil y (List.mem_cons_of_mem _ hy)
      cases hp : p x with
      | true => simp [hp, hrest]
      | false => simp [hp, hrest, hnil x (List.mem_cons_self ..) hp]

variable [Store σ] {past : Pool σ} {world : World σ}

theorem living_spans (h : Ordered past world) :
    world.living.flatMap Page.spans = world.pool.ledger.spans := by
  apply flatMap_filter_of_nil
  intro page hmem hgone
  obtain ⟨number, hpage⟩ := Ledger.exists_of_mem_pages hmem
  apply spans_of_gone h.kept.balanced hpage
  simpa using hgone

theorem countP_holders (h : Ordered past world) (number : Nat) (kind : Hold → Bool) :
    (world.holders number).countP (kind ∘ Cursor.hold) =
      world.pool.ledger.tally world.holds fun hold => hold.on number && kind hold := by
  rw [holders, living_spans h, List.countP_filter, List.countP_append]
  simp only [Ledger.tally, holds, List.countP_map]
  congr 1
  · apply List.countP_congr
    intro entry _
    simp [Hold.on, and_comm]
  · apply List.countP_congr
    intro cursor _
    simp [Hold.on, and_comm]

theorem Ordered.accounted (h : Ordered past world) : world.Accounted := by
  have hrefs : ∀ {number page}, world.pool.ledger.get? number = some page →
      page.refs = (world.holders number).length := by
    intro number page hpage
    have hcount := countP_holders h number fun _ => true
    rw [h.kept.balanced.refs hpage]
    simpa [Function.comp_def] using hcount.symm
  refine ⟨hrefs, ?_, h.kept.balanced.attached, ?_⟩
  · intro number page hpage header joint left right hblock side
    rw [h.kept.balanced.needs hpage side, hblock]
    exact (countP_holders h number fun hold => hold.extent.overlaps (joint.range side)).symm
  · intro id cursor hmem
    have hheld : cursor.hold ∈ world.holds := List.mem_map.mpr ⟨_, hmem, rfl⟩
    obtain ⟨page, hpage, hblock⟩ := h.kept.balanced.known cursor.hold hheld
    rw [Cursor.hold_block] at hpage hblock
    refine ⟨⟨page, hpage, hblock⟩, ?_⟩
    rw [Pool.refs, Ledger.refs, hpage]
    exact hrefs hpage

/-- After any run, whatever the stores answered and whichever operations were refused, the books are
exact; no need was ever raised from zero, neither in the middle of an operation, of which the
journal tells, nor from before an operation to after it. -/
theorem books_exact (operations : List (Operation σ)) :
    let world := run {} operations
    world.Accounted ∧
      (∀ number side before,
        Event.childNeeded number side before ∈ world.pool.backend.journal → 0 < before) ∧
      ∀ operation number page side, world.pool.ledger.get? number = some page →
        (page.slot side).needs = 0 →
        ∃ next, (world.apply operation).2.pool.ledger.get? number = some next ∧
          (next.slot side).needs = 0 := by
  intro world
  have hordered : Ordered {} world := run_empty_ordered operations
  refine ⟨hordered.accounted, ?_, ?_⟩
  · intro number side before hmem
    exact hordered.kept.told.raised (Array.mem_toList_iff.mpr hmem)
  · intro operation number page side hpage hzero
    have hstep := (apply_lands hordered.restart operation).ordered
    obtain ⟨next, hnext, -, hkept⟩ := hstep.kept.since.pages hpage
    exact ⟨next, hnext, hkept side hzero⟩

end World

end SharedStream
