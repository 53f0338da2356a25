import Mathlib.Algebra.BigOperators.Group.Finset.Basic
import SharedStream.Proofs.Balance
/-!
Blocks under other numbers. A number only tells a block from the others, so two pools may differ in
nothing but the numbers of their blocks. And the books of a pool say nothing of their own: two
balanced ledgers with the same blocks and the same outside holders, up to the numbers, have the same
pages, up to the numbers.
-/

namespace SharedStream

/-- Another number for every block, one to one. -/
abbrev Renumbering := Equiv.Perm Nat

def Block.renumber (ρ : Renumbering) : Block → Block
  | source header store => .source { header with number := ρ header.number } store
  | composed header joint left right =>
      .composed { header with number := ρ header.number } joint (left.renumber ρ)
        (right.renumber ρ)

def Cursor.renumber (ρ : Renumbering) (cursor : Cursor) : Cursor :=
  ⟨cursor.block.renumber ρ, cursor.view⟩

def Hold.renumber (ρ : Renumbering) (hold : Hold) : Hold :=
  ⟨hold.block.renumber ρ, hold.extent⟩

def Page.renumber (ρ : Renumbering) (page : Page) : Page :=
  { page with block := page.block.renumber ρ }

variable {ρ : Renumbering}

namespace Block

@[simp] theorem number_renumber (block : Block) : (block.renumber ρ).number = ρ block.number := by
  cases block <;> rfl

@[simp] theorem slotRange_renumber (block : Block) (side : Side) :
    (block.renumber ρ).slotRange side = block.slotRange side := by
  cases block <;> rfl

@[simp] theorem child?_renumber (block : Block) (side : Side) :
    (block.renumber ρ).child? side = (block.child? side).map (Cursor.renumber ρ) := by
  cases block with
  | source header store => rfl
  | composed header joint left right => cases side <;> rfl

@[simp] theorem renumber_symm (block : Block) : (block.renumber ρ).renumber ρ.symm = block := by
  induction block with
  | source header store => simp [renumber]
  | composed header joint left right ihleft ihright => simp [renumber, ihleft, ihright]

end Block

@[simp] theorem Cursor.renumber_symm (cursor : Cursor) :
    (cursor.renumber ρ).renumber ρ.symm = cursor := by
  simp [Cursor.renumber]

@[simp] theorem Cursor.hold_renumber (cursor : Cursor) :
    (cursor.renumber ρ).hold = cursor.hold.renumber ρ := rfl

namespace Hold

@[simp] theorem on_renumber (hold : Hold) (number : Nat) :
    (hold.renumber ρ).on (ρ number) = hold.on number := by
  simp [on, renumber]

@[simp] theorem sees_renumber (hold : Hold) (number : Nat) (range : Extent) :
    (hold.renumber ρ).sees (ρ number) range = hold.sees number range := by
  rw [sees, on_renumber]
  rfl

end Hold

/-- A child counts on one page as on the other, if it is kept on both or counts for nothing. -/
theorem Page.countP_span_renumber {page next : Page} (hblock : next.block = page.block.renumber ρ)
    {kind other : Hold → Bool} (hsame : ∀ hold, other (hold.renumber ρ) = kind hold)
    (side : Side)
    (hkept : ∀ child, page.block.child? side = some child → kind child.hold = true →
      next.slot side = page.slot side) :
    (next.span side).countP (other ∘ Cursor.hold) =
      (page.span side).countP (kind ∘ Cursor.hold) := by
  unfold span
  rw [hblock, Block.child?_renumber]
  cases hchild : page.block.child? side with
  | none => simp
  | some child =>
      cases hkind : kind child.hold with
      | true =>
          rw [hkept child hchild hkind]
          split <;> simp [hsame]
      | false => split <;> split <;> simp [hsame, hkind]

theorem Slot.eq_of_needs {slot other : Slot} (hneeds : slot.needs = other.needs)
    (hattached : slot.attached = true ↔ other.attached = true) : slot = other := by
  obtain ⟨needs, attached⟩ := slot
  obtain ⟨needs', attached'⟩ := other
  obtain rfl : needs = needs' := hneeds
  obtain rfl : attached = attached' := Bool.eq_iff_iff.mpr hattached
  rfl

namespace Ledger

private theorem countP_flatMap_eq_sum {α β : Type} (f : α → List β) (q : β → Bool)
    (xs : List α) :
    (xs.flatMap f).countP q = ∑ i ∈ Finset.range xs.length, (xs[i]?.elim [] f).countP q := by
  induction xs with
  | nil => rfl
  | cons x xs ih =>
      rw [List.flatMap_cons, List.countP_append, ih, List.length_cons, Finset.sum_range_succ']
      simp only [List.getElem?_cons_zero, List.getElem?_cons_succ, Option.elim_some]
      omega

theorem countP_spans_eq_sum (ledger : Ledger) (q : Cursor → Bool) :
    ledger.spans.countP q =
      ∑ number ∈ Finset.range ledger.fresh,
        ((ledger.get? number).elim [] Page.spans).countP q := by
  rw [spans, countP_flatMap_eq_sum]
  simp [fresh, get?]

theorem exists_page_of_lt {ledger : Ledger} {number : Nat} (hlt : number < ledger.fresh) :
    ∃ page, ledger.get? number = some page :=
  ⟨_, Array.getElem?_eq_some_iff.mpr ⟨hlt, rfl⟩⟩

variable {ledger other : Ledger} {held others : List Hold}

/-- A block whose number was given out before is not affected by a renumbering of later ones. -/
theorem Balanced.renumber_eq (h : ledger.Balanced held)
    (hfixed : ∀ number < ledger.fresh, ρ number = number) (block : Block) :
    ledger.Knows block → block.renumber ρ = block := by
  induction block with
  | source header store =>
      rintro ⟨page, hpage, -⟩
      have hnumber : ρ header.number = header.number := hfixed _ (lt_fresh hpage)
      simp only [Block.renumber, hnumber]
  | composed header joint left right ihleft ihright =>
      rintro ⟨page, hpage, hblock⟩
      have hnumber : ρ header.number = header.number := hfixed _ (lt_fresh hpage)
      have hchild : ∀ side, ledger.Knows (joint.child left right side).block :=
        fun side => (@h.rooted _ _ hpage side _ (by rw [hblock]; rfl)).1
      simp only [Block.renumber, hnumber, ihleft (hchild .left), ihright (hchild .right)]

/-- The same blocks, up to their numbers. -/
structure Resembles (ρ : Renumbering) (ledger other : Ledger) : Prop where
  fresh : other.fresh = ledger.fresh
  bounded : ∀ number, number < ledger.fresh ↔ ρ number < ledger.fresh
  blocks : ∀ {number page}, ledger.get? number = some page →
    ∃ next, other.get? (ρ number) = some next ∧ next.block = page.block.renumber ρ

namespace Resembles

/-- The holds on a block are counted alike if the compositions made after it keep the same children:
no other composition can hold the block. -/
theorem tally_eq (hblocks : ledger.Resembles ρ other) (h : ledger.Balanced held)
    (hheld : others.Perm (held.map (Hold.renumber ρ))) {number : Nat}
    (hlater : ∀ {later page next}, number < later → ledger.get? later = some page →
      other.get? (ρ later) = some next → ∀ side, next.slot side = page.slot side)
    {kind kind' : Hold → Bool} (hkind : ∀ hold, kind hold = true → hold.on number = true)
    (hsame : ∀ hold, kind' (hold.renumber ρ) = kind hold) :
    other.tally others kind' = ledger.tally held kind := by
  have hpages : ∀ place ∈ Finset.range ledger.fresh,
      ((ledger.get? place).elim [] Page.spans).countP (kind ∘ Cursor.hold) =
        ((other.get? (ρ place)).elim [] Page.spans).countP (kind' ∘ Cursor.hold) := by
    intro place hplace
    obtain ⟨page, hpage⟩ := exists_page_of_lt (Finset.mem_range.mp hplace)
    obtain ⟨next, hnext, hblock⟩ := hblocks.blocks hpage
    have hside : ∀ side, (next.span side).countP (kind' ∘ Cursor.hold) =
        (page.span side).countP (kind ∘ Cursor.hold) := by
      intro side
      refine Page.countP_span_renumber hblock hsame side fun child hchild hcounts => ?_
      have hon : child.block.number = number := by simpa [Hold.on] using hkind child.hold hcounts
      have hbelow := (h.rooted hpage hchild).2
      exact hlater (by omega) hpage hnext side
    simp only [hpage, hnext, Option.elim_some, Page.spans, List.countP_append, hside]
  have hcounts : others.countP kind' = held.countP kind := by
    rw [hheld.countP_eq, List.countP_map]
    exact List.countP_congr fun hold _ => by simp [hsame]
  have hspans : other.spans.countP (kind' ∘ Cursor.hold) =
      ledger.spans.countP (kind ∘ Cursor.hold) := by
    rw [countP_spans_eq_sum, countP_spans_eq_sum, hblocks.fresh]
    exact (Finset.sum_equiv ρ (by simpa using hblocks.bounded) hpages).symm
  simp only [tally, hcounts, hspans]

variable (hblocks : ledger.Resembles ρ other) (h : ledger.Balanced held)
  (h' : other.Balanced others) (hheld : others.Perm (held.map (Hold.renumber ρ)))

include hblocks h h' hheld

/-- Slots say the same, from the last composition down to the first one. -/
theorem slot_eq : ∀ {number page next}, ledger.get? number = some page →
    other.get? (ρ number) = some next → ∀ side, next.slot side = page.slot side := by
  intro number page next hpage hnext side
  have hlater : ∀ {later page next}, number < later → ledger.get? later = some page →
      other.get? (ρ later) = some next → ∀ side, next.slot side = page.slot side := by
    intro later page next hlt hpage hnext
    have hbound := lt_fresh hpage
    exact slot_eq hpage hnext
  obtain ⟨next', hnext', hblock⟩ := hblocks.blocks hpage
  obtain rfl := Option.some.inj (hnext'.symm.trans hnext)
  have hneeds : (next'.slot side).needs = (page.slot side).needs := by
    rw [h'.needs hnext side, h.needs hpage side, hblock, Block.slotRange_renumber]
    exact hblocks.tally_eq h hheld hlater (fun hold => Hold.on_of_sees)
      fun hold => hold.sees_renumber ..
  apply Slot.eq_of_needs hneeds
  rw [h'.attached hnext side, h.attached hpage side, hneeds]
termination_by number => ledger.fresh - number

/-- Who holds which block determines the books. -/
theorem get?_eq {number : Nat} {page : Page} (hpage : ledger.get? number = some page) :
    other.get? (ρ number) = some (page.renumber ρ) := by
  obtain ⟨next, hnext, hblock⟩ := hblocks.blocks hpage
  have hslot := hblocks.slot_eq h h' hheld hpage hnext
  have hrefs : next.refs = page.refs := by
    rw [h'.refs hnext, h.refs hpage]
    exact hblocks.tally_eq h hheld (fun _ => hblocks.slot_eq h h' hheld) (fun _ => id)
      fun hold => hold.on_renumber _
  obtain ⟨block, refs, left, right⟩ := next
  obtain rfl : left = page.left := hslot .left
  obtain rfl : right = page.right := hslot .right
  obtain rfl : refs = page.refs := hrefs
  rw [hnext, Page.renumber, ← hblock]

end Resembles

end Ledger

end SharedStream
