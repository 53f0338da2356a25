import SharedStream.Retirement
/-!
What it means that the books are right. A block is held by those who are handed to us from outside
and by the slots in which it is a child. The books are *balanced* if the page of every block counts
exactly its holders, each slot exactly those of them that see its range, and a slot keeps its child
as long as somebody sees it. Since everything is a count, the order of the holders does not matter,
and an operation may be checked one page at a time.
-/

namespace SharedStream

/-- Somebody holds a block, and sees so much of it. -/
structure Hold where
  block : Block
  extent : Extent

namespace Hold

/-- The hold is on the block with this number. -/
def on (number : Nat) (hold : Hold) : Bool := hold.block.number == number

/-- The hold is on the block with this number and sees a part of `range`. -/
def sees (number : Nat) (range : Extent) (hold : Hold) : Bool :=
  hold.on number && hold.extent.overlaps range

theorem on_of_sees {number : Nat} {range : Extent} {hold : Hold}
    (h : hold.sees number range = true) : hold.on number = true :=
  (Bool.and_eq_true_iff.mp h).1

theorem sees_of_not_on {number : Nat} {range : Extent} {hold : Hold}
    (h : hold.on number = false) : hold.sees number range = false := by
  simp [sees, h]

end Hold

/-- The hold that a cursor has on its block. -/
def Cursor.hold (cursor : Cursor) : Hold := ⟨cursor.block, cursor.extent⟩

@[simp] theorem Cursor.hold_block (cursor : Cursor) : cursor.hold.block = cursor.block := rfl

/-- The range of a child of a composition. A block over a store has no children. -/
def Block.slotRange : Block → Side → Extent
  | .source _ _, _ => .empty
  | .composed _ joint _ _, side => joint.range side

namespace Page

def span (page : Page) (side : Side) : List Cursor :=
  if (page.slot side).attached then (page.block.child? side).toList else []

def spans (page : Page) : List Cursor := page.span .left ++ page.span .right

theorem mem_spans_iff {page : Page} {cursor : Cursor} :
    cursor ∈ page.spans ↔
      ∃ side, (page.slot side).attached = true ∧ page.block.child? side = some cursor := by
  have hspan : ∀ side, cursor ∈ page.span side ↔
      (page.slot side).attached = true ∧ page.block.child? side = some cursor := by
    intro side
    unfold span
    split <;> simp_all
  simp only [spans, List.mem_append, hspan]
  constructor
  · rintro (hleft | hright)
    · exact ⟨.left, hleft⟩
    · exact ⟨.right, hright⟩
  · rintro ⟨side, hside⟩
    cases side with
    | left => exact Or.inl hside
    | right => exact Or.inr hside

end Page

namespace Ledger

/-- The children in all slots. A block that is gone keeps none. -/
def spans (ledger : Ledger) : List Cursor := ledger.pages.toList.flatMap Page.spans

/-- How many holds are of some kind, among `held` and those of the slots. -/
def tally (ledger : Ledger) (held : List Hold) (kind : Hold → Bool) : Nat :=
  held.countP kind + ledger.spans.countP (kind ∘ Cursor.hold)

/-- The block has a page. -/
def Knows (ledger : Ledger) (block : Block) : Prop :=
  ∃ page, ledger.get? block.number = some page ∧ page.block = block

/-- The books are right if the blocks are held by `held` and by the slots. -/
structure Balanced (ledger : Ledger) (held : List Hold) : Prop where
  numbered : ∀ {number page}, ledger.get? number = some page → page.block.number = number
  /-- Children have pages, and were there before their composition. -/
  rooted : ∀ {number page}, ledger.get? number = some page →
    ∀ {side child}, page.block.child? side = some child →
      ledger.Knows child.block ∧ child.block.number < number
  known : ∀ hold ∈ held, ledger.Knows hold.block
  refs : ∀ {number page}, ledger.get? number = some page →
    page.refs = ledger.tally held (Hold.on number)
  needs : ∀ {number page}, ledger.get? number = some page → ∀ side,
    (page.slot side).needs = ledger.tally held (Hold.sees number (page.block.slotRange side))
  attached : ∀ {number page}, ledger.get? number = some page → ∀ side,
    ((page.slot side).attached = true ↔ 0 < (page.slot side).needs)

theorem empty_balanced : Balanced {} [] := by
  have hnone : ∀ {number page}, Ledger.get? {} number = some page → False := by
    intro number page hpage
    simp [get?] at hpage
  constructor
  case known => simp
  all_goals
    intro number page hpage
    exact (hnone hpage).elim

private theorem countP_flatMap_modify {α β : Type} (f : α → List β) (change : α → α)
    (q : β → Bool) (xs : List α) (i : Nat) (x : α) (hx : xs[i]? = some x) :
    ((xs.modify i change).flatMap f).countP q + (f x).countP q =
      (xs.flatMap f).countP q + (f (change x)).countP q := by
  induction xs generalizing i with
  | nil => simp at hx
  | cons y ys ih =>
      cases i with
      | zero =>
          obtain rfl : y = x := by simpa using hx
          simp only [List.modify_zero_cons, List.flatMap_cons, List.countP_append]
          omega
      | succ i =>
          have hrest := ih i (by simpa using hx)
          simp only [List.modify_succ_cons, List.flatMap_cons, List.countP_append]
          omega

variable {ledger : Ledger} {held : List Hold} {number : Nat} {page : Page}

theorem countP_spans_modify (hpage : ledger.get? number = some page) (change : Page → Page)
    (q : Cursor → Bool) :
    (ledger.modify number change).spans.countP q + page.spans.countP q =
      ledger.spans.countP q + (change page).spans.countP q := by
  have hlist : ledger.pages.toList[number]? = some page := by simpa [get?] using hpage
  simpa [spans, modify] using
    countP_flatMap_modify Page.spans change q ledger.pages.toList number page hlist

theorem get?_modify_self (hpage : ledger.get? number = some page) (change : Page → Page) :
    (ledger.modify number change).get? number = some (change page) := by
  simp [get?_modify, hpage]

theorem get?_modify_of_ne {other : Nat} (hne : other ≠ number) (change : Page → Page) :
    (ledger.modify number change).get? other = ledger.get? other := by
  rw [get?_modify, if_neg (Ne.symm hne)]

/-- Changing a page without changing its block leaves everything known. -/
theorem Knows.modify {block : Block} (h : ledger.Knows block) {change : Page → Page}
    (hblock : ∀ page, (change page).block = page.block) :
    (ledger.modify number change).Knows block := by
  obtain ⟨page, hpage, rfl⟩ := h
  by_cases hne : page.block.number = number
  · subst hne
    exact ⟨change page, get?_modify_self hpage change, hblock page⟩
  · exact ⟨page, by rw [get?_modify_of_ne hne, hpage], rfl⟩

theorem Knows.unique {block other : Block} (h : ledger.Knows block) (hother : ledger.Knows other)
    (hnumber : block.number = other.number) : block = other := by
  obtain ⟨page, hpage, rfl⟩ := h
  obtain ⟨page', hpage', rfl⟩ := hother
  rw [hnumber, hpage'] at hpage
  rw [Option.some.inj hpage]

theorem lt_fresh (hpage : ledger.get? number = some page) : number < ledger.fresh := by
  obtain ⟨hlt, _⟩ := Array.getElem?_eq_some_iff.mp hpage
  exact hlt

theorem exists_of_mem_pages (hmem : page ∈ ledger.pages.toList) :
    ∃ number, ledger.get? number = some page := by
  obtain ⟨number, hlt, rfl⟩ := List.getElem_of_mem hmem
  refine ⟨number, ?_⟩
  rw [get?, ← Array.getElem?_toList]
  exact List.getElem?_eq_getElem hlt

theorem mem_spans_iff {cursor : Cursor} :
    cursor ∈ ledger.spans ↔ ∃ number page side, ledger.get? number = some page ∧
      (page.slot side).attached = true ∧ page.block.child? side = some cursor := by
  simp only [spans, List.mem_flatMap, Page.mem_spans_iff]
  constructor
  · rintro ⟨page, hmem, side, hattached, hchild⟩
    obtain ⟨number, hpage⟩ := exists_of_mem_pages hmem
    exact ⟨number, page, side, hpage, hattached, hchild⟩
  · rintro ⟨number, page, side, hpage, hattached, hchild⟩
    have hmem : page ∈ ledger.pages.toList :=
      Array.mem_toList_iff.mpr (Array.mem_of_getElem? hpage)
    exact ⟨page, hmem, side, hattached, hchild⟩

namespace Balanced

theorem perm (h : ledger.Balanced held) {others : List Hold} (hperm : held.Perm others) :
    ledger.Balanced others := by
  have htally : ∀ kind, ledger.tally others kind = ledger.tally held kind := by
    intro kind
    simp only [tally, hperm.countP_eq]
  exact {
    numbered := h.numbered
    rooted := h.rooted
    known := fun hold hmem => h.known hold (hperm.mem_iff.mpr hmem)
    refs := fun hpage => (h.refs hpage).trans (htally _).symm
    needs := fun hpage side => (h.needs hpage side).trans (htally _).symm
    attached := h.attached }

/-- The books after a change to one page. It is enough to count the holds on that page's block, if
no hold on another block is gained or lost. -/
theorem modify (h : ledger.Balanced held) {others : List Hold} {change : Page → Page}
    (hpage : ledger.get? number = some page)
    (hblock : ∀ page, (change page).block = page.block)
    (hknown : ∀ hold ∈ others, ledger.Knows hold.block)
    (helse : ∀ kind : Hold → Bool, (∀ hold, hold.on number = true → kind hold = false) →
      (ledger.modify number change).tally others kind = ledger.tally held kind)
    (hrefs : (change page).refs = (ledger.modify number change).tally others (Hold.on number))
    (hneeds : ∀ side, ((change page).slot side).needs =
      (ledger.modify number change).tally others
        (Hold.sees number (page.block.slotRange side)))
    (hattached : ∀ side, ((change page).slot side).attached = true ↔
      0 < ((change page).slot side).needs) :
    (ledger.modify number change).Balanced others := by
  have hother : ∀ {m : Nat}, m ≠ number → ∀ hold : Hold, hold.on number = true →
      hold.on m = false := by
    intro m hne hold hon
    simp only [Hold.on, beq_iff_eq, beq_eq_false_iff_ne] at hon ⊢
    omega
  have hcases : ∀ {m p}, (ledger.modify number change).get? m = some p →
      (m = number ∧ p = change page) ∨ (m ≠ number ∧ ledger.get? m = some p) := by
    intro m p hp
    by_cases hm : m = number
    · subst hm
      rw [get?_modify_self hpage] at hp
      exact Or.inl ⟨rfl, (Option.some.inj hp).symm⟩
    · rw [get?_modify_of_ne hm] at hp
      exact Or.inr ⟨hm, hp⟩
  refine ⟨?_, ?_, fun hold hmem => (hknown hold hmem).modify hblock, ?_, ?_, ?_⟩
  · intro m p hp
    rcases hcases hp with ⟨rfl, rfl⟩ | ⟨_, hp⟩
    · rw [hblock]
      exact h.numbered hpage
    · exact h.numbered hp
  · intro m p hp side child hchild
    rcases hcases hp with ⟨rfl, rfl⟩ | ⟨_, hp⟩
    · rw [hblock] at hchild
      obtain ⟨hknows, hlt⟩ := h.rooted hpage hchild
      exact ⟨hknows.modify hblock, hlt⟩
    · obtain ⟨hknows, hlt⟩ := h.rooted hp hchild
      exact ⟨hknows.modify hblock, hlt⟩
  · intro m p hp
    rcases hcases hp with ⟨rfl, rfl⟩ | ⟨hne, hp⟩
    · exact hrefs
    · rw [helse _ (hother hne)]
      exact h.refs hp
  · intro m p hp side
    rcases hcases hp with ⟨rfl, rfl⟩ | ⟨hne, hp⟩
    · rw [hblock]
      exact hneeds side
    · rw [helse _ fun hold hon => Hold.sees_of_not_on (hother hne hold hon)]
      exact h.needs hp side
  · intro m p hp side
    rcases hcases hp with ⟨rfl, rfl⟩ | ⟨_, hp⟩
    · exact hattached side
    · exact h.attached hp side

theorem knows_of_span (h : ledger.Balanced held) {cursor : Cursor}
    (hspan : cursor ∈ ledger.spans) : ledger.Knows cursor.block := by
  obtain ⟨number, page, side, hpage, -, hchild⟩ := mem_spans_iff.mp hspan
  exact (h.rooted hpage hchild).1

theorem page_of_mem (h : ledger.Balanced held) {hold : Hold} (hmem : hold ∈ held) :
    ∃ page, ledger.get? hold.block.number = some page ∧ page.block = hold.block ∧
      0 < page.refs := by
  obtain ⟨page, hpage, hblock⟩ := h.known hold hmem
  refine ⟨page, hpage, hblock, ?_⟩
  have hcount : 0 < held.countP (Hold.on hold.block.number) :=
    List.countP_pos_iff.mpr ⟨hold, hmem, by simp [Hold.on]⟩
  have hrefs := h.refs hpage
  simp only [tally] at hrefs
  omega

end Balanced

/-- A hold that is counted. -/
def Counts (ledger : Ledger) (held : List Hold) (hold : Hold) : Prop :=
  hold ∈ held ∨ ∃ cursor ∈ ledger.spans, cursor.hold = hold

theorem Counts.tally_pos {held : List Hold} {hold : Hold} (h : ledger.Counts held hold)
    {kind : Hold → Bool} (hkind : kind hold = true) : 0 < ledger.tally held kind := by
  unfold tally
  rcases h with hheld | ⟨cursor, hspan, rfl⟩
  · have hcount := List.countP_pos_iff.mpr ⟨hold, hheld, hkind⟩
    omega
  · have hcount : 0 < ledger.spans.countP (kind ∘ Cursor.hold) :=
      List.countP_pos_iff.mpr ⟨cursor, hspan, hkind⟩
    omega

theorem Counts.knows {held : List Hold} {hold : Hold} (h : ledger.Counts held hold)
    (hbalanced : ledger.Balanced held) : ledger.Knows hold.block := by
  rcases h with hheld | ⟨cursor, hspan, rfl⟩
  · exact hbalanced.known hold hheld
  · exact hbalanced.knows_of_span hspan

/-- A child that a counted hold sees is kept, and counted itself. -/
theorem Counts.child {held : List Hold} {hold : Hold} (h : ledger.Counts held hold)
    (hbalanced : ledger.Balanced held) {side : Side}
    (hsees : hold.extent.overlaps (hold.block.slotRange side) = true) {child : Cursor}
    (hchild : hold.block.child? side = some child) :
    ledger.attached hold.block.number side = true ∧ ledger.Counts held child.hold := by
  obtain ⟨page, hpage, hblock⟩ := h.knows hbalanced
  have hneeds : 0 < (page.slot side).needs := by
    rw [hbalanced.needs hpage side, hblock]
    apply h.tally_pos
    simp [Hold.sees, Hold.on, hsees]
  have hattached := (hbalanced.attached hpage side).mpr hneeds
  refine ⟨by simpa [attached, slot, hpage] using hattached, Or.inr ⟨child, ?_, rfl⟩⟩
  exact mem_spans_iff.mpr ⟨_, page, side, hpage, hattached, by rw [hblock, hchild]⟩

end Ledger

end SharedStream
