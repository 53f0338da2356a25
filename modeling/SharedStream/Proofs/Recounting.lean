import SharedStream.Cursor.Making
import SharedStream.Proofs.Balance
/-!
The single changes to the books, and what they keep balanced. A hold begins without seeing anything,
then its extent is counted in the slots, later counted out, and only then does the hold end. So the
last hold on a block never leaves a child behind in a slot, and a whole list of detached children is
disposed of with balanced books after every one of them.
-/

namespace SharedStream

namespace Slot

/-- What a change of one holder's extent does to a slot whose child is kept as long as it is
needed. -/
theorem recount_spec (slot : Slot) (range before after : Extent)
    (hattached : slot.attached = true ↔ 0 < slot.needs)
    (hbefore : before.overlaps range = true → 0 < slot.needs)
    (hafter : after.overlaps range = true → 0 < slot.needs) :
    (slot.recount range before after).1.needs + (before.overlaps range).toNat =
        slot.needs + (after.overlaps range).toNat ∧
      ((slot.recount range before after).1.attached = true ↔
        0 < (slot.recount range before after).1.needs) ∧
      (slot.recount range before after).2 =
        (slot.attached && !(slot.recount range before after).1.attached) ∧
      ((slot.recount range before after).1.attached = true → slot.attached = true) := by
  unfold recount
  cases hb : before.overlaps range <;> cases ha : after.overlaps range
  · simp [hattached]
  · have hneeds := hafter ha
    simp [hattached.mpr hneeds]
  · have hneeds := hbefore hb
    by_cases hone : slot.needs = 1
    · simp [hone, vacant]
    · simp only [hone, if_false, Bool.toNat_false, Bool.toNat_true]
      refine ⟨by omega, ?_, by simp, id⟩
      rw [hattached]
      omega
  · simp [hattached]

end Slot

namespace Page

theorem slot_setSlot_of_ne (page : Page) (slot : Slot) {side other : Side} (hne : side ≠ other) :
    (page.setSlot slot side).slot other = page.slot other := by
  cases side <;> cases other <;> first | rfl | exact absurd rfl hne

def setSlots (left right : Slot) (page : Page) : Page :=
  (page.setSlot right .right).setSlot left .left

@[simp] theorem block_setSlots (page : Page) (left right : Slot) :
    (page.setSlots left right).block = page.block := rfl

@[simp] theorem refs_setSlots (page : Page) (left right : Slot) :
    (page.setSlots left right).refs = page.refs := rfl

theorem slot_withRefs (page : Page) (refs : Nat) (side : Side) :
    ({ page with refs } : Page).slot side = page.slot side := by
  cases side <;> rfl

theorem spans_withRefs (page : Page) (refs : Nat) :
    ({ page with refs } : Page).spans = page.spans := rfl

theorem span_eq_nil {page : Page} {side : Side} (h : (page.slot side).attached = false) :
    page.span side = [] := by
  simp [span, h]

/-- A slot either keeps its child or hands it out. -/
theorem countP_span_handed {page next : Page} {side : Side} {child : Cursor} {gone : Bool}
    (hchild : page.block.child? side = some child) (hnext : next.block = page.block)
    (hgone : gone = ((page.slot side).attached && !(next.slot side).attached))
    (hkept : (next.slot side).attached = true → (page.slot side).attached = true)
    (q : Cursor → Bool) :
    (page.span side).countP q =
      (if gone then [child] else []).countP q + (next.span side).countP q := by
  simp only [span, hnext, hchild, Option.toList_some, hgone]
  cases hold : (page.slot side).attached <;> cases hnew : (next.slot side).attached
  · simp
  · rw [hkept hnew] at hold
    cases hold
  · simp
  · simp

/-- What a page hands out, and what it keeps. -/
theorem countP_spans_handed {page next : Page} {child : Side → Cursor} {gone : Side → Bool}
    (hchild : ∀ side, page.block.child? side = some (child side))
    (hnext : next.block = page.block)
    (hgone : ∀ side, gone side = ((page.slot side).attached && !(next.slot side).attached))
    (hkept : ∀ side, (next.slot side).attached = true → (page.slot side).attached = true)
    (q : Cursor → Bool) :
    page.spans.countP q =
      ((if gone .left then [child .left] else []) ++
        (if gone .right then [child .right] else [])).countP q + next.spans.countP q := by
  have hside : ∀ side, (page.span side).countP q =
      (if gone side then [child side] else []).countP q + (next.span side).countP q :=
    fun side => countP_span_handed (hchild side) hnext (hgone side) (hkept side) q
  simp only [spans, List.countP_append, hside]
  omega

end Page

namespace Ledger

theorem modify_modify (ledger : Ledger) (number : Nat) (first second : Page → Page) :
    (ledger.modify number first).modify number second =
      ledger.modify number (second ∘ first) := by
  simp only [modify, mk.injEq]
  apply Array.ext_getElem?
  intro i
  simp only [Array.getElem?_modify]
  split <;> simp

theorem modify_id (ledger : Ledger) (number : Nat) : ledger.modify number id = ledger := by
  cases ledger
  simp only [modify, mk.injEq]
  apply Array.ext_getElem?
  intro i
  simp [Array.getElem?_modify]

theorem tally_cons (ledger : Ledger) (hold : Hold) (held : List Hold) (kind : Hold → Bool) :
    ledger.tally (hold :: held) kind = ledger.tally held kind + (kind hold).toNat := by
  rw [Ledger.tally, Ledger.tally, List.countP_cons]
  cases kind hold with
  | false => simp
  | true => simp [Nat.add_right_comm]

/-- A holder whose extent shrinks goes on to see only what it saw. -/
theorem seen_of_narrow (ledger : Ledger) (block : Block) {before after : Extent} (held : List Hold)
    (hnarrow : ∀ range, after.overlaps range = true → before.overlaps range = true)
    (side : Side) (hoverlap : after.overlaps (block.slotRange side) = true) :
    0 < ledger.tally (⟨block, before⟩ :: held)
      (Hold.sees block.number (block.slotRange side)) := by
  rw [tally_cons]
  simp [Hold.sees, Hold.on, hnarrow _ hoverlap]

/-- Children that a page hands out are counted as before, now among the holds. -/
theorem tally_handed {ledger : Ledger} {number : Nat} {page : Page} {change : Page → Page}
    {detached : List Cursor} (hpage : ledger.get? number = some page)
    (hhanded : ∀ q : Cursor → Bool,
      page.spans.countP q = detached.countP q + (change page).spans.countP q)
    (hold : Hold) (held : List Hold) (kind : Hold → Bool) :
    (ledger.modify number change).tally (hold :: (detached.map Cursor.hold ++ held)) kind =
      ledger.tally held kind + (kind hold).toNat := by
  have hspans := countP_spans_modify hpage change (kind ∘ Cursor.hold)
  have hpageSpans := hhanded (kind ∘ Cursor.hold)
  rw [tally_cons]
  simp only [tally, List.countP_append, List.countP_map]
  omega

variable {ledger : Ledger} {held : List Hold}

/-- A hold that sees nothing counts for its block only. -/
theorem Balanced.retain {block : Block} (h : ledger.Balanced held) (hknows : ledger.Knows block) :
    (ledger.retain block.number).Balanced (⟨block, .empty⟩ :: held) := by
  obtain ⟨page, hpage, hblock⟩ := hknows
  have hspans : ∀ q : Cursor → Bool,
      (ledger.retain block.number).spans.countP q = ledger.spans.countP q := by
    intro q
    have hmodify := countP_spans_modify hpage (fun p => { p with refs := p.refs + 1 }) q
    rw [Page.spans_withRefs page (page.refs + 1)] at hmodify
    simp only [Ledger.retain]
    omega
  have htally : ∀ kind : Hold → Bool,
      (ledger.retain block.number).tally (⟨block, .empty⟩ :: held) kind =
        ledger.tally held kind + (kind ⟨block, .empty⟩).toNat := by
    intro kind
    rw [tally_cons, tally, tally, hspans]
  refine h.modify hpage (fun _ => rfl) ?_ ?_ ?_ ?_ ?_
  · intro hold hmem
    rcases List.mem_cons.mp hmem with rfl | hmem
    · exact ⟨page, hpage, hblock⟩
    · exact h.known hold hmem
  · intro kind hkind
    have hfalse := hkind ⟨block, .empty⟩ (by simp [Hold.on])
    rw [Ledger.retain] at htally
    simp [htally, hfalse]
  · rw [Ledger.retain] at htally
    simp [htally, h.refs hpage, Hold.on]
  · intro side
    rw [Ledger.retain] at htally
    rw [htally, Page.slot_withRefs page (page.refs + 1), h.needs hpage side]
    simp [Hold.sees]
  · intro side
    rw [Page.slot_withRefs page (page.refs + 1)]
    exact h.attached hpage side

@[simp] theorem spans_add (ledger : Ledger) (page : Page) :
    (ledger.add page).spans = ledger.spans ++ page.spans := by
  simp [spans, Ledger.add]

theorem Knows.lt_fresh {block : Block} (h : ledger.Knows block) : block.number < ledger.fresh := by
  obtain ⟨page, hpage, _⟩ := h
  exact Ledger.lt_fresh hpage

theorem Knows.add {block : Block} (h : ledger.Knows block) (page : Page) :
    (ledger.add page).Knows block := by
  have hne := Nat.ne_of_lt h.lt_fresh
  obtain ⟨old, hold, hblock⟩ := h
  exact ⟨old, (get?_add_of_ne ledger page hne).trans hold, hblock⟩

/-- Nobody can have held a block before it was there. -/
theorem Balanced.tally_fresh (h : ledger.Balanced held) {kind : Hold → Bool}
    (hkind : ∀ hold, kind hold = true → hold.on ledger.fresh = true) :
    ledger.tally held kind = 0 := by
  refine Nat.add_eq_zero_iff.mpr ⟨List.countP_eq_zero.mpr ?_, List.countP_eq_zero.mpr ?_⟩
  · intro hold hmem htrue
    have hlt := (h.known hold hmem).lt_fresh
    have hon := beq_iff_eq.mp (hkind hold htrue)
    omega
  · intro cursor hmem htrue
    have hlt := (h.knows_of_span hmem).lt_fresh
    have hon := beq_iff_eq.mp (hkind cursor.hold htrue)
    simp only [Cursor.hold_block] at hon
    omega

theorem get?_add_cases {page next : Page} {number : Nat}
    (hnext : (ledger.add page).get? number = some next) :
    (number = ledger.fresh ∧ next = page) ∨
      (number ≠ ledger.fresh ∧ ledger.get? number = some next) := by
  by_cases hne : number = ledger.fresh
  · subst hne
    rw [get?_add_fresh] at hnext
    exact Or.inl ⟨rfl, (Option.some.inj hnext).symm⟩
  · rw [get?_add_of_ne ledger page hne] at hnext
    exact Or.inr ⟨hne, hnext⟩

/-- A new block has one holder. The children that this holder sees move into the slots, where they
are counted as before. -/
theorem Balanced.add {page : Page} {extent : Extent}
    (h : ledger.Balanced (page.spans.map Cursor.hold ++ held))
    (hnumber : page.block.number = ledger.fresh) (hrefs : page.refs = 1)
    (hslot : ∀ side, page.slot side = .ofNeeded (extent.overlaps (page.block.slotRange side)))
    (hchild : ∀ {side child}, page.block.child? side = some child → ledger.Knows child.block) :
    (ledger.add page).Balanced (⟨page.block, extent⟩ :: held) := by
  have htally : ∀ kind : Hold → Bool,
      (ledger.add page).tally (⟨page.block, extent⟩ :: held) kind =
        ledger.tally (page.spans.map Cursor.hold ++ held) kind +
          (kind ⟨page.block, extent⟩).toNat := by
    intro kind
    rw [tally_cons]
    simp only [tally, spans_add, List.countP_append, List.countP_map]
    omega
  have hother : ∀ {number}, number ≠ ledger.fresh →
      Hold.on number ⟨page.block, extent⟩ = false := by
    intro number hne
    simpa [Hold.on, hnumber] using Ne.symm hne
  refine ⟨?_, ?_, ?_, ?_, ?_, ?_⟩
  · intro number next hnext
    rcases get?_add_cases hnext with ⟨rfl, rfl⟩ | ⟨_, hold⟩
    · exact hnumber
    · exact h.numbered hold
  · intro number next hnext side child hmine
    rcases get?_add_cases hnext with ⟨rfl, rfl⟩ | ⟨_, hold⟩
    · exact ⟨(hchild hmine).add _, (hchild hmine).lt_fresh⟩
    · obtain ⟨hknows, hlt⟩ := h.rooted hold hmine
      exact ⟨hknows.add page, hlt⟩
  · intro hold hmem
    rcases List.mem_cons.mp hmem with rfl | hmem
    · exact ⟨page, by rw [hnumber, get?_add_fresh], rfl⟩
    · exact (h.known hold (List.mem_append_right _ hmem)).add page
  · intro number next hnext
    rw [htally]
    rcases get?_add_cases hnext with ⟨rfl, rfl⟩ | ⟨hne, hold⟩
    · rw [h.tally_fresh fun _ hon => hon, hrefs]
      simp [Hold.on, hnumber]
    · rw [hother hne]
      exact h.refs hold
  · intro number next hnext side
    rw [htally]
    rcases get?_add_cases hnext with ⟨rfl, rfl⟩ | ⟨hne, hold⟩
    · rw [h.tally_fresh fun _ => Hold.on_of_sees, hslot]
      simp only [Hold.sees, Hold.on, hnumber, beq_self_eq_true, Bool.true_and, Slot.ofNeeded]
      cases extent.overlaps (next.block.slotRange side) <;> rfl
    · rw [Hold.sees_of_not_on (hother hne)]
      exact h.needs hold side
  · intro number next hnext side
    rcases get?_add_cases hnext with ⟨rfl, rfl⟩ | ⟨_, hold⟩
    · rw [hslot]
      cases extent.overlaps (next.block.slotRange side) <;> simp [Slot.ofNeeded, Slot.vacant]
    · exact h.attached hold side

end Ledger

namespace Pool

variable {σ : Type}

theorem recountSlot_of_page {pool : Pool σ} {header : Header} {page : Page} (joint : Joint)
    (before after : Extent) (side : Side)
    (hpage : pool.ledger.get? header.number = some page) :
    (pool.recountSlot header joint before after side).1.ledger =
        pool.ledger.modify header.number
          (fun p => p.setSlot ((page.slot side).recount (joint.range side) before after).1 side) ∧
      (pool.recountSlot header joint before after side).2 =
        ((page.slot side).recount (joint.range side) before after).2 := by
  have hnote : ∀ (pool : Pool σ) (needs : Nat) (seen sees : Bool),
      (pool.noteNeed header side needs seen sees).ledger = pool.ledger := by
    intro pool needs seen sees
    unfold noteNeed
    split <;> rfl
  simp only [recountSlot, hpage]
  split
  · rename_i hgone
    exact ⟨hnote _ _ _ _, hgone.symm⟩
  · rename_i hkept
    exact ⟨hnote _ _ _ _, (Bool.eq_false_iff.mpr hkept).symm⟩

/-- Both slots of a composition after a change of one holder's extent, and the children that are
detached by it. -/
theorem recount_of_page {pool : Pool σ} {header : Header} {joint : Joint} {left right : Block}
    {page : Page} (before after : Extent)
    (hpage : pool.ledger.get? header.number = some page) :
    let newLeft := page.left.recount (joint.range .left) before after
    let newRight := page.right.recount (joint.range .right) before after
    (pool.recount (.composed header joint left right) before after).1.ledger =
        pool.ledger.modify header.number (Page.setSlots newLeft.1 newRight.1) ∧
      (pool.recount (.composed header joint left right) before after).2 =
        (if newLeft.2 then [joint.child left right .left] else []) ++
          (if newRight.2 then [joint.child left right .right] else []) := by
  intro newLeft newRight
  obtain ⟨hrightLedger, hrightGone⟩ :=
    recountSlot_of_page joint before after .right hpage
  have hpageRight : (pool.recountSlot header joint before after .right).1.ledger.get?
      header.number = some (page.setSlot newRight.1 .right) := by
    rw [hrightLedger, Ledger.get?_modify_self hpage]
    rfl
  obtain ⟨hleftLedger, hleftGone⟩ :=
    recountSlot_of_page joint before after .left hpageRight
  constructor
  · simp only [recount]
    rw [hleftLedger, hrightLedger, Ledger.modify_modify]
    rfl
  · simp only [recount]
    rw [hleftGone, hrightGone]
    rfl


section recount

variable {pool : Pool σ} {before after : Extent} {held : List Hold} {header : Header}

theorem recount_source_balanced {store : StoreRef}
    (h : pool.ledger.Balanced (⟨.source header store, before⟩ :: held)) :
    pool.ledger.Balanced (⟨.source header store, after⟩ :: held) := by
  obtain ⟨page, hpage, hblock, -⟩ := h.page_of_mem (List.mem_cons_self ..)
  have htally : ∀ kind : Hold → Bool,
      kind ⟨.source header store, after⟩ = kind ⟨.source header store, before⟩ →
      pool.ledger.tally (⟨.source header store, after⟩ :: held) kind =
        pool.ledger.tally (⟨.source header store, before⟩ :: held) kind := by
    intro kind hkind
    simp only [Ledger.tally_cons, hkind]
  refine ⟨h.numbered, h.rooted, ?_, ?_, ?_, h.attached⟩
  · intro hold hmem
    rcases List.mem_cons.mp hmem with rfl | hmem
    · exact ⟨page, hpage, hblock⟩
    · exact h.known hold (List.mem_cons_of_mem _ hmem)
  · intro number other hother
    exact (h.refs hother).trans (htally _ rfl).symm
  · intro number other hother side
    refine (h.needs hother side).trans (htally _ ?_).symm
    by_cases hnumber : header.number = number
    · subst hnumber
      obtain rfl : page = other := Option.some.inj (hpage.symm.trans hother)
      simp only at hblock
      simp [Hold.sees, hblock, Block.slotRange]
    · have hother : (header.number == number) = false := by simpa using hnumber
      simp [Hold.sees, Hold.on, Block.number, Block.header, hother]

variable {joint : Joint} {left right : Block}

/-- In balanced books a slot is counted as `Slot.recount_spec` says. -/
theorem slot_recount_spec
    (h : pool.ledger.Balanced (⟨.composed header joint left right, before⟩ :: held))
    (hseen : ∀ side, after.overlaps (joint.range side) = true →
      0 < pool.ledger.tally (⟨.composed header joint left right, before⟩ :: held)
        (Hold.sees header.number (joint.range side)))
    {page : Page} (hpage : pool.ledger.get? header.number = some page)
    (hblock : page.block = .composed header joint left right) (side : Side) :
    let next := (page.slot side).recount (joint.range side) before after
    next.1.needs + (before.overlaps (joint.range side)).toNat =
        (page.slot side).needs + (after.overlaps (joint.range side)).toNat ∧
      (next.1.attached = true ↔ 0 < next.1.needs) ∧
      next.2 = ((page.slot side).attached && !next.1.attached) ∧
      (next.1.attached = true → (page.slot side).attached = true) := by
  have hneeds := h.needs hpage side
  rw [hblock] at hneeds
  apply Slot.recount_spec
  · exact h.attached hpage side
  · intro hoverlap
    rw [hneeds, Ledger.tally_cons]
    simp [Hold.sees, Hold.on, Block.number, Block.header, Block.slotRange, hoverlap]
  · intro hoverlap
    rw [hneeds]
    exact hseen side hoverlap

/-- Counting changes one page at most, keeps its block and its holders, and leaves a need of zero at
zero. -/
theorem recount_ledger {block : Block}
    (h : pool.ledger.Balanced (⟨block, before⟩ :: held))
    (hseen : ∀ side, after.overlaps (block.slotRange side) = true →
      0 < pool.ledger.tally (⟨block, before⟩ :: held)
        (Hold.sees block.number (block.slotRange side))) :
    ∃ change : Page → Page,
      (pool.recount block before after).1.ledger =
          pool.ledger.modify block.number change ∧
        (∀ page, (change page).block = page.block ∧ (change page).refs = page.refs) ∧
        ∀ {page}, pool.ledger.get? block.number = some page →
          ∀ side, (page.slot side).needs = 0 → ((change page).slot side).needs = 0 := by
  obtain ⟨page, hpage, hblock, -⟩ := h.page_of_mem (List.mem_cons_self ..)
  cases block with
  | source header store =>
      exact ⟨id, (pool.ledger.modify_id _).symm, fun _ => ⟨rfl, rfl⟩,
        fun _ _ hzero => hzero⟩
  | composed header joint left right =>
      change pool.ledger.get? header.number = some page at hpage
      refine ⟨_, (recount_of_page before after hpage).1, fun _ => ⟨rfl, rfl⟩, ?_⟩
      intro other hother side hzero
      obtain rfl : page = other := Option.some.inj (hpage.symm.trans hother)
      have hspec := slot_recount_spec h hseen hpage hblock side
      have hunseen : after.overlaps (joint.range side) = false := by
        refine Bool.eq_false_iff.mpr fun hoverlap => ?_
        have hneeds := h.needs hpage side
        have hpos := hseen side hoverlap
        rw [hblock] at hneeds
        change 0 < pool.ledger.tally _ (Hold.sees header.number (joint.range side)) at hpos
        change (page.slot side).needs =
          pool.ledger.tally _ (Hold.sees header.number (joint.range side)) at hneeds
        omega
      have hcount := hspec.1
      rw [hunseen, hzero] at hcount
      have hslot : (Page.setSlots (page.left.recount (joint.range .left) before after).1
          (page.right.recount (joint.range .right) before after).1 page).slot side =
          ((page.slot side).recount (joint.range side) before after).1 := by
        cases side <;> rfl
      rw [hslot]
      simp only [Bool.toNat_false] at hcount
      omega

theorem recount_composed_balanced
    (h : pool.ledger.Balanced (⟨.composed header joint left right, before⟩ :: held))
    (hseen : ∀ side, after.overlaps (joint.range side) = true →
      0 < pool.ledger.tally (⟨.composed header joint left right, before⟩ :: held)
        (Hold.sees header.number (joint.range side))) :
    (pool.recount (.composed header joint left right) before after).1.ledger.Balanced
      (⟨.composed header joint left right, after⟩ ::
        ((pool.recount (.composed header joint left right) before after).2.map Cursor.hold ++
          held)) := by
  obtain ⟨page, hpage, hblock, -⟩ := h.page_of_mem (List.mem_cons_self ..)
  change pool.ledger.get? header.number = some page at hpage
  simp only at hblock
  have hrange : ∀ side, page.block.slotRange side = joint.range side := by
    intro side
    rw [hblock]
    rfl
  have hchild : ∀ side, page.block.child? side = some (joint.child left right side) := by
    intro side
    rw [hblock]
    rfl
  have hspec := slot_recount_spec h hseen hpage hblock
  let next (side : Side) := (page.slot side).recount (joint.range side) before after
  let detached : List Cursor :=
    (if (next .left).2 then [joint.child left right .left] else []) ++
      (if (next .right).2 then [joint.child left right .right] else [])
  let change := Page.setSlots (next .left).1 (next .right).1
  obtain ⟨hledger, hgone⟩ :
      (pool.recount (.composed header joint left right) before after).1.ledger =
          pool.ledger.modify header.number change ∧
        (pool.recount (.composed header joint left right) before after).2 = detached :=
    recount_of_page before after hpage
  have hblocks : ∀ page, (change page).block = page.block := fun _ => rfl
  have hslot : ∀ side, (change page).slot side = (next side).1 := by
    intro side
    cases side <;> rfl
  have hhanded : ∀ q : Cursor → Bool,
      page.spans.countP q = detached.countP q + (change page).spans.countP q := by
    let gone (side : Side) : Bool := (next side).2
    refine @Page.countP_spans_handed _ _ _ gone hchild (hblocks page) ?_ ?_
    · intro side
      rw [hslot]
      exact (hspec side).2.2.1
    · intro side
      rw [hslot]
      exact (hspec side).2.2.2
  have htally :=
    Ledger.tally_handed hpage hhanded ⟨.composed header joint left right, after⟩ held
  have hbefore : ∀ kind : Hold → Bool,
      pool.ledger.tally (⟨.composed header joint left right, before⟩ :: held) kind =
        pool.ledger.tally held kind +
          (kind ⟨.composed header joint left right, before⟩).toNat :=
    pool.ledger.tally_cons _ held
  rw [hledger, hgone]
  refine h.modify hpage hblocks ?_ ?_ ?_ ?_ ?_
  · intro hold hmem
    rcases List.mem_cons.mp hmem with rfl | hmem
    · exact ⟨page, hpage, hblock⟩
    · rcases List.mem_append.mp hmem with hdetached | hheld
      · obtain ⟨child, hgiven, rfl⟩ := List.mem_map.mp hdetached
        have hside : ∃ side, child = joint.child left right side := by
          rcases List.mem_append.mp hgiven with hgiven | hgiven
          · exact ⟨.left, List.mem_singleton.mp (List.mem_ite_nil_right.mp hgiven).2⟩
          · exact ⟨.right, List.mem_singleton.mp (List.mem_ite_nil_right.mp hgiven).2⟩
        obtain ⟨side, rfl⟩ := hside
        exact (h.rooted hpage (hchild side)).1
      · exact h.known hold (List.mem_cons_of_mem _ hheld)
  · intro kind hkind
    have hnew := hkind ⟨.composed header joint left right, after⟩
      (by simp [Hold.on, Block.number, Block.header])
    have hold := hkind ⟨.composed header joint left right, before⟩
      (by simp [Hold.on, Block.number, Block.header])
    exact (htally kind).trans (by rw [hbefore, hnew, hold])
  · refine Eq.trans ?_ (htally _).symm
    have hrefs := h.refs hpage
    rw [hbefore] at hrefs
    simpa [Hold.on, change] using hrefs
  · intro side
    refine Eq.trans ?_ (htally _).symm
    have hneeds := h.needs hpage side
    have hcount : (next side).1.needs + (before.overlaps (joint.range side)).toNat =
        (page.slot side).needs + (after.overlaps (joint.range side)).toNat := (hspec side).1
    rw [hslot, hrange]
    rw [hrange, hbefore] at hneeds
    simp only [Hold.sees, Hold.on, Block.number, Block.header, beq_self_eq_true,
      Bool.true_and] at hneeds ⊢
    omega
  · intro side
    rw [hslot]
    exact (hspec side).2.1

/-- Counting a hold with its new extent keeps the books balanced, if somebody sees already whatever
the new extent sees. The children that nobody sees any more leave their slots, and are held by
whoever disposes of them. -/
theorem recount_balanced {block : Block}
    (h : pool.ledger.Balanced (⟨block, before⟩ :: held))
    (hseen : ∀ side, after.overlaps (block.slotRange side) = true →
      0 < pool.ledger.tally (⟨block, before⟩ :: held)
        (Hold.sees block.number (block.slotRange side))) :
    (pool.recount block before after).1.ledger.Balanced
      (⟨block, after⟩ :: ((pool.recount block before after).2.map Cursor.hold ++ held)) := by
  cases block with
  | source header store => exact recount_source_balanced h
  | composed header joint left right => exact recount_composed_balanced h hseen

end recount

section unhold

variable {pool : Pool σ} {block : Block} {extent : Extent} {held : List Hold} {page : Page}

/-- If the only hold on a block does not see a slot, no child is left there. -/
theorem vacant_of_last (h : pool.ledger.Balanced (⟨block, extent⟩ :: held)) {side : Side}
    (hblind : extent.overlaps (block.slotRange side) = false)
    (hpage : pool.ledger.get? block.number = some page) (hblock : page.block = block)
    (hlast : page.refs = 1) : (page.slot side).attached = false := by
  have hrefs := h.refs hpage
  rw [Ledger.tally_cons] at hrefs
  have hothers : pool.ledger.tally held (Hold.on block.number) = 0 := by
    simp only [Hold.on, beq_self_eq_true, Bool.toNat_true] at hrefs
    omega
  have hneeds := h.needs hpage side
  rw [Ledger.tally_cons, hblock] at hneeds
  have hmono : pool.ledger.tally held (Hold.sees block.number (block.slotRange side)) ≤
      pool.ledger.tally held (Hold.on block.number) := by
    refine Nat.add_le_add (List.countP_mono_left ?_) (List.countP_mono_left ?_)
    · exact fun hold _ => Hold.on_of_sees
    · exact fun cursor _ => Hold.on_of_sees
  have hzero : (page.slot side).needs = 0 := by
    simp only [Hold.sees, hblind, Bool.and_false, Bool.toNat_false] at hneeds hmono
    omega
  have hattached := h.attached hpage side
  rw [hzero] at hattached
  simpa using hattached

/-- The books without one hold that saw nothing. The page counts one holder less and keeps its
slots. -/
theorem unhold_page_balanced (h : pool.ledger.Balanced (⟨block, extent⟩ :: held))
    (hblind : ∀ side, extent.overlaps (block.slotRange side) = false)
    (hpage : pool.ledger.get? block.number = some page) (hblock : page.block = block)
    {change : Page → Page} (hblocks : ∀ page, (change page).block = page.block)
    (hrefs : (change page).refs = page.refs - 1)
    (hslot : ∀ side, (change page).slot side = page.slot side)
    (hspans : (change page).spans = page.spans) :
    (pool.ledger.modify block.number change).Balanced held := by
  have htally : ∀ kind : Hold → Bool,
      (pool.ledger.modify block.number change).tally held kind + (kind ⟨block, extent⟩).toNat =
        pool.ledger.tally (⟨block, extent⟩ :: held) kind := by
    intro kind
    have hmodify := Ledger.countP_spans_modify hpage change (kind ∘ Cursor.hold)
    rw [hspans] at hmodify
    rw [Ledger.tally_cons]
    simp only [Ledger.tally]
    omega
  refine h.modify hpage hblocks ?_ ?_ ?_ ?_ ?_
  · exact fun hold hmem => h.known hold (List.mem_cons_of_mem _ hmem)
  · intro kind hkind
    rw [← htally, hkind _ (by simp [Hold.on])]
    simp
  · have hcount := htally (Hold.on block.number)
    rw [← h.refs hpage] at hcount
    simp only [Hold.on, beq_self_eq_true, Bool.toNat_true] at hcount
    rw [hrefs]
    omega
  · intro side
    rw [hslot, h.needs hpage side, ← htally, hblock]
    simp [Hold.sees, hblind side]
  · intro side
    rw [hslot]
    exact h.attached hpage side

/-- When a hold that sees nothing ends, the books stay balanced. If it was the last one, the block
goes, and there is no child left to dispose of. -/
theorem unhold_balanced [Store σ] (h : pool.ledger.Balanced (⟨block, extent⟩ :: held))
    (hblind : ∀ side, extent.overlaps (block.slotRange side) = false) :
    (pool.unhold block).2 = [] ∧ (pool.unhold block).1.ledger.Balanced held := by
  obtain ⟨page, hpage, hblock, hpos⟩ := h.page_of_mem (List.mem_cons_self ..)
  change pool.ledger.get? block.number = some page at hpage
  change page.block = block at hblock
  simp only [unhold, hpage]
  split
  · rename_i hlast
    have hvacant : ∀ side, (page.slot side).attached = false :=
      fun side => vacant_of_last h (hblind side) hpage hblock hlast
    have hslots : ∀ side, page.slot side = .vacant := by
      intro side
      have hneeds : (page.slot side).needs = 0 := by
        have hattached := h.attached hpage side
        rw [hvacant side] at hattached
        simpa using hattached
      cases hslot : page.slot side with
      | mk needs attached =>
          have hattached := hvacant side
          rw [hslot] at hneeds hattached
          simp_all [Slot.vacant]
    have hspans : page.spans = [] := by
      simp only [Page.spans, Page.span_eq_nil (hvacant .left), Page.span_eq_nil (hvacant .right),
        List.append_nil]
    have hclosed : (pool.ledger.modify block.number Page.close).Balanced held :=
      unhold_page_balanced h hblind hpage hblock (fun _ => rfl) (by simp [Page.close, hlast])
        (fun side => by rw [Page.slot_close, hslots side]) (by rw [hspans]; rfl)
    have hleft : page.left.attached = false := hvacant .left
    have hright : page.right.attached = false := hvacant .right
    cases block with
    | source header store => exact ⟨rfl, hclosed⟩
    | composed header joint left right =>
        exact ⟨by simp [free, hleft, hright], hclosed⟩
  · exact ⟨rfl, unhold_page_balanced h hblind hpage hblock (fun _ => rfl) rfl
      (fun side => Page.slot_withRefs page _ side) (Page.spans_withRefs page _)⟩

end unhold

end Pool

end SharedStream
