import SharedStream.Proofs.Lifetimes
import SharedStream.Proofs.Locality
/-!
Operations on different cursors commute, also where the cursors share blocks. Each of the two does
the same to its own cursors before and after the other one, so both orders end with the same
cursors, up to the numbers of the blocks that were made. Everything else follows, since who holds
what determines the books, and the books tell which hooks have run.
-/

namespace SharedStream

variable {σ : Type}

/-- Two operations on bytes, neither of which looks at a cursor that the other one touches. -/
structure Operation.Apart (first second : Operation σ) : Prop where
  onBytes : first.onBytes = true ∧ second.onBytes = true
  spared : ∀ id ∈ first.touched, id ∉ second.names
  spared' : ∀ id ∈ second.touched, id ∉ first.names

theorem Operation.Apart.symm {first second : Operation σ} (h : first.Apart second) :
    second.Apart first :=
  ⟨h.onBytes.symm, h.spared', h.spared⟩

/-- A renumbering for two operations that make `made` and `more` blocks: it exchanges the two new
numbers, if there are two. -/
structure Renumbering.Exchanges (ρ : Renumbering) (fresh made more : Nat) : Prop where
  involutive : ρ.symm = ρ
  fixed : ∀ number < fresh, ρ number = number
  first : made = 1 → ρ fresh = fresh + more
  second : more = 1 → ρ fresh = fresh + made
  bounded : ∀ number, number < fresh + made + more ↔ ρ number < fresh + made + more

namespace Renumbering

theorem Exchanges.symm {ρ : Renumbering} {fresh made more : Nat}
    (h : ρ.Exchanges fresh made more) : ρ.Exchanges fresh more made where
  involutive := h.involutive
  fixed := h.fixed
  first := h.second
  second := h.first
  bounded number := by
    rw [Nat.add_right_comm]
    exact h.bounded number

theorem exists_exchanges (fresh : Nat) {made more : Nat} (hmade : made ≤ 1) (hmore : more ≤ 1) :
    ∃ ρ : Renumbering, ρ.Exchanges fresh made more := by
  by_cases hboth : made = 1 ∧ more = 1
  · obtain ⟨rfl, rfl⟩ := hboth
    exact ⟨Equiv.swap fresh (fresh + 1), {
      involutive := Equiv.symm_swap ..
      fixed := fun number hlt => Equiv.swap_apply_of_ne_of_ne (by omega) (by omega)
      first := fun _ => Equiv.swap_apply_left ..
      second := fun _ => Equiv.swap_apply_left ..
      bounded := fun number => by
        rw [Equiv.swap_apply_def]
        split
        · omega
        · split <;> omega }⟩
  · have hid : (Equiv.refl Nat) fresh = fresh := rfl
    exact ⟨Equiv.refl Nat, {
      involutive := rfl
      fixed := fun _ _ => rfl
      first := fun _ => by omega
      second := fun _ => by omega
      bounded := fun _ => Iff.rfl }⟩

end Renumbering

theorem Operation.blocksMade_le_one (operation : Operation σ) (answer : Except Refusal Answer) :
    operation.blocksMade answer ≤ 1 := by
  unfold blocksMade
  split <;> decide

namespace World

/-- The same live cursors and the same pages, up to the numbers of the blocks. -/
structure SameUpTo (ρ : Renumbering) (world other : World σ) : Prop where
  cursors : ∀ id, other.find? id = (world.find? id).map (Cursor.renumber ρ)
  pages : ∀ number, other.pool.ledger.get? (ρ number) =
    (world.pool.ledger.get? number).map (Page.renumber ρ)

def journal (world : World σ) : List Event := world.pool.backend.journal.toList

section Cursors

variable {ρ : Renumbering} {world other : World σ}

/-- With the same cursors under each name, two worlds have the same holders. -/
theorem holds_perm_renumber (hnamed : (world.cursors.map Prod.fst).Nodup)
    (hnamed' : (other.cursors.map Prod.fst).Nodup)
    (hsame : ∀ id, other.find? id = (world.find? id).map (Cursor.renumber ρ)) :
    other.holds.Perm (world.holds.map (Hold.renumber ρ)) := by
  let moved (entry : String × Cursor) : String × Cursor := (entry.1, entry.2.renumber ρ)
  have hnames : ((world.cursors.map moved).map Prod.fst).Nodup := by
    rw [List.map_map]
    exact hnamed
  have hperm : other.cursors.Perm (world.cursors.map moved) := by
    rw [List.perm_ext_iff_of_nodup hnamed'.of_map hnames.of_map]
    rintro ⟨id, cursor⟩
    constructor
    · intro hmem
      have hfind := find?_of_mem hnamed' hmem
      rw [hsame] at hfind
      obtain ⟨old, hold, rfl⟩ := Option.map_eq_some_iff.mp hfind
      exact List.mem_map.mpr ⟨(id, old), mem_of_find? hold, rfl⟩
    · intro hmem
      obtain ⟨⟨name, old⟩, hold, heq⟩ := List.mem_map.mp hmem
      obtain ⟨rfl, rfl⟩ := Prod.mk.inj heq
      apply mem_of_find?
      rw [hsame, find?_of_mem hnamed hold]
      rfl
  have hholds := hperm.map fun entry => entry.2.hold
  rw [List.map_map] at hholds
  rw [holds, holds, List.map_map]
  exact hholds

end Cursors

variable [Store σ] {past past' : Pool σ} {world other : World σ} {first second : Operation σ}

theorem refs_pos_of_find? (h : Ordered past world) {id : String} {cursor : Cursor} {number : Nat}
    {page : Page} (hfind : world.find? id = some cursor)
    (hpage : world.pool.ledger.get? number = some page) (hblock : cursor.block = page.block) :
    0 < page.refs := by
  have hheld : cursor.hold ∈ world.holds := List.mem_map.mpr ⟨_, mem_of_find? hfind, rfl⟩
  obtain ⟨page', hpage', -, hpos⟩ := h.kept.balanced.page_of_mem hheld
  rw [Cursor.hold_block, hblock, h.kept.balanced.numbered hpage] at hpage'
  obtain rfl := Option.some.inj (hpage'.symm.trans hpage)
  exact hpos

section OneStep

variable {operation : Operation σ}

/-- A block that was not there before belongs to a cursor that the operation touches. -/
theorem touched_of_fresh (h : Ordered past world) (hbytes : operation.onBytes = true) {number : Nat}
    {page : Page} (hpage : (world.apply operation).2.pool.ledger.get? number = some page)
    (hfresh : world.pool.ledger.fresh ≤ number) :
    ∃ id ∈ operation.touched, ∃ cursor, (world.apply operation).2.find? id = some cursor ∧
      cursor.block = page.block := by
  have hnext := (apply_lands h operation).ordered
  have hgrows := (world.apply_grows hbytes).fresh
  have hlt := Ledger.lt_fresh hpage
  cases operation with
  | concat id tail hook =>
      generalize houtcome : world.apply (.concat id tail hook) = outcome at *
      obtain ⟨answer, next⟩ := outcome
      cases answer with
      | error refusal =>
          simp only [Operation.blocksMade] at hgrows hlt
          omega
      | ok answer =>
          simp only [Operation.blocksMade] at hgrows hlt
          obtain ⟨head, third, hfind⟩ := concat_joined houtcome
          obtain ⟨made, hmade, hblock⟩ := hnext.knows hfind
          obtain rfl : number = world.pool.ledger.fresh := by omega
          obtain rfl := Option.some.inj (hmade.symm.trans hpage)
          exact ⟨id, by simp, _, hfind, hblock.symm⟩
  | _ =>
      simp only [Operation.blocksMade] at hgrows
      omega

end OneStep

/-- A block that was there before still has its page. -/
theorem page_of_old (h : Ordered past world) (first second : Operation σ) {number : Nat}
    (hold : number < world.pool.ledger.fresh) :
    ∃ old page, world.pool.ledger.get? number = some old ∧
      (world.run [first, second]).pool.ledger.get? number = some page ∧
      page.block = old.block := by
  obtain ⟨old, hpage⟩ := Ledger.exists_page_of_lt hold
  obtain ⟨page, hpage', hblock, -⟩ := (run_since h [first, second]).pages hpage
  exact ⟨old, page, hpage, hpage', hblock⟩

/-- A cursor that the first operation touches is left alone by the second one. -/
theorem find?_run_of_touched (hapart : first.Apart second) {id : String}
    (htouched : id ∈ first.touched) :
    (world.run [first, second]).find? id = (world.apply first).2.find? id :=
  find?_apply_of_not_touched second fun hmem =>
    hapart.spared id htouched (Operation.mem_names_of_touched hmem)

/-- A block that was not there before belongs to a live cursor. -/
theorem live_of_fresh (h : Ordered past world) (hapart : first.Apart second) {number : Nat}
    {page : Page} (hpage : (world.run [first, second]).pool.ledger.get? number = some page)
    (hfresh : world.pool.ledger.fresh ≤ number) :
    ∃ id cursor, (world.run [first, second]).find? id = some cursor ∧
      cursor.block = page.block := by
  have hone := (apply_lands h first).ordered
  by_cases hearly : number < (world.apply first).2.pool.ledger.fresh
  · obtain ⟨middle, hmiddle⟩ := Ledger.exists_page_of_lt hearly
    obtain ⟨page', hpage', hblock, -⟩ := (apply_since hone second).pages hmiddle
    obtain rfl := Option.some.inj (hpage'.symm.trans hpage)
    obtain ⟨id, htouched, cursor, hfind, hsame⟩ :=
      touched_of_fresh h hapart.onBytes.1 hmiddle hfresh
    exact ⟨id, cursor, (find?_run_of_touched hapart htouched).trans hfind,
      hsame.trans hblock.symm⟩
  · obtain ⟨id, -, cursor, hfind, hblock⟩ :=
      touched_of_fresh hone hapart.onBytes.2 hpage (Nat.le_of_not_lt hearly)
    exact ⟨id, cursor, hfind, hblock⟩

/-- Two operations that may be exchanged, and the renumbering that makes up for it. -/
structure Exchangeable (ρ : Renumbering) (world : World σ)
    (first second : Operation σ) : Prop where
  apart : first.Apart second
  steady : ∀ state ∈ world.pool.backend.stores, Store.Steady state
  exchanges : ρ.Exchanges world.pool.ledger.fresh (first.blocksMade (world.apply first).1)
    (second.blocksMade (world.apply second).1)

namespace Exchangeable

variable {ρ : Renumbering}

theorem symm (hpair : Exchangeable ρ world first second) : Exchangeable ρ world second first :=
  ⟨hpair.apart.symm, hpair.steady, hpair.exchanges.symm⟩

variable (hpair : Exchangeable ρ world first second) (h : Ordered past world)

include hpair h

/-- What the second operation does to its own cursors, it also does after the first one. -/
theorem echoes :
    Echoes ρ second.names (world.apply second) ((world.apply first).2.apply second) := by
  have hgrows := world.apply_grows hpair.apart.onBytes.1
  apply apply_echoes h (apply_lands h first).ordered hpair.apart.onBytes.2 hpair.exchanges.fixed
  · intro name hname
    exact find?_apply_of_not_touched first fun htouched => hpair.apart.spared name htouched hname
  · intro hmade
    rw [hpair.exchanges.second hmade, hgrows.fresh]
  · exact hpair.steady
  · exact ⟨hgrows.stores, (apply_since h first).stores⟩

/-- Whichever operation comes first, the second one makes as many blocks. -/
theorem fresh_run : (world.run [first, second]).pool.ledger.fresh =
    world.pool.ledger.fresh + first.blocksMade (world.apply first).1 +
      second.blocksMade (world.apply second).1 := by
  have hgrows := (world.apply_grows hpair.apart.onBytes.1).fresh
  have hmore := ((world.apply first).2.apply_grows hpair.apart.onBytes.2).fresh
  rw [(hpair.echoes h).answer, hgrows] at hmore
  exact hmore

theorem find?_of_touched {name : String} (htouched : name ∈ first.touched) :
    (world.run [second, first]).find? name =
      ((world.run [first, second]).find? name).map (Cursor.renumber ρ) := by
  rw [find?_run_of_touched hpair.apart htouched]
  exact (hpair.symm.echoes h).cursors name (Operation.mem_names_of_touched htouched)

theorem find?_run (name : String) :
    (world.run [second, first]).find? name =
      ((world.run [first, second]).find? name).map (Cursor.renumber ρ) := by
  by_cases hfirst : name ∈ first.touched
  · exact hpair.find?_of_touched h hfirst
  · by_cases hsecond : name ∈ second.touched
    · have htwice : Cursor.renumber ρ ∘ Cursor.renumber ρ = id := by
        funext cursor
        have hback := @Cursor.renumber_symm ρ cursor
        rwa [hpair.exchanges.involutive] at hback
      rw [hpair.symm.find?_of_touched h hsecond, Option.map_map, htwice, Option.map_id]
      rfl
    · -- Neither operation touches the cursor, and it is bound to a block that was there before.
      have hboth : (world.run [first, second]).find? name = world.find? name :=
        (find?_apply_of_not_touched second hsecond).trans (find?_apply_of_not_touched first hfirst)
      have hswapped : (world.run [second, first]).find? name = world.find? name :=
        (find?_apply_of_not_touched first hfirst).trans (find?_apply_of_not_touched second hsecond)
      rw [hboth, hswapped]
      cases hfind : world.find? name with
      | none => rfl
      | some cursor =>
          rw [Option.map_some, Cursor.renumber, h.renumber_eq hpair.exchanges.fixed hfind]

/-- A block that was there before is the same in both orders. -/
theorem block_run {number : Nat} {page : Page} (hold : number < world.pool.ledger.fresh)
    (hpage : (world.run [first, second]).pool.ledger.get? number = some page) :
    page.block.renumber ρ = page.block ∧
      ∃ next, (world.run [second, first]).pool.ledger.get? number = some next ∧
        next.block = page.block := by
  obtain ⟨old, page', hbefore, hpage', hblock⟩ := page_of_old h first second hold
  obtain rfl := Option.some.inj (hpage'.symm.trans hpage)
  obtain ⟨old', next, hbefore', hnext, hblock'⟩ := page_of_old h second first hold
  obtain rfl := Option.some.inj (hbefore'.symm.trans hbefore)
  constructor
  · rw [hblock]
    apply h.kept.balanced.renumber_eq hpair.exchanges.fixed
    exact ⟨old', by rw [h.kept.balanced.numbered hbefore, hbefore], rfl⟩
  · exact ⟨next, hnext, hblock'.trans hblock.symm⟩

/-- Both orders end with the same blocks. -/
theorem resembles : (world.run [first, second]).pool.ledger.Resembles ρ
    (world.run [second, first]).pool.ledger where
  fresh := by
    have hboth := hpair.fresh_run h
    have hswapped := hpair.symm.fresh_run h
    omega
  bounded := by
    rw [hpair.fresh_run h]
    exact hpair.exchanges.bounded
  blocks := by
    intro number page hpage
    by_cases hold : number < world.pool.ledger.fresh
    · obtain ⟨hblock, next, hnext, hsame⟩ := hpair.block_run h hold hpage
      rw [hpair.exchanges.fixed number hold]
      exact ⟨next, hnext, hsame.trans hblock.symm⟩
    · -- A new block is found through its cursor.
      obtain ⟨id, cursor, hfind, hblock⟩ :=
        live_of_fresh h hpair.apart hpage (Nat.le_of_not_lt hold)
      have hfind' := hpair.find?_run h id
      rw [hfind] at hfind'
      obtain ⟨next, hnext, hsame⟩ := (run_ordered h [second, first]).knows hfind'
      have hnumber : (cursor.renumber ρ).block.number = ρ number := by
        rw [Cursor.renumber, Block.number_renumber, hblock,
          (run_ordered h [first, second]).kept.balanced.numbered hpage]
      rw [hnumber] at hnext
      exact ⟨next, hnext, by rw [hsame, ← hblock]; rfl⟩

/-- Both orders end in the same world. -/
theorem sameUpTo : (world.run [first, second]).SameUpTo ρ (world.run [second, first]) where
  cursors := hpair.find?_run h
  pages := by
    have hboth := run_ordered h [first, second]
    have hswapped := run_ordered h [second, first]
    have hholds := holds_perm_renumber hboth.named hswapped.named (hpair.find?_run h)
    have hresembles := hpair.resembles h
    intro number
    cases hpage : (world.run [first, second]).pool.ledger.get? number with
    | some page =>
        exact hresembles.get?_eq hboth.kept.balanced hswapped.kept.balanced hholds hpage
    | none =>
        have hbound := Nat.not_lt.mpr (Array.getElem?_eq_none_iff.mp hpage)
        change ¬ number < (world.run [first, second]).pool.ledger.fresh at hbound
        rw [hresembles.bounded, ← hresembles.fresh] at hbound
        exact Array.getElem?_eq_none_iff.mpr (Nat.le_of_not_lt hbound)

end Exchangeable

/-- A hook has run if its block has no holder any more. -/
theorem count_hookRan (h : Ordered past world) (number : Nat) (role : HookRole) (hook : Hook) :
    world.journal.count (.hookRan number role hook) =
      (world.pool.ledger.get? number).elim 0 fun page =>
        if page.refs = 0 then page.block.lastWords.count (.hookRan number role hook) else 0 := by
  cases hpage : world.pool.ledger.get? number with
  | none =>
      refine List.count_eq_zero.mpr fun hmem => ?_
      rcases h.kept.told.accounted _ hmem rfl with
        ⟨place, block, hblock, hconcerns⟩ | ⟨_, heq, _⟩
      · have hnumber := h.kept.told.numbered hblock
        have hsame : number = block.number := by simpa [Block.concerns] using hconcerns
        rw [hsame, hnumber] at hpage
        simp [Ledger.block?, hpage] at hblock
      · cases heq
  | some page =>
      have hconcerns : page.block.concerns (.hookRan number role hook) = true := by
        simpa [Block.concerns] using (h.kept.balanced.numbered hpage).symm
      rw [journal, ← List.count_filter hconcerns, h.kept.told.ends hpage, Option.elim_some]
      split <;> rfl

/-- A block that was not there before has not run its hooks. -/
theorem count_hookRan_of_fresh (h : Ordered past world) (hapart : first.Apart second) {number : Nat}
    (hfresh : world.pool.ledger.fresh ≤ number) (role : HookRole) (hook : Hook) :
    (world.run [first, second]).journal.count (.hookRan number role hook) = 0 := by
  have hnext := run_ordered h [first, second]
  rw [count_hookRan hnext]
  cases hpage : (world.run [first, second]).pool.ledger.get? number with
  | none => rfl
  | some page =>
      obtain ⟨id, cursor, hfind, hblock⟩ := live_of_fresh h hapart hpage hfresh
      have hpos := refs_pos_of_find? hnext hfind hpage hblock
      rw [Option.elim_some, if_neg (by omega)]

theorem Exchangeable.count_hookRan {ρ : Renumbering} (hpair : Exchangeable ρ world first second)
    (h : Ordered past world) (number : Nat) (role : HookRole) (hook : Hook) :
    (world.run [first, second]).journal.count (.hookRan number role hook) =
      (world.run [second, first]).journal.count (.hookRan number role hook) := by
  by_cases hold : number < world.pool.ledger.fresh
  · obtain ⟨-, page, -, hpage, -⟩ := page_of_old h first second hold
    have hsame := (hpair.sameUpTo h).pages number
    rw [hpair.exchanges.fixed number hold, hpage, Option.map_some, Page.renumber,
      (hpair.block_run h hold hpage).1] at hsame
    rw [World.count_hookRan (run_ordered h [first, second]),
      World.count_hookRan (run_ordered h [second, first]), hpage, hsame]
  · have hfresh := Nat.le_of_not_lt hold
    rw [count_hookRan_of_fresh h hpair.apart hfresh,
      count_hookRan_of_fresh h hpair.apart.symm hfresh]

/-- The two orders of a pair of operations come to the same: each operation gives the same answer in
both, the worlds at the end are the same up to the numbers of the blocks that were made, and the
same hooks have run. -/
structure Commutes (world : World σ) (first second : Operation σ) : Prop where
  firstAnswer : ((world.apply second).2.apply first).1 = (world.apply first).1
  secondAnswer : ((world.apply first).2.apply second).1 = (world.apply second).1
  state : ∃ ρ : Renumbering, (∀ number < world.pool.ledger.fresh, ρ number = number) ∧
    (world.run [first, second]).SameUpTo ρ (world.run [second, first])
  hooks : ∃ events events',
    (world.run [first, second]).journal = world.journal ++ events ∧
    (world.run [second, first]).journal = world.journal ++ events' ∧
    (events.filter Event.isHook).Perm (events'.filter Event.isHook)

theorem count_filter_isHook (events : List Event) {event : Event}
    (hevent : event.isHook = false) : (events.filter Event.isHook).count event = 0 := by
  apply List.count_eq_zero.mpr
  intro hmem
  have hhook := (List.mem_filter.mp hmem).2
  rw [hevent] at hhook
  cases hhook

theorem Exchangeable.commutes {ρ : Renumbering} (hpair : Exchangeable ρ world first second)
    (h : Ordered past world) : world.Commutes first second where
  firstAnswer := (hpair.symm.echoes h).answer
  secondAnswer := (hpair.echoes h).answer
  state := ⟨ρ, hpair.exchanges.fixed, hpair.sameUpTo h⟩
  hooks := by
    obtain ⟨events, hevents⟩ := (run_since h [first, second]).journal
    obtain ⟨events', hevents'⟩ := (run_since h [second, first]).journal
    refine ⟨events, events', hevents.symm, hevents'.symm, List.perm_iff_count.mpr ?_⟩
    intro event
    cases event with
    | hookRan number role hook =>
        have hcount := hpair.count_hookRan h number role hook
        rw [journal, journal, ← hevents, ← hevents', List.count_append,
          List.count_append] at hcount
        rw [List.count_filter rfl, List.count_filter rfl]
        omega
    | _ => rw [count_filter_isHook _ rfl, count_filter_isHook _ rfl]

/-- In any reachable world over steady stores, operations on different cursors may be exchanged,
however the cursors share their blocks. -/
theorem apart_commute (operations : List (Operation σ)) {first second : Operation σ}
    (hapart : first.Apart second)
    (hsteady : ∀ state ∈ (run {} operations).pool.backend.stores, Store.Steady state) :
    (run {} operations).Commutes first second := by
  let world := run {} operations
  obtain ⟨ρ, hexchanges⟩ := Renumbering.exists_exchanges world.pool.ledger.fresh
    (first.blocksMade_le_one (world.apply first).1)
    (second.blocksMade_le_one (world.apply second).1)
  have hpair : Exchangeable ρ world first second := ⟨hapart, hsteady, hexchanges⟩
  exact hpair.commutes (run_empty_ordered operations)

/-- Two cursors share a composition; the right one of its children is held by nobody else. -/
def shared : List (Operation PanelStore) :=
  let plan (length : Nat) : Blueprint PanelStore :=
    { store := ⟨.cyclic length, {}⟩, settings := .compact }
  [.build "a" (plan 4), .build "b" (plan 3), .build "c" (plan 2),
    .concat "a" "b" (some (.announce "joined")), .clone "a" "d", .dispose "b"]

/-- Both cursors are joined with a third one: whichever comes first gets the lower number. -/
theorem apart_commute_shared :
    let world := run {} shared
    let first : Operation PanelStore := .concat "a" "c" none
    let second : Operation PanelStore := .concat "d" "c" none
    let numbers := fun world : World PanelStore =>
      ["a", "d"].map fun id => (world.find? id).map fun cursor => cursor.block.number
    numbers (world.run [first, second]) = [some 4, some 5] ∧
      numbers (world.run [second, first]) = [some 5, some 4] ∧ world.Commutes first second := by
  refine ⟨by decide +kernel, by decide +kernel, ?_⟩
  exact apart_commute shared ⟨⟨rfl, rfl⟩, by decide, by decide⟩ fun state _ => state.steady

end World

end SharedStream
