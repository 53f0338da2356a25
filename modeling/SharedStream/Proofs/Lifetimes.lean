import SharedStream.Proofs.Accounting
import SharedStream.Proofs.Replaying
/-!
When blocks end. A block is *reached* if a live cursor is bound to it, or if a reached composition
has it as a child that one of the composition's holders sees. The blocks with holders are exactly
the reached ones, so the last words of a block are written in the operation that makes it
unreachable: its data hook, its block hook, and then the end of its store. The stores go as the
journal tells.
-/

namespace SharedStream

namespace World

variable {σ : Type}

/-- Live cursors and what they see reach the block. -/
inductive Reaches (world : World σ) : Block → Prop where
  | bound {id : String} {cursor : Cursor} (hlive : (id, cursor) ∈ world.cursors) :
      Reaches world cursor.block
  | seen {parent : Block} {side : Side} {child holder : Cursor} (hparent : Reaches world parent)
      (hholder : holder ∈ world.holders parent.number)
      (hsees : holder.extent.overlaps (parent.slotRange side) = true)
      (hchild : parent.child? side = some child) : Reaches world child.block

theorem not_reaches_of_empty {world : World σ} (hnone : world.cursors = []) (block : Block) :
    ¬ world.Reaches block := by
  intro hreaches
  induction hreaches with
  | bound hlive =>
      rw [hnone] at hlive
      cases hlive
  | seen _ _ _ _ ih => exact ih

variable [Store σ] {past : Pool σ} {world : World σ}

theorem counts_of_mem_holders (h : Ordered past world) {number : Nat} {holder : Cursor}
    (hholder : holder ∈ world.holders number) :
    world.pool.ledger.Counts world.holds holder.hold ∧ holder.block.number = number := by
  rw [holders, living_spans h] at hholder
  obtain ⟨hmem, hnumber⟩ := List.mem_filter.mp hholder
  refine ⟨?_, beq_iff_eq.mp hnumber⟩
  rcases List.mem_append.mp hmem with hlive | hspan
  · obtain ⟨entry, hentry, rfl⟩ := List.mem_map.mp hlive
    exact Or.inl (List.mem_map.mpr ⟨entry, hentry, rfl⟩)
  · exact Or.inr ⟨holder, hspan, rfl⟩

theorem Reaches.held (h : Ordered past world) {block : Block} (hreaches : world.Reaches block) :
    ∃ extent, world.pool.ledger.Counts world.holds ⟨block, extent⟩ := by
  induction hreaches with
  | @bound id cursor hlive =>
      exact ⟨cursor.extent, Or.inl (List.mem_map.mpr ⟨_, hlive, rfl⟩)⟩
  | @seen parent side child holder _ hholder hsees hchild ih =>
      obtain ⟨extent, hparent⟩ := ih
      obtain ⟨hcounts, hnumber⟩ := counts_of_mem_holders h hholder
      have hsame : holder.block = parent :=
        (hcounts.knows h.kept.balanced).unique (hparent.knows h.kept.balanced) hnumber
      subst hsame
      obtain ⟨-, hcounted⟩ := hcounts.child h.kept.balanced hsees hchild
      exact ⟨child.extent, hcounted⟩

/-- What is held is reached: by a live cursor, or through the composition that keeps it, which came
later and is reached itself. -/
theorem reaches_of_held (h : Ordered past world) : ∀ {number : Nat} {page : Page},
    world.pool.ledger.get? number = some page → 0 < page.refs → world.Reaches page.block := by
  intro number
  induction hrest : world.pool.ledger.fresh - number using Nat.strongRecOn generalizing number with
  | ind rest ih =>
      intro page hpage hheld
      have hnumber := h.kept.balanced.numbered hpage
      rw [h.accounted.refs hpage] at hheld
      obtain ⟨holder, hholder⟩ := List.exists_mem_of_length_pos hheld
      have hsame : holder.block = page.block := by
        obtain ⟨hcounts, hon⟩ := counts_of_mem_holders h hholder
        exact (hcounts.knows h.kept.balanced).unique ⟨page, by rw [hnumber, hpage], rfl⟩
          (hon.trans hnumber.symm)
      rw [← hsame]
      rcases List.mem_append.mp (List.mem_filter.mp hholder).1 with hlive | hspan
      · obtain ⟨entry, hentry, rfl⟩ := List.mem_map.mp hlive
        exact Reaches.bound hentry
      · obtain ⟨parent, hliving, hspan⟩ := List.mem_flatMap.mp hspan
        obtain ⟨hmem, hparentHeld⟩ := List.mem_filter.mp hliving
        obtain ⟨above, hparent⟩ := Ledger.exists_of_mem_pages hmem
        obtain ⟨side, hattached, hchild⟩ := Page.mem_spans_iff.mp hspan
        have hlater : number < above := by
          have hlt := (h.kept.balanced.rooted hparent hchild).2
          rw [hsame, hnumber] at hlt
          exact hlt
        have hlast := Ledger.lt_fresh hparent
        have hreached := ih _ (by omega) rfl hparent (of_decide_eq_true hparentHeld)
        have hneeds := (h.kept.balanced.attached hparent side).mp hattached
        rw [h.kept.balanced.needs hparent side] at hneeds
        have hcount := countP_holders h above fun hold =>
          hold.extent.overlaps (parent.block.slotRange side)
        have hpos : 0 < (world.holders above).countP
            ((fun hold : Hold => hold.extent.overlaps (parent.block.slotRange side)) ∘
              Cursor.hold) := by
          rw [hcount]
          exact hneeds
        obtain ⟨witness, hwitness, hsees⟩ := List.countP_pos_iff.mp hpos
        rw [← h.kept.balanced.numbered hparent] at hwitness
        exact Reaches.seen hreached hwitness hsees hchild

theorem held_iff_reaches (h : Ordered past world) {number : Nat} {page : Page}
    (hpage : world.pool.ledger.get? number = some page) :
    page.refs ≠ 0 ↔ world.Reaches page.block := by
  constructor
  · intro hheld
    exact reaches_of_held h hpage (Nat.pos_of_ne_zero hheld)
  · intro hreaches
    obtain ⟨extent, hcounts⟩ := hreaches.held h
    have hpos : 0 < world.pool.ledger.tally world.holds (Hold.on number) := by
      apply hcounts.tally_pos
      simpa [Hold.on] using h.kept.balanced.numbered hpage
    rw [← h.kept.balanced.refs hpage] at hpos
    omega

/-- What the journal tells of the end of a block. -/
def endings (world : World σ) (block : Block) : List Event :=
  world.pool.backend.journal.toList.filter block.concerns

/-- The journal tells of the end of exactly those blocks that are not reached. -/
theorem endings_eq (h : Ordered past world) {number : Nat} {page : Page}
    (hpage : world.pool.ledger.get? number = some page) :
    (world.Reaches page.block → world.endings page.block = []) ∧
      (¬ world.Reaches page.block → world.endings page.block = page.block.lastWords) := by
  have hends := h.kept.told.ends hpage
  rw [← held_iff_reaches h hpage]
  constructor
  · intro hheld
    rwa [if_neg hheld] at hends
  · intro hgone
    rwa [if_pos (Decidable.not_not.mp hgone)] at hends

/-- Every store is dropped once, be it at the end of its block or because it got none. -/
theorem dropped_once (h : Ordered past world) (hnone : world.cursors = []) {store : Nat}
    (hstore : store < world.pool.backend.stores.size) :
    world.pool.backend.journal.toList.countP (Event.drops store) = 1 := by
  by_cases howned : ∃ number block, world.pool.ledger.block? number = some block ∧
      block.store? = some store
  · obtain ⟨number, block, hblock, hof⟩ := howned
    obtain ⟨page, hpage, rfl⟩ := Option.map_eq_some_iff.mp hblock
    have hends := (endings_eq h hpage).2 (not_reaches_of_empty hnone page.block)
    have hconcerns : ∀ event : Event, event.drops store = true →
        page.block.concerns event = true := by
      intro event hdrops
      rw [Event.eq_of_drops hdrops]
      simp [Block.concerns, hof]
    have hcount : world.pool.backend.journal.toList.countP (Event.drops store) =
        (world.endings page.block).countP (Event.drops store) := by
      rw [endings, List.countP_filter]
      apply List.countP_congr
      intro event _
      constructor
      · intro hdrops
        simp [hdrops, hconcerns event hdrops]
      · intro hboth
        exact (Bool.and_eq_true_iff.mp hboth).1
    rw [hcount, hends, Block.lastWords, hof]
    cases page.block.header.dataHook <;> cases page.block.header.blockHook <;>
      simp [Event.drops]
  · apply h.kept.told.discarded store hstore
    intro number block hblock hof
    exact howned ⟨number, block, hblock, hof⟩

/-- In the end each store has been dropped once: what came before made of it what it was then, and
what came after found it dropped. -/
theorem dropped_between (h : Ordered past world) (hnone : world.cursors = []) {start : World σ}
    {brought : Array σ} (hreplays : start.Replays brought world.pool.backend.journal.toList world)
    {store : Nat} {state : σ}
    (hstate : (start.pool.backend.stores ++ brought)[store]? = some state) :
    ∃ before after, world.pool.backend.journal.toList = before ++ .storeDropped store :: after ∧
      (∀ event ∈ before ++ after, event.drops store = false) ∧
      world.pool.backend.stores[store]? =
        some (Store.replay store (Store.drop (Store.replay store state before)) after) := by
  have hfinal := congrArg (·[store]?) hreplays.stores
  simp only [Array.getElem?_mapIdx, hstate, Option.map_some] at hfinal
  have honce := dropped_once h hnone (Array.getElem?_eq_some_iff.mp hfinal).1
  obtain ⟨event, hmem, hdrops⟩ := List.countP_pos_iff.mp (honce ▸ Nat.one_pos)
  obtain rfl : event = .storeDropped store := Event.eq_of_drops hdrops
  obtain ⟨before, after, hjournal⟩ := List.append_of_mem hmem
  rw [hjournal, List.countP_append, List.countP_cons_of_pos hdrops] at honce
  refine ⟨before, after, hjournal, fun event hevent => ?_, ?_⟩
  · rw [Bool.eq_false_iff]
    rcases List.mem_append.mp hevent with hevent | hevent
    · exact List.countP_eq_zero.mp (by omega) event hevent
    · exact List.countP_eq_zero.mp (by omega) event hevent
  · rw [hfinal, hjournal, Store.replay_append]
    change some (Store.replay store (Store.after store _ (.storeDropped store)) after) = _
    rw [Store.after, if_pos rfl]

end World

def Event.isHook : Event → Bool
  | hookRan _ _ _ => true
  | _ => false

namespace World

variable {σ : Type} [Store σ] {past : Pool σ} {world : World σ}

/-- While no page changes, no hook runs. -/
theorem not_isHook_of_ledger_eq {later : Pool σ} {next : World σ} {events : List Event}
    (h : Ordered past world) (hnext : Ordered later next)
    (hledger : next.pool.ledger = world.pool.ledger)
    (hjournal : world.pool.backend.journal.toList ++ events = next.pool.backend.journal.toList)
    {event : Event} (hmem : event ∈ events) : event.isHook = false := by
  cases event with
  | hookRan block role hook =>
      -- The hook belongs to some block, of which the journal tells no more than before.
      have hall : Event.hookRan block role hook ∈ next.pool.backend.journal.toList := by
        rw [← hjournal]
        exact List.mem_append_right _ hmem
      rcases hnext.kept.told.accounted _ hall rfl with
        ⟨number, owner, howner, hconcerns⟩ | ⟨store, heq, -⟩
      · obtain ⟨page, hpage, rfl⟩ := Option.map_eq_some_iff.mp howner
        have hafter := hnext.kept.told.ends hpage
        change next.pool.ledger.get? number = some page at hpage
        rw [hledger] at hpage
        rw [← h.kept.told.ends hpage, ← hjournal, List.filter_append] at hafter
        have hnone := List.append_right_eq_self.mp hafter
        have hsome := List.mem_filter.mpr ⟨hmem, hconcerns⟩
        rw [hnone] at hsome
        cases hsome
      · cases heq
  | _ => rfl

/-- An operation tells of the end of exactly the blocks that it makes unreachable, and the stores
are what it tells of them. If it is refused, it makes no block and runs no hook. -/
structure EndsOnTime (world : World σ) (brought : Array σ)
    (outcome : Except Refusal Answer × World σ) (events : List Event) : Prop where
  replays : world.Replays brought events outcome.2
  ended : ∀ {number page}, world.pool.ledger.get? number = some page →
    world.Reaches page.block → ¬ outcome.2.Reaches page.block →
    events.filter page.block.concerns = page.block.lastWords
  silent : ∀ {number page}, world.pool.ledger.get? number = some page →
    (world.Reaches page.block → outcome.2.Reaches page.block) →
    events.filter page.block.concerns = []
  refused : ∀ refusal, outcome.1 = .error refusal →
    outcome.2.pool.ledger = world.pool.ledger ∧ ∀ event ∈ events, event.isHook = false

theorem apply_endsOnTime (h : Ordered past world) (operation : Operation σ) :
    ∃ events, world.EndsOnTime (world.brings operation) (world.apply operation) events := by
  obtain ⟨events, hreplays⟩ := apply_replays h operation
  have hlands := apply_lands h.restart operation
  have hnext := hlands.ordered
  generalize world.apply operation = outcome at hreplays hlands hnext
  obtain ⟨answer, next⟩ := outcome
  have hjournal := hreplays.journal.symm
  have happend : ∀ block : Block, next.endings block =
      world.endings block ++ events.filter block.concerns := by
    intro block
    rw [endings, endings, ← List.filter_append, hjournal]
  refine ⟨events, hreplays, ?_, ?_, ?_⟩
  · intro number page hpage hbefore hafter
    obtain ⟨page', hpage', hblock, -⟩ := hnext.kept.since.pages hpage
    have hends := (endings_eq hnext hpage').2
    rw [hblock, happend, (endings_eq h hpage).1 hbefore] at hends
    exact hends hafter
  · intro number page hpage hstill
    obtain ⟨page', hpage', hblock, -⟩ := hnext.kept.since.pages hpage
    have hends := endings_eq hnext hpage'
    rw [hblock, happend] at hends
    by_cases hbefore : world.Reaches page.block
    · have hnone := hends.1 (hstill hbefore)
      exact (List.append_eq_nil_iff.mp hnone).2
    · rw [(endings_eq h hpage).2 hbefore] at hends
      by_cases hafter : next.Reaches page.block
      · cases (List.append_eq_nil_iff.mp (hends.1 hafter)).1
      · exact List.append_right_eq_self.mp (hends.2 hafter)
  · rintro refusal rfl
    obtain ⟨-, -, hledger⟩ := hlands
    exact ⟨hledger, fun event hmem => not_isHook_of_ledger_eq h hnext hledger hjournal hmem⟩

/-- The hooks of a new block are those that were given with its store. -/
theorem build_given (h : Ordered past world) {id : String} {plan : Blueprint σ} {next : World σ}
    {answer : Answer} (hbuild : world.apply (.build id plan) = (.ok answer, next)) :
    ∃ cursor, next.find? id = some cursor ∧ next.pool.ledger.Knows cursor.block ∧
      cursor.block.header.dataHook = plan.dataHook ∧
      cursor.block.header.blockHook = plan.blockHook ∧
      cursor.block.store? = some world.pool.backend.stores.size := by
  have hordered := (apply_lands h (.build id plan)).ordered
  rw [hbuild] at hordered
  have hmade : ∃ cursor, next.find? id = some cursor ∧
      cursor.block.header.dataHook = plan.dataHook ∧
      cursor.block.header.blockHook = plan.blockHook ∧
      cursor.block.store? = some world.pool.backend.stores.size := by
    simp only [apply, claiming] at hbuild
    split at hbuild
    · cases hbuild
    · rename_i hfree
      simp only [Pool.build] at hbuild
      split at hbuild
      · cases hbuild
      · obtain rfl := (Prod.mk.inj hbuild).2
        exact ⟨_, find?_add (Bool.eq_false_iff.mpr hfree) _, rfl, rfl, rfl⟩
  obtain ⟨cursor, hfind, hhooks⟩ := hmade
  exact ⟨cursor, hfind, hordered.knows hfind, hhooks⟩

/-- A concatenation has no data of its own, and the hook that it was given. -/
theorem concat_given (h : Ordered past world) {id other : String} {hook : Option Hook}
    {next : World σ} {answer : Answer}
    (hconcat : world.apply (.concat id other hook) = (.ok answer, next)) :
    ∃ cursor, next.find? id = some cursor ∧ next.pool.ledger.Knows cursor.block ∧
      cursor.block.header.dataHook = none ∧ cursor.block.header.blockHook = hook := by
  have hordered := (apply_lands h (.concat id other hook)).ordered
  rw [hconcat] at hordered
  obtain ⟨head, tail, hfind⟩ := concat_joined hconcat
  exact ⟨_, hfind, hordered.knows hfind, rfl, rfl⟩

/-- For any run: the journal tells of the end of a block, in its last words, exactly if the block is
not reached; it does so in the operation that makes the block unreachable; whatever else it tells of
endings is of stores that no block was made for. The stores are what the journal makes of those that
were taken in, operation by operation. With the last cursor every block is gone, and every store has
been dropped once. -/
theorem blocks_end_on_time (operations : List (Operation σ)) :
    let world := run {} operations
    (∀ number page, world.pool.ledger.get? number = some page →
      (world.Reaches page.block → world.endings page.block = []) ∧
      (¬ world.Reaches page.block → world.endings page.block = page.block.lastWords)) ∧
    (∀ event ∈ world.pool.backend.journal, event.isEnding = true →
      (∃ number page, world.pool.ledger.get? number = some page ∧
        event ∈ page.block.lastWords) ∨
      ∃ store, event = .storeDropped store ∧ world.pool.ledger.Unowned store) ∧
    (∀ operation, ∃ events,
      world.EndsOnTime (world.brings operation) (world.apply operation) events) ∧
    (∀ id plan answer next, world.apply (.build id plan) = (.ok answer, next) →
      ∃ cursor, next.find? id = some cursor ∧ next.pool.ledger.Knows cursor.block ∧
        cursor.block.header.dataHook = plan.dataHook ∧
        cursor.block.header.blockHook = plan.blockHook ∧
        cursor.block.store? = some world.pool.backend.stores.size) ∧
    (∀ id other hook answer next, world.apply (.concat id other hook) = (.ok answer, next) →
      ∃ cursor, next.find? id = some cursor ∧ next.pool.ledger.Knows cursor.block ∧
        cursor.block.header.dataHook = none ∧ cursor.block.header.blockHook = hook) ∧
    Replays {} (intake {} operations) world.pool.backend.journal.toList world ∧
    (world.cursors = [] →
      (∀ number page, world.pool.ledger.get? number = some page →
        world.endings page.block = page.block.lastWords) ∧
      ∀ store state, (intake {} operations)[store]? = some state →
        ∃ before after, world.pool.backend.journal.toList =
            before ++ .storeDropped store :: after ∧
          (∀ event ∈ before ++ after, event.drops store = false) ∧
          world.pool.backend.stores[store]? =
            some (Store.replay store (Store.drop (Store.replay store state before)) after)) := by
  intro world
  have h : Ordered {} world := run_empty_ordered operations
  have hreplays : Replays {} (intake {} operations) world.pool.backend.journal.toList world :=
    run_empty_replays operations
  refine ⟨fun _ _ hpage => endings_eq h hpage, ?_, apply_endsOnTime h, ?_, ?_, hreplays, ?_⟩
  · intro event hmem hending
    have hlist := Array.mem_toList_iff.mpr hmem
    rcases h.kept.told.accounted event hlist hending with ⟨number, block, hblock, hconcerns⟩ |
      ⟨store, heq, -, hunowned⟩
    · obtain ⟨page, hpage, rfl⟩ := Option.map_eq_some_iff.mp hblock
      have hends := h.kept.told.ends hpage
      have hfiltered := List.mem_filter.mpr ⟨hlist, hconcerns⟩
      rw [hends] at hfiltered
      split at hfiltered
      · exact Or.inl ⟨number, page, hpage, hfiltered⟩
      · cases hfiltered
    · exact Or.inr ⟨store, heq, hunowned⟩
  · intro id plan answer next hbuild
    exact build_given h hbuild
  · intro id other hook answer next hconcat
    exact concat_given h hconcat
  · intro hnone
    refine ⟨fun number page hpage => ?_, fun store state hstate => ?_⟩
    · exact (endings_eq h hpage).2 (not_reaches_of_empty hnone page.block)
    · exact dropped_between h hnone hreplays (by simpa using hstate)

end World

end SharedStream
