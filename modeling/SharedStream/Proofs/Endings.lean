import SharedStream.Cursor.Making
import SharedStream.Proofs.Balance
import SharedStream.Proofs.Journal
/-!
What the journal tells of blocks and stores that are gone. A block that is freed leaves its last
words: it is gone, its data hook ran, its block hook ran, its store was dropped, in this order. The
journal is *true* if of every block it holds the last words, once, as soon as the block has no
holder, and nothing before; and if the only other endings are those of stores that never came to
stand under a block.
-/

namespace SharedStream

namespace Event

def drops (store : Nat) : Event → Bool
  | storeDropped number => number == store
  | _ => false

theorem eq_of_drops {store : Nat} {event : Event} (h : event.drops store = true) :
    event = .storeDropped store := by
  cases event with
  | storeDropped dropped => exact congrArg storeDropped (beq_iff_eq.mp h)
  | _ => cases h

theorem isEnding_of_drops {store : Nat} {event : Event} (h : event.drops store = true) :
    event.isEnding = true := by
  rw [eq_of_drops h]
  rfl

end Event

namespace Block

def store? : Block → Option Nat
  | source _ store => some store.number
  | composed _ _ _ _ => none

/-- What the journal tells when a block is freed: the hooks it was given, the data hook first, and
only then the end of its store. -/
def lastWords (block : Block) : List Event :=
  .blockFreed block.number block.name ::
    ((block.header.dataHook.map (Event.hookRan block.number .data)).toList ++
      (block.header.blockHook.map (Event.hookRan block.number .block)).toList ++
      (block.store?.map Event.storeDropped).toList)

/-- The event is an ending of this block, of one of its hooks or of its store. -/
def concerns (block : Block) : Event → Bool
  | .blockFreed number _ | .hookRan number _ _ => number == block.number
  | .storeDropped store => block.store? == some store
  | _ => false

theorem isEnding_of_concerns {block : Block} {event : Event} (h : block.concerns event = true) :
    event.isEnding = true := by
  cases event <;> simp_all [concerns, Event.isEnding]

theorem mem_lastWords {block : Block} {event : Event} (h : event ∈ block.lastWords) :
    block.concerns event = true := by
  simp only [lastWords, List.mem_cons, List.mem_append, Option.mem_toList, Option.map_eq_some_iff]
    at h
  rcases h with rfl | (⟨hook, _, rfl⟩ | ⟨hook, _, rfl⟩) | ⟨store, hstore, rfl⟩
  · simp [concerns]
  · simp [concerns]
  · simp [concerns]
  · simp [concerns, hstore]

/-- Two blocks with different numbers and stores have nothing to say about each other. -/
theorem not_concerns_lastWords {block other : Block} (hnumber : other.number ≠ block.number)
    (hstore : ∀ store, other.store? = some store → block.store? ≠ some store) :
    other.lastWords.filter block.concerns = [] := by
  refine List.filter_eq_nil_iff.mpr fun event hmem hconcerns => ?_
  simp only [lastWords, List.mem_cons, List.mem_append, Option.mem_toList,
    Option.map_eq_some_iff] at hmem
  rcases hmem with rfl | (⟨hook, _, rfl⟩ | ⟨hook, _, rfl⟩) | ⟨store, hother, rfl⟩
  · exact hnumber (beq_iff_eq.mp hconcerns)
  · exact hnumber (beq_iff_eq.mp hconcerns)
  · exact hnumber (beq_iff_eq.mp hconcerns)
  · exact hstore store hother (beq_iff_eq.mp hconcerns)

/-- An event that concerns two blocks shows that they share their number or their store. -/
theorem shared_of_concerns {block other : Block} {event : Event}
    (hblock : block.concerns event = true) (hother : other.concerns event = true) :
    block.number = other.number ∨
      ∃ store, event = .storeDropped store ∧ block.store? = some store ∧
        other.store? = some store := by
  cases event with
  | blockFreed number name =>
      exact Or.inl ((beq_iff_eq.mp hblock).symm.trans (beq_iff_eq.mp hother))
  | hookRan number role hook =>
      exact Or.inl ((beq_iff_eq.mp hblock).symm.trans (beq_iff_eq.mp hother))
  | storeDropped store => exact Or.inr ⟨store, rfl, beq_iff_eq.mp hblock, beq_iff_eq.mp hother⟩
  | _ => cases hblock

theorem filter_lastWords (block : Block) :
    block.lastWords.filter block.concerns = block.lastWords :=
  List.filter_eq_self.mpr fun _ hmem => mem_lastWords hmem

end Block

namespace Ledger

/-- The block with this number, also when it is gone. -/
def block? (ledger : Ledger) (number : Nat) : Option Block := (ledger.get? number).map Page.block

theorem block?_of_page {ledger : Ledger} {number : Nat} {page : Page}
    (hpage : ledger.get? number = some page) : ledger.block? number = some page.block := by
  simp [block?, hpage]

theorem block?_modify (ledger : Ledger) (number : Nat) {change : Page → Page}
    (hblock : ∀ page, (change page).block = page.block) (other : Nat) :
    (ledger.modify number change).block? other = ledger.block? other := by
  simp only [block?, get?_modify]
  split
  · cases ledger.get? other with
    | none => rfl
    | some page => simp [hblock]
  · rfl

theorem block?_add_fresh (ledger : Ledger) (page : Page) :
    (ledger.add page).block? ledger.fresh = some page.block := by
  simp [block?, get?_add_fresh]

theorem block?_add_of_ne (ledger : Ledger) (page : Page) {number : Nat}
    (hne : number ≠ ledger.fresh) : (ledger.add page).block? number = ledger.block? number := by
  simp [block?, get?_add_of_ne ledger page hne]

theorem lt_fresh_of_block? {ledger : Ledger} {number : Nat} {block : Block}
    (hblock : ledger.block? number = some block) : number < ledger.fresh := by
  obtain ⟨page, hpage, _⟩ := Option.map_eq_some_iff.mp hblock
  exact lt_fresh hpage

theorem block?_add_cases {ledger : Ledger} {page : Page} {number : Nat} {block : Block}
    (hblock : (ledger.add page).block? number = some block) :
    (number = ledger.fresh ∧ block = page.block) ∨ ledger.block? number = some block := by
  by_cases hne : number = ledger.fresh
  · subst hne
    rw [block?_add_fresh] at hblock
    exact Or.inl ⟨rfl, (Option.some.inj hblock).symm⟩
  · rw [block?_add_of_ne ledger page hne] at hblock
    exact Or.inr hblock

theorem block?_add_of_some {ledger : Ledger} {page : Page} {number : Nat} {block : Block}
    (hblock : ledger.block? number = some block) :
    (ledger.add page).block? number = some block := by
  rw [block?_add_of_ne ledger page (Nat.ne_of_lt (lt_fresh_of_block? hblock))]
  exact hblock

/-- No block stands over the store. -/
def Unowned (ledger : Ledger) (store : Nat) : Prop :=
  ∀ {number block}, ledger.block? number = some block → block.store? ≠ some store

theorem unowned_add_iff {ledger : Ledger} {page : Page} {store : Nat} :
    (ledger.add page).Unowned store ↔
      ledger.Unowned store ∧ page.block.store? ≠ some store := by
  constructor
  · intro hnone
    exact ⟨fun hblock => hnone (block?_add_of_some hblock),
      hnone (block?_add_fresh ledger page)⟩
  · rintro ⟨hnone, hnew⟩ number block hblock
    rcases block?_add_cases hblock with ⟨-, rfl⟩ | hblock
    · exact hnew
    · exact hnone hblock

end Ledger

namespace Pool

variable {σ : Type}

/-- The journal is true about what is gone. -/
structure Told (pool : Pool σ) : Prop where
  numbered : ∀ {number block}, pool.ledger.block? number = some block → block.number = number
  ends : ∀ {number page}, pool.ledger.get? number = some page →
    pool.backend.journal.toList.filter page.block.concerns =
      if page.refs = 0 then page.block.lastWords else []
  /-- Every block over a store has a store of its own. -/
  owned : ∀ {number block store}, pool.ledger.block? number = some block →
    block.store? = some store → store < pool.backend.stores.size
  apart : ∀ {number other block next store}, pool.ledger.block? number = some block →
    pool.ledger.block? other = some next → block.store? = some store →
    next.store? = some store → number = other
  /-- Whatever ended was a block, or a store without one. -/
  accounted : ∀ event ∈ pool.backend.journal.toList, event.isEnding = true →
    (∃ number block, pool.ledger.block? number = some block ∧ block.concerns event = true) ∨
      ∃ store, event = .storeDropped store ∧ store < pool.backend.stores.size ∧
        pool.ledger.Unowned store
  discarded : ∀ store < pool.backend.stores.size, pool.ledger.Unowned store →
    pool.backend.journal.toList.countP (Event.drops store) = 1
  raised : ∀ {number side before},
    .childNeeded number side before ∈ pool.backend.journal.toList → 0 < before

theorem empty_told : Told ({} : Pool σ) where
  numbered hblock := by simp [Ledger.block?, Ledger.get?] at hblock
  ends hpage := by simp [Ledger.get?] at hpage
  owned hblock := by simp [Ledger.block?, Ledger.get?] at hblock
  apart hblock := by simp [Ledger.block?, Ledger.get?] at hblock
  accounted event hmem := by simp at hmem
  discarded store hlt := by simp at hlt
  raised hmem := by simp at hmem

namespace Told

variable {pool : Pool σ} {backend : Backend σ}

theorem quiet [Store σ] (h : pool.Told) (hquiet : pool.backend.Quiet backend) :
    Told { pool with backend } := by
  obtain ⟨events, hjournal, hevents⟩ := hquiet.journal
  refine ⟨h.numbered, ?_, ?_, h.apart, ?_, ?_, ?_⟩
  · intro number page hpage
    exact (hquiet.filter_eq fun _ => Block.isEnding_of_concerns).trans (h.ends hpage)
  · intro number block store hblock hstore
    exact hquiet.size ▸ h.owned hblock hstore
  · intro event hmem hending
    rw [hjournal] at hmem
    rcases List.mem_append.mp hmem with hmem | hmem
    · rcases h.accounted event hmem hending with hblock | ⟨store, hevent, hlt, hunowned⟩
      · exact Or.inl hblock
      · exact Or.inr ⟨store, hevent, hquiet.size ▸ hlt, hunowned⟩
    · rw [Event.not_isEnding_of_isQuiet (hevents event hmem)] at hending
      cases hending
  · intro store hlt hunowned
    rw [hquiet.size] at hlt
    rw [← h.discarded store hlt hunowned]
    simp only [List.countP_eq_length_filter]
    rw [hquiet.filter_eq fun _ => Event.isEnding_of_drops]
  · intro number side before hmem
    rw [hjournal] at hmem
    rcases List.mem_append.mp hmem with hmem | hmem
    · exact h.raised hmem
    · simpa [Event.isQuiet] using hevents _ hmem

/-- A change to a page that neither frees its block nor brings it back. -/
theorem modify (h : pool.Told) {number : Nat} {change : Page → Page}
    (hblock : ∀ page, (change page).block = page.block)
    (hrefs : ∀ {page}, pool.ledger.get? number = some page →
      ((change page).refs = 0 ↔ page.refs = 0)) :
    Told { pool with ledger := pool.ledger.modify number change } := by
  have hsame := pool.ledger.block?_modify number hblock
  refine ⟨?_, ?_, ?_, ?_, ?_, ?_, h.raised⟩
  · intro other block hother
    simp only [hsame] at hother
    exact h.numbered hother
  · intro other next hnext
    rw [Ledger.get?_modify] at hnext
    split at hnext
    · rename_i heq
      subst heq
      obtain ⟨page, hpage, rfl⟩ := Option.map_eq_some_iff.mp hnext
      simpa only [hblock, hrefs hpage] using h.ends hpage
    · exact h.ends hnext
  · intro other block store hother
    simp only [hsame] at hother
    exact h.owned hother
  · intro first second block next store hfirst hsecond
    simp only [hsame] at hfirst hsecond
    exact h.apart hfirst hsecond
  · simpa only [hsame, Ledger.Unowned] using h.accounted
  · simpa only [hsame, Ledger.Unowned] using h.discarded

/-- A block is freed, and its last words are written. -/
theorem close (h : pool.Told) {page : Page} {number : Nat}
    (hpage : pool.ledger.get? number = some page) (hheld : page.refs ≠ 0)
    (hsize : backend.stores.size = pool.backend.stores.size)
    (hjournal : backend.journal.toList =
      pool.backend.journal.toList ++ page.block.lastWords) :
    Told ⟨pool.ledger.modify number Page.close, backend⟩ := by
  have hsame := @Ledger.block?_modify pool.ledger number Page.close fun _ => rfl
  have hself := Ledger.block?_of_page hpage
  -- The last words of the block concern no other block and no store without one.
  have hother : ∀ {other block}, pool.ledger.block? other = some block → other ≠ number →
      page.block.lastWords.filter block.concerns = [] := by
    intro other block hblock hne
    refine Block.not_concerns_lastWords ?_ ?_
    · rw [h.numbered hself, h.numbered hblock]
      exact Ne.symm hne
    · intro store hstore hshared
      exact hne (h.apart hblock hself hshared hstore)
  have hdrops : ∀ store, pool.ledger.Unowned store →
      page.block.lastWords.countP (Event.drops store) = 0 := by
    intro store hunowned
    refine List.countP_eq_zero.mpr fun event hmem hevent => ?_
    obtain rfl : event = .storeDropped store := Event.eq_of_drops hevent
    exact hunowned hself (beq_iff_eq.mp (Block.mem_lastWords hmem))
  refine ⟨?_, ?_, ?_, ?_, ?_, ?_, ?_⟩
  · intro other block hother
    simp only [hsame] at hother
    exact h.numbered hother
  · intro other next hnext
    rw [hjournal, List.filter_append]
    by_cases hne : other = number
    · subst hne
      rw [Ledger.get?_modify_self hpage] at hnext
      obtain rfl := Option.some.inj hnext
      have hbefore := h.ends hpage
      rw [if_neg hheld] at hbefore
      change _ ++ page.block.lastWords.filter page.block.concerns = page.block.lastWords
      rw [Block.filter_lastWords]
      exact congrArg (· ++ page.block.lastWords) hbefore
    · rw [Ledger.get?_modify_of_ne hne] at hnext
      rw [hother (Ledger.block?_of_page hnext) hne, List.append_nil]
      exact h.ends hnext
  · intro other block store hother
    simp only [hsame, hsize] at hother ⊢
    exact h.owned hother
  · intro first second block next store hfirst hsecond
    simp only [hsame] at hfirst hsecond
    exact h.apart hfirst hsecond
  · simp only [hsame, Ledger.Unowned, hsize]
    intro event hmem hending
    rw [hjournal] at hmem
    rcases List.mem_append.mp hmem with hmem | hmem
    · exact h.accounted event hmem hending
    · exact Or.inl ⟨number, page.block, hself, Block.mem_lastWords hmem⟩
  · simp only [hsame, Ledger.Unowned, hsize]
    intro store hlt hunowned
    rw [hjournal, List.countP_append, hdrops store hunowned, h.discarded store hlt hunowned]
  · intro other side before hmem
    rw [hjournal] at hmem
    rcases List.mem_append.mp hmem with hmem | hmem
    · exact h.raised hmem
    · have hending := Block.isEnding_of_concerns (Block.mem_lastWords hmem)
      cases hending

/-- What was told before does not concern a block with a new number and a new store. -/
theorem silent (h : pool.Told) {block : Block} (hnumber : block.number = pool.ledger.fresh)
    (hstore : ∀ store, block.store? = some store → pool.backend.stores.size ≤ store) :
    pool.backend.journal.toList.filter block.concerns = [] := by
  apply List.filter_eq_nil_iff.mpr
  intro event hmem hconcerns
  have hending := Block.isEnding_of_concerns hconcerns
  rcases h.accounted event hmem hending with
    ⟨number, other, hother, hold⟩ | ⟨store, rfl, hlt, _⟩
  · have hlt := Ledger.lt_fresh_of_block? hother
    rcases Block.shared_of_concerns hconcerns hold with hsame | ⟨store, _, hshared, howned⟩
    · rw [hnumber, h.numbered hother] at hsame
      omega
    · have hold := h.owned hother howned
      have hfresh := hstore store hshared
      omega
  · have hfresh := hstore store (beq_iff_eq.mp hconcerns)
    omega

/-- A new block stands over the stores that were taken in for it, if any. -/
theorem add (h : pool.Told) {page : Page} (hnumber : page.block.number = pool.ledger.fresh)
    (hheld : page.refs ≠ 0)
    (hsize : pool.backend.stores.size ≤ backend.stores.size)
    (hstore : ∀ store, page.block.store? = some store ↔
      pool.backend.stores.size ≤ store ∧ store < backend.stores.size)
    (hjournal : ∃ events, backend.journal.toList = pool.backend.journal.toList ++ events ∧
      ∀ event ∈ events, event.isQuiet = true) :
    Told ⟨pool.ledger.add page, backend⟩ := by
  obtain ⟨events, hjournal, hevents⟩ := hjournal
  refine ⟨?_, ?_, ?_, ?_, ?_, ?_, ?_⟩
  · intro number block hblock
    rcases Ledger.block?_add_cases hblock with ⟨rfl, rfl⟩ | hblock
    · exact hnumber
    · exact h.numbered hblock
  · intro number next hnext
    rw [hjournal, List.filter_append,
      Event.filter_eq_nil_of_quiet hevents fun _ => Block.isEnding_of_concerns, List.append_nil]
    by_cases hne : number = pool.ledger.fresh
    · subst hne
      rw [Ledger.get?_add_fresh] at hnext
      obtain rfl := Option.some.inj hnext
      rw [h.silent hnumber fun store howned => ((hstore store).mp howned).1, if_neg hheld]
    · rw [Ledger.get?_add_of_ne _ _ hne] at hnext
      exact h.ends hnext
  · intro number block store hblock howned
    rcases Ledger.block?_add_cases hblock with ⟨-, rfl⟩ | hblock
    · exact ((hstore store).mp howned).2
    · exact Nat.lt_of_lt_of_le (h.owned hblock howned) hsize
  · intro number other block next store hblock hnext howned hshared
    rcases Ledger.block?_add_cases hblock with ⟨rfl, rfl⟩ | hblock <;>
      rcases Ledger.block?_add_cases hnext with ⟨rfl, rfl⟩ | hnext
    · rfl
    · have hfresh := (hstore store).mp howned
      have hold := h.owned hnext hshared
      omega
    · have hfresh := (hstore store).mp hshared
      have hold := h.owned hblock howned
      omega
    · exact h.apart hblock hnext howned hshared
  · intro event hmem hending
    rw [hjournal] at hmem
    rcases List.mem_append.mp hmem with hmem | hmem
    · rcases h.accounted event hmem hending with ⟨number, block, hblock, hconcerns⟩ |
        ⟨store, hevent, hlt, hnone⟩
      · exact Or.inl ⟨number, block, Ledger.block?_add_of_some hblock, hconcerns⟩
      · refine Or.inr ⟨store, hevent, Nat.lt_of_lt_of_le hlt hsize, ?_⟩
        apply Ledger.unowned_add_iff.mpr
        exact ⟨hnone, fun hshared => Nat.not_le_of_lt hlt ((hstore store).mp hshared).1⟩
    · rw [Event.not_isEnding_of_isQuiet (hevents event hmem)] at hending
      cases hending
  · intro store hlt hnone
    obtain ⟨hnone, hnew⟩ := Ledger.unowned_add_iff.mp hnone
    have hold : store < pool.backend.stores.size := by
      apply Nat.lt_of_not_le
      intro hfresh
      exact hnew ((hstore store).mpr ⟨hfresh, hlt⟩)
    have hdiscarded := h.discarded store hold hnone
    rw [List.countP_eq_length_filter] at hdiscarded ⊢
    rw [hjournal, List.filter_append,
      Event.filter_eq_nil_of_quiet hevents fun _ => Event.isEnding_of_drops, List.append_nil]
    exact hdiscarded
  · intro number side before hmem
    rw [hjournal] at hmem
    rcases List.mem_append.mp hmem with hmem | hmem
    · exact h.raised hmem
    · simpa [Event.isQuiet] using hevents _ hmem

/-- A store that is refused is dropped at once, and nothing else ends. -/
theorem discardStore [Store σ] (h : pool.Told) (store : σ) : (pool.discardStore store).Told := by
  have hjournal : (pool.discardStore store).backend.journal.toList =
      pool.backend.journal.toList ++ [.storeDropped pool.backend.stores.size] := by
    simp [Pool.discardStore, Backend.drop, Backend.add]
  have hsize : (pool.discardStore store).backend.stores.size =
      pool.backend.stores.size + 1 := by
    simp [Pool.discardStore, Backend.drop, Backend.add]
  have hledger : (pool.discardStore store).ledger = pool.ledger := rfl
  have hfree : pool.ledger.Unowned pool.backend.stores.size := by
    intro number block hblock howned
    exact Nat.lt_irrefl _ (h.owned hblock howned)
  refine ⟨h.numbered, ?_, ?_, h.apart, ?_, ?_, ?_⟩
  · intro number page hpage
    have hnot : ¬ page.block.concerns (.storeDropped pool.backend.stores.size) = true := by
      intro hconcerns
      exact hfree (Ledger.block?_of_page hpage) (beq_iff_eq.mp hconcerns)
    rw [hjournal, List.filter_append, List.filter_cons_of_neg hnot, List.filter_nil,
      List.append_nil]
    exact h.ends hpage
  · intro number block owned hblock howned
    rw [hsize]
    exact Nat.lt_succ_of_lt (h.owned hblock howned)
  · intro event hmem hending
    rw [hjournal] at hmem
    rw [hsize]
    rcases List.mem_append.mp hmem with hmem | hmem
    · rcases h.accounted event hmem hending with hblock | ⟨number, hevent, hlt, hnone⟩
      · exact Or.inl hblock
      · exact Or.inr ⟨number, hevent, Nat.lt_succ_of_lt hlt, hnone⟩
    · obtain rfl := List.mem_singleton.mp hmem
      exact Or.inr ⟨_, rfl, Nat.lt_succ_self _, hfree⟩
  · intro number hlt hnone
    rw [hsize] at hlt
    rw [hjournal, List.countP_append, List.countP_singleton]
    by_cases hnew : number = pool.backend.stores.size
    · subst hnew
      have hnever : pool.backend.journal.toList.countP
          (Event.drops pool.backend.stores.size) = 0 := by
        refine List.countP_eq_zero.mpr fun event hmem hdrops => ?_
        obtain rfl := Event.eq_of_drops hdrops
        rcases h.accounted _ hmem rfl with
          ⟨number, block, hblock, hconcerns⟩ | ⟨dropped, hsame, hlt, -⟩
        · exact hfree hblock (beq_iff_eq.mp hconcerns)
        · cases hsame
          exact Nat.lt_irrefl _ hlt
      rw [hnever]
      simp [Event.drops]
    · have hold := h.discarded number (by omega) hnone
      have hother : Event.drops number (.storeDropped pool.backend.stores.size) = false := by
        simpa [Event.drops] using Ne.symm hnew
      rw [hold, hother]
      rfl
  · intro number side before hmem
    rw [hjournal] at hmem
    rcases List.mem_append.mp hmem with hmem | hmem
    · exact h.raised hmem
    · cases List.mem_singleton.mp hmem

end Told

end Pool

end SharedStream
