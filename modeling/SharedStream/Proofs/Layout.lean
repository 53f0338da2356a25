import SharedStream.Proofs.Descent
import SharedStream.Proofs.Lifetimes
import SharedStream.Proofs.Pieces
import SharedStream.Store.Stock
/-!
Where everything lies. The stores below keep their lengths, so a block over a store shows positions
of the store and no others, for good. Every holder of a block, be it a live cursor or a child in a
slot, calls its positions by exact names within the limit of the block; the children of a
composition fill its two ranges, and its holders stay within them.
-/

namespace SharedStream

/-- A store whose length does not change, whatever it is asked and told. -/
class FixedLength (σ : Type) [Store σ] : Prop where
  length_readAt (store : σ) (position length : Nat) :
    Store.length (Store.readAt store position length).2 = Store.length store
  length_release (store : σ) (position : Nat) :
    Store.length (Store.release store position).2 = Store.length store
  length_drop (store : σ) : Store.length (Store.drop store) = Store.length store

instance : FixedLength MemoryStore where
  length_readAt _ _ _ := rfl
  length_release _ _ := rfl
  length_drop _ := rfl

instance : FixedLength PanelStore where
  length_readAt store position length := by
    simp only [Store.readAt, PanelStore.readAt]
    split <;> rfl
  length_release _ _ := rfl
  length_drop _ := rfl

instance : FixedLength ScriptStore where
  length_readAt _ _ _ := rfl
  length_release _ _ := rfl
  length_drop _ := rfl

/-- A stock store is as long as the store that it is. -/
instance : FixedLength StockStore where
  length_readAt store position length := by
    cases store with
    | bytes store => exact FixedLength.length_readAt store position length
    | probe store => exact FixedLength.length_readAt store position length
    | script store => exact FixedLength.length_readAt store position length
  length_release store position := by
    cases store with
    | bytes store => exact FixedLength.length_release store position
    | probe store => exact FixedLength.length_release store position
    | script store => exact FixedLength.length_release store position
  length_drop store := by
    cases store with
    | bytes store => exact FixedLength.length_drop store
    | probe store => exact FixedLength.length_drop store
    | script store => exact FixedLength.length_drop store

theorem Store.Evolves.length_eq {σ : Type} [Store σ] [FixedLength σ] {state next : σ}
    (h : Store.Evolves state next) : Store.length next = Store.length state := by
  induction h with
  | refl => rfl
  | read _ position length ih => exact (FixedLength.length_readAt _ position length).trans ih
  | release _ position ih => exact (FixedLength.length_release _ position).trans ih
  | drop _ ih => exact (FixedLength.length_drop _).trans ih

namespace View

/-- The view calls its positions by exact names up to `limit`: its window, under these names, is all
of what lies between the names of its ends, and each name leads back to its position. -/
structure Exact (view : View) (limit : Nat) : Prop where
  first_le : view.first ≤ view.current
  current_le : view.current ≤ view.stop
  names : ∀ {inner}, view.first ≤ inner → inner ≤ view.stop →
    (view.shift.outer inner : Int) = inner + view.shift.amount
  onto : ∀ {outer}, view.firstPosition ≤ outer ∧ outer ≤ view.stopPosition ↔
    ∃ inner, view.first ≤ inner ∧ inner ≤ view.stop ∧ view.shift.outer inner = outer
  stop_le : view.stopPosition ≤ limit
  inverse : ∀ {inner}, view.first ≤ inner → inner ≤ view.stop →
    view.shift.inner? (view.shift.outer inner) = some inner

theorem Placed.exact {view : View} {limit : Nat} (h : view.Placed limit)
    (hlimit : limit ≤ maxOffset) : view.Exact limit := by
  have hfirst := h.firstPosition_eq hlimit
  have hstop := h.stopPosition_eq hlimit
  have hhigh := h.high
  refine ⟨h.first_le, h.current_le, fun hlow hup => h.outer_eq hlimit hlow hup, ?_,
    by omega, ?_⟩
  · intro outer
    constructor
    · rintro ⟨hfrom, hto⟩
      -- the name lies as far from the first one as the position from the first position
      have hplace : view.first ≤ view.first + (outer - view.firstPosition) ∧
          view.first + (outer - view.firstPosition) ≤ view.stop := by omega
      have hname := h.outer_eq hlimit hplace.1 hplace.2
      exact ⟨_, hplace.1, hplace.2, by omega⟩
    · rintro ⟨inner, hlow, hup, rfl⟩
      have hname := h.outer_eq hlimit hlow hup
      omega
  · intro inner hlow hup
    exact h.inner?_eq_some (h.outer_eq hlimit hlow hup).symm hup

end View

variable {σ : Type} [Store σ]

/-- What is shown of a block ends within its store, and what a composition shows of its children
does so at every level below. -/
def Backend.Houses (backend : Backend σ) : Block → (stop : Nat) → Prop
  | .source _ store, stop =>
      ∃ state, backend.stores[store.number]? = some state ∧ stop ≤ Store.length state
  | .composed _ joint left right, _ =>
      backend.Houses left joint.leftView.stop ∧ backend.Houses right joint.rightView.stop

namespace Backend.Houses

variable {backend after : Backend σ}

theorem mono {block : Block} {small large : Nat} (h : backend.Houses block large)
    (hless : small ≤ large) : backend.Houses block small := by
  cases block with
  | source header store =>
      obtain ⟨state, hstate, hlarge⟩ := h
      exact ⟨state, hstate, Nat.le_trans hless hlarge⟩
  | composed header joint left right => exact h

theorem child {header : Header} {joint : Joint} {left right : Block} {stop : Nat}
    (h : backend.Houses (.composed header joint left right) stop) (side : Side) :
    backend.Houses (joint.child left right side).block (joint.child left right side).view.stop := by
  cases side with
  | left => exact h.1
  | right => exact h.2

theorem evolve [FixedLength σ] {block : Block} {stop : Nat} (h : backend.Houses block stop)
    (hevolves : backend.Evolves after) : after.Houses block stop := by
  induction block generalizing stop with
  | source header store =>
      obtain ⟨state, hstate, hless⟩ := h
      obtain ⟨next, hnext, hsame⟩ := hevolves.found hstate
      exact ⟨next, hnext, by rwa [hsame.length_eq]⟩
  | composed header joint left right ihleft ihright => exact ⟨ihleft h.1, ihright h.2⟩

end Backend.Houses

namespace World

variable {past : Pool σ} {world : World σ}

/-- What holds of the live cursors, and passes from a cursor over a composition to the children of
the composition, holds of every holder. -/
theorem holders_induction (h : Ordered past world) {motive : Cursor → Prop}
    (hlive : ∀ entry ∈ world.cursors, motive entry.2)
    (hchild : ∀ {header joint left right view},
      motive ⟨.composed header joint left right, view⟩ →
      ∀ side, motive (joint.child left right side))
    {number : Nat} {holder : Cursor} (hholder : holder ∈ world.holders number) :
    motive holder := by
  have hdown : ∀ {parent : Block} {view : View}, motive ⟨parent, view⟩ →
      ∀ {side child}, parent.child? side = some child → motive child := by
    intro parent view hparent side child hside
    cases parent with
    | source header store => cases hside
    | composed header joint left right =>
        obtain rfl := Option.some.inj hside
        exact hchild hparent side
  have hreached : ∀ {block : Block}, world.Reaches block →
      ∃ view, motive ⟨block, view⟩ := by
    intro block hreaches
    induction hreaches with
    | bound hmem => exact ⟨_, hlive _ hmem⟩
    | seen _ _ _ hside ih =>
        obtain ⟨view, hparent⟩ := ih
        exact ⟨_, hdown hparent hside⟩
  rcases List.mem_append.mp (List.mem_filter.mp hholder).1 with hmem | hspan
  · obtain ⟨entry, hentry, rfl⟩ := List.mem_map.mp hmem
    exact hlive entry hentry
  · obtain ⟨page, hliving, hspan⟩ := List.mem_flatMap.mp hspan
    obtain ⟨hmem, hheld⟩ := List.mem_filter.mp hliving
    obtain ⟨above, hpage⟩ := Ledger.exists_of_mem_pages hmem
    obtain ⟨side, -, hside⟩ := Page.mem_spans_iff.mp hspan
    obtain ⟨view, hparent⟩ := hreached (reaches_of_held h hpage (of_decide_eq_true hheld))
    exact hdown hparent hside

theorem holder_sound (h : Ordered past world) {number : Nat} {holder : Cursor}
    (hholder : holder ∈ world.holders number) : holder.Sound :=
  holders_induction h h.sound (fun hparent side => Cursor.child_sound hparent.block side) hholder

/-- What the live cursors show ends within the stores. -/
def Housed (world : World σ) : Prop :=
  ∀ entry ∈ world.cursors, world.pool.backend.Houses entry.2.block entry.2.view.stop

theorem holder_housed (h : Ordered past world) (hhoused : world.Housed) {number : Nat}
    {holder : Cursor} (hholder : holder ∈ world.holders number) :
    world.pool.backend.Houses holder.block holder.view.stop :=
  holders_induction (motive := fun holder =>
      world.pool.backend.Houses holder.block holder.view.stop) h hhoused
    (fun hparent side => hparent.child side) hholder

theorem apply_housed [FixedLength σ] (h : Ordered past world) (hhoused : world.Housed)
    (operation : Operation σ) : (world.apply operation).2.Housed := by
  have hevolves : world.pool.backend.Evolves (world.apply operation).2.pool.backend :=
    (apply_since h operation).stores
  have hbegets := apply_begets h operation
  intro entry hmem
  obtain ⟨name, made⟩ := entry
  cases hbegets _ hmem with
  | narrowed hold hplaced hwithin => exact ((hhoused _ hold).mono hwithin.2).evolve hevolves
  | joined hhead htail hsound =>
      exact ⟨(hhoused _ hhead).evolve hevolves, (hhoused _ htail).evolve hevolves⟩
  | built hcheck hstored hsound =>
      exact ⟨_, hstored, Nat.le_of_eq (Blueprint.check_ok hcheck).1⟩

theorem run_housed [FixedLength σ] (h : Ordered past world) (hhoused : world.Housed)
    (operations : List (Operation σ)) : (world.run operations).Housed := by
  induction operations generalizing world with
  | nil => exact hhoused
  | cons operation operations ih =>
      exact ih (apply_lands h operation).ordered (apply_housed h hhoused operation)

theorem run_empty_housed [FixedLength σ] (operations : List (Operation σ)) :
    (run {} operations).Housed :=
  run_housed empty_ordered (fun entry hmem => by cases hmem) operations

/-- How the holders of all blocks and the ranges of all compositions lie. -/
structure LaidOut (world : World σ) : Prop where
  named : ∀ {number holder}, holder ∈ world.holders number →
    holder.view.Exact holder.block.settings.limit
  stored : ∀ {number holder}, holder ∈ world.holders number →
    ∀ {header store}, holder.block = .source header store →
      ∃ state, world.pool.backend.stores[store.number]? = some state ∧
        holder.view.stop ≤ Store.length state
  covered : ∀ {number holder}, holder ∈ world.holders number →
    ∀ {header joint left right}, holder.block = .composed header joint left right →
      holder.extent.Within joint.whole
  adjoining : ∀ {number page}, world.pool.ledger.get? number = some page → 0 < page.refs →
    ∀ {header joint left right}, page.block = .composed header joint left right →
      joint.range .left = ⟨joint.start, joint.boundary⟩ ∧
      joint.range .right = ⟨joint.boundary, joint.stop⟩ ∧
      joint.start ≤ joint.boundary ∧ joint.boundary ≤ joint.stop
  tiled : ∀ {number page}, world.pool.ledger.get? number = some page → 0 < page.refs →
    ∀ {header joint left right}, page.block = .composed header joint left right →
      ∀ {side child}, child ∈ page.span side →
        child.view.firstPosition = (joint.range side).start ∧
          child.view.stopPosition = (joint.range side).stop

/-- The block of a page that somebody holds is sound. -/
theorem page_sound (h : Ordered past world) {number : Nat} {page : Page}
    (hpage : world.pool.ledger.get? number = some page) (hheld : 0 < page.refs) :
    page.block.Sound := by
  rw [h.accounted.refs hpage] at hheld
  obtain ⟨holder, hholder⟩ := List.exists_mem_of_length_pos hheld
  obtain ⟨hcounts, hnumber⟩ := counts_of_mem_holders h hholder
  have hown := h.kept.balanced.numbered hpage
  have hsame : holder.block = page.block :=
    (hcounts.knows h.kept.balanced).unique ⟨page, by rw [hown, hpage], rfl⟩
      (hnumber.trans hown.symm)
  rw [← hsame]
  exact (holder_sound h hholder).block

theorem Ordered.laidOut (h : Ordered past world) (hhoused : world.Housed) : world.LaidOut where
  named hholder := by
    have hsound := holder_sound h hholder
    exact hsound.placed.view.exact hsound.limit_le
  stored hholder := by
    intro header store hblock
    have hhouse := holder_housed h hhoused hholder
    rw [hblock] at hhouse
    exact hhouse
  covered hholder := by
    intro header joint left right hblock
    have hcovered := (holder_sound h hholder).placed.covered
    rw [hblock] at hcovered
    exact hcovered
  adjoining hpage hheld := by
    intro header joint left right hblock
    have hsound := page_sound h hpage hheld
    rw [hblock] at hsound
    obtain ⟨-, -, hleft, hright, htiled, -⟩ := hsound
    have hleftOrder := Nat.le_trans hleft.view.first_le hleft.view.current_le
    have hrightOrder := Nat.le_trans hright.view.first_le hright.view.current_le
    obtain ⟨hstart, hboundary, hfrom, hstop⟩ := htiled
    simp only [Joint.child] at hleftOrder hrightOrder
    exact ⟨rfl, rfl, by omega, by omega⟩
  tiled hpage hheld := by
    intro header joint left right hblock side child hspan
    have hsound := page_sound h hpage hheld
    rw [hblock] at hsound
    have hchild := Cursor.child_sound hsound side
    obtain ⟨-, -, -, -, htiled, -⟩ := hsound
    have hfirst := htiled.first side
    have hstop := htiled.stop side
    obtain rfl : joint.child left right side = child := by
      simp only [Page.span, hblock] at hspan
      split at hspan
      · exact (List.mem_singleton.mp hspan).symm
      · cases hspan
    have hfirstName := hchild.placed.view.firstPosition_eq hchild.limit_le
    have hstopName := hchild.placed.view.stopPosition_eq hchild.limit_le
    rw [Joint.view_child] at hfirstName hstopName ⊢
    omega

/-- In every reachable world over stores of fixed lengths, all holders and all compositions lie as
they should, however clones were renamed, prefixes released and compositions nested. -/
theorem run_laidOut [FixedLength σ] (operations : List (Operation σ)) :
    (run {} operations).LaidOut :=
  (run_empty_ordered operations).laidOut (run_empty_housed operations)

/-- A clone under other names gives up its first two bytes and becomes the head of a composition,
which is the head of another one. -/
def nested : List (Operation StockStore) :=
  let script : ScriptStore := { name := "second", label := "second", data := .cyclic 6 }
  let plan (store : StockStore) : Blueprint StockStore := { store, settings := .compact }
  [.build "first" (plan (.bytes ⟨.cyclic 6⟩)), .build "second" (plan (.script script)),
    .setPosition "first" 1, .cloneAt "first" "clone" 100, .setPosition "clone" 103,
    .release "clone" 101, .concat "clone" "second" none, .concat "clone" "first" none]

theorem run_laidOut_nested :
    let world := run {} nested
    let names := fun number => (world.holders number).map fun holder =>
      (holder.view.firstPosition, holder.view.stopPosition)
    [0, 1, 2, 3].map names = [[(0, 6), (102, 105), (111, 116)], [(0, 6), (105, 111)],
      [(102, 111)], [(102, 116)]] ∧ world.LaidOut := by
  constructor
  · decide +kernel
  · exact run_laidOut nested

end World

end SharedStream
