import SharedStream.Cursor.Draining
import SharedStream.Proofs.Reads
/-!
What a refusal leaves behind. Operations that reach into shared state before they can fail put
everything back: a split walks to the cut and back, a concatenation copies its head and lets the
copy go again. So a refused operation leaves the whole world as it was, cursors, books, stores and
journal alike. Two exceptions have to do with stores: a store that may not be exposed is dropped,
and a read that fails has asked the stores for bytes.
-/

namespace SharedStream

variable {σ : Type} [Store σ]

namespace Pool

/-- Refused, the operation leaves the pool as it was. -/
def Traceless {ε α : Type} (pool : Pool σ) : Except ε α × Pool σ → Prop
  | (.error _, next) => next = pool
  | (.ok _, _) => True

variable {pool : Pool σ} {cursor : Cursor}

omit [Store σ] in
theorem seek_traceless (position : Nat) : pool.Traceless (pool.seek cursor position) := by
  simp only [seek, Cursor.through_eq]
  split
  · rfl
  · trivial

theorem release_traceless (position : Nat) :
    pool.Traceless (pool.release cursor position) := by
  simp only [release, Cursor.through_eq]
  split
  · rfl
  · trivial

theorem cloneAt_traceless (offset : Nat) : pool.Traceless (pool.cloneAt cursor offset) := by
  simp only [cloneAt, Cursor.through_eq]
  split
  · rfl
  · trivial

theorem join_traceless (head other : Cursor) (hook : Option Hook) :
    pool.Traceless (pool.join head other hook) := by
  have hclone : pool.Traceless (pool.cloneAt other head.view.stopPosition) :=
    cloneAt_traceless _
  simp only [join, Cursor.through_eq]
  split
  · split
    · rename_i hmade
      rw [hmade] at hclone
      exact hclone
    · trivial
  · rfl

/-- The copy of the head is let go again, and with it the only trace. -/
theorem concat_traceless {past : Pool σ} {held : List Hold} (hkept : past.Kept pool held)
    (hmem : cursor.hold ∈ held) (other : Cursor) (hook : Option Hook) :
    pool.Traceless (pool.concat cursor other hook) := by
  obtain ⟨page, hpage, -, hpos⟩ := hkept.balanced.page_of_mem hmem
  let copied : Pool σ := { pool with ledger := pool.ledger.retain cursor.block.number }
  have hjoin : copied.Traceless (copied.join cursor other hook) := join_traceless _ _ _
  simp only [concat]
  change pool.Traceless ((copied.join cursor other hook).1,
    (copied.join cursor other hook).2.letGo cursor.block)
  generalize copied.join cursor other hook = joined at hjoin
  obtain ⟨made, next⟩ := joined
  cases made with
  | error fault =>
      obtain rfl : next = copied := hjoin
      exact letGo_retain hpage hpos rfl
  | ok cursor => trivial

/-- A split fails before it begins, or not at all. -/
theorem split_traceless {past : Pool σ} {rest : List Hold}
    (hkept : past.Kept pool (cursor.hold :: rest)) (hsound : cursor.Sound) (position : Nat) :
    pool.Traceless (pool.split cursor position) := by
  cases hcheck : cursor.view.splitCheck position with
  | error fault =>
      simp only [split, Cursor.through_eq, hcheck]
      rfl
  | ok _ =>
      obtain ⟨inner, head, tail, next, -, -, -, -, -, hsplit, -⟩ := hkept.split hsound hcheck
      rw [hsplit]
      trivial

/-- A read that fails has asked the stores for bytes, and done nothing else. -/
theorem read_refused {next : Pool σ} {error : Failure} (hsound : cursor.Sound)
    (hshows : pool.ledger.Shows cursor.block cursor.extent) {capacity : Nat}
    (hread : pool.read cursor capacity = (.error error, next)) :
    next.ledger = pool.ledger ∧ pool.backend.Writes Event.isAsking next.backend := by
  have hquiet := pool.read_quiet cursor capacity
  rw [hread] at hquiet
  refine (?_ : _ ∧ pool.backend.Appends Event.isAsking next.backend).imp_right
    fun hjournal => ⟨hquiet.size, hquiet.stores, hjournal⟩
  cases hwanted : cursor.view.wanted capacity with
  | error fault =>
      simp only [read, Cursor.through_eq, hwanted] at hread
      obtain ⟨-, rfl⟩ := Prod.mk.inj hread
      exact ⟨rfl, [], by simp, by simp⟩
  | ok wanted =>
      cases wanted with
      | none =>
          simp only [read, Cursor.through_eq, hwanted] at hread
          cases (Prod.mk.inj hread).1
      | some wanted =>
          obtain ⟨hanswer, hledger, -, -, asked, hasked, hjournal⟩ :=
            read_gathered hsound hshows hwanted
          rw [hread] at hanswer hledger hjournal
          generalize (pool.gathered cursor wanted).1 = got at hanswer hjournal
          cases hgot : got.answer with
          | ok bytes =>
              rw [hgot] at hanswer
              cases hanswer
          | error failure =>
              rw [(Gathered.remarks_of_error hgot).1, hgot] at hjournal
              simp only [Cursor.readNotes, List.append_nil] at hjournal
              exact ⟨hledger, asked, hjournal, hasked⟩

theorem readBytes_refused {next : Pool σ} {error : Failure} (hsound : cursor.Sound)
    (hshows : pool.ledger.Shows cursor.block cursor.extent) {capacity : Nat}
    (hread : pool.readBytes cursor capacity = (.error error, next)) :
    next.ledger = pool.ledger ∧ pool.backend.Writes Event.isAsking next.backend := by
  unfold readBytes at hread
  split at hread
  · cases (Prod.mk.inj hread).1
  · split at hread
    · rename_i hfailed
      cases hread
      exact read_refused hsound hshows hfailed
    · cases (Prod.mk.inj hread).1

end Pool

/-- How a refused operation leaves the world. -/
def Operation.Spares (operation : Operation σ) (refusal : Refusal) (world next : World σ) :
    Prop :=
  match operation with
  | .build _ plan =>
      (refusal = .idInUse ∧ next = world) ∨
        next = world.withPool (world.pool.discardStore plan.store)
  | .read _ _ => world.pool.backend.Writes Event.isAsking next.pool.backend
  | _ => next = world

namespace World

section Outcomes

omit [Store σ]

/-- Refused, the operation leaves the world as it was. -/
def Traceless {α : Type} (world : World σ) : Except Refusal α × World σ → Prop
  | (.error _, next) => next = world
  | (.ok _, _) => True

namespace Traceless

variable {world : World σ} {id : String}

theorem withCursor {α : Type} {act : Cursor → Except Refusal α × World σ}
    (hact : ∀ cursor, world.find? id = some cursor → world.Traceless (act cursor)) :
    world.Traceless (world.withCursor id act) :=
  withCursor_cases (motive := world.Traceless) rfl hact

theorem claiming {α : Type} {act : Except Refusal α × World σ} (hact : world.Traceless act) :
    world.Traceless (world.claiming id act) :=
  claiming_cases (motive := world.Traceless) rfl fun _ => hact

/-- A pool without a trace makes a world without one. -/
theorem settle {fault : Fault} {outcome : Except Fault Cursor × Pool σ}
    (h : world.pool.Traceless outcome) (hfault : outcome.1 = .error fault) :
    world.withPool outcome.2 = world := by
  obtain ⟨made, pool⟩ := outcome
  obtain rfl : made = .error fault := hfault
  obtain rfl : pool = world.pool := h
  rfl

theorem settleNew {outcome : Except Fault Cursor × Pool σ}
    (h : world.pool.Traceless outcome) : world.Traceless (world.settleNew id outcome) :=
  settleNew_cases (motive := world.Traceless) (fun _ hfault => settle h hfault) fun _ _ => trivial

theorem settleMoved {outcome : Except Fault Cursor × Pool σ}
    (h : world.pool.Traceless outcome) : world.Traceless (world.settleMoved id outcome) :=
  settleMoved_cases (motive := world.Traceless) (fun _ hfault => settle h hfault) fun _ _ => trivial

theorem next_eq {α : Type} {outcome : Except Refusal α × World σ} (h : world.Traceless outcome)
    {refusal : Refusal} {next : World σ} (hrefused : outcome = (.error refusal, next)) :
    next = world := by
  rw [hrefused] at h
  exact h

end Traceless

end Outcomes

variable {past : Pool σ} {world next : World σ}

theorem build_refused {id : String} {plan : Blueprint σ} {refusal : Refusal}
    (hrefused : world.apply (.build id plan) = (.error refusal, next)) :
    (Operation.build id plan).Spares refusal world next := by
  simp only [apply, claiming] at hrefused
  split at hrefused
  · obtain ⟨rfl, rfl⟩ := (Prod.mk.inj hrefused).imp_left Except.error.inj
    exact Or.inl ⟨rfl, rfl⟩
  · simp only [Pool.build] at hrefused
    split at hrefused
    · obtain ⟨-, rfl⟩ := Prod.mk.inj hrefused
      exact Or.inr rfl
    · cases (Prod.mk.inj hrefused).1

theorem apply_read_refused (h : Ordered past world) {id : String} {capacity : Nat}
    {refusal : Refusal} (hrefused : world.apply (.read id capacity) = (.error refusal, next)) :
    (Operation.read id capacity).Spares refusal world next := by
  simp only [apply, withCursor] at hrefused
  split at hrefused
  · obtain ⟨-, rfl⟩ := Prod.mk.inj hrefused
    exact .refl _
  · rename_i cursor hfind
    split at hrefused
    · rename_i hfailed
      obtain ⟨-, rfl⟩ := Prod.mk.inj hrefused
      exact (Pool.read_refused (h.focus hfind).1 (h.shows hfind) hfailed).2
    · cases (Prod.mk.inj hrefused).1

/-- Whatever is refused leaves no trace beyond what it has to do with stores. -/
theorem apply_spares (h : Ordered past world) (operation : Operation σ) {refusal : Refusal}
    (hrefused : world.apply operation = (.error refusal, next)) :
    operation.Spares refusal world next := by
  cases operation with
  | build id plan => exact build_refused hrefused
  | read id capacity => exact apply_read_refused h hrefused
  | position id =>
      refine Traceless.next_eq (Traceless.withCursor fun cursor _ => ?_) hrefused
      rw [Cursor.through_eq]
      trivial
  | remaining id =>
      refine Traceless.next_eq (Traceless.withCursor fun cursor _ => ?_) hrefused
      rw [Cursor.through_eq]
      trivial
  | refs id =>
      refine Traceless.next_eq (Traceless.withCursor fun cursor _ => ?_) hrefused
      trivial
  | setPosition id position =>
      exact Traceless.next_eq (Traceless.withCursor fun cursor _ =>
        .settleMoved (Pool.seek_traceless position)) hrefused
  | reset id =>
      refine Traceless.next_eq (Traceless.withCursor fun cursor _ => .settleMoved ?_) hrefused
      cases cursor.reset with
      | error fault => rfl
      | ok cursor => trivial
  | release id position =>
      exact Traceless.next_eq (Traceless.withCursor fun cursor _ =>
        .settleMoved (Pool.release_traceless position)) hrefused
  | cloneAt id target offset =>
      exact Traceless.next_eq (Traceless.claiming (Traceless.withCursor fun cursor _ =>
        .settleNew (Pool.cloneAt_traceless offset))) hrefused
  | clone id target =>
      refine Traceless.next_eq (Traceless.claiming (Traceless.withCursor fun cursor _ => ?_))
        hrefused
      rw [Pool.clone_eq]
      exact .settleNew (Pool.cloneAt_traceless cursor.position)
  | split id target position =>
      refine Traceless.next_eq (Traceless.claiming (Traceless.withCursor fun cursor hfind => ?_))
        hrefused
      obtain ⟨hsound, hkept⟩ := h.focus hfind
      have htraceless := Pool.split_traceless hkept hsound position
      generalize world.pool.split cursor position = outcome at htraceless
      obtain ⟨made, pool⟩ := outcome
      cases made with
      | error fault =>
          obtain rfl : pool = world.pool := htraceless
          rfl
      | ok halves => trivial
  | concat id other hook =>
      refine Traceless.next_eq (Traceless.withCursor fun head hfind => ?_) hrefused
      split
      · rfl
      · refine Traceless.withCursor fun tail _ => .settleMoved ?_
        exact Pool.concat_traceless (h.focus hfind).2 (List.mem_cons_self ..) tail hook
  | dispose id =>
      refine Traceless.next_eq (Traceless.withCursor fun cursor _ => ?_) hrefused
      rw [Pool.tryDispose_eq]
      trivial

/-- The journal of a refused operation names requests for bytes, or the end of a store that was not
exposed, and nothing else. -/
theorem traces_of_spares {operation : Operation σ} {refusal : Refusal}
    (h : operation.Spares refusal world next) :
    world.pool.backend.Appends
      (fun event => event.isAsking || event.drops world.pool.backend.stores.size)
      next.pool.backend := by
  have hstay : next = world → world.pool.backend.Appends
      (fun event => event.isAsking || event.drops world.pool.backend.stores.size)
      next.pool.backend := by
    rintro rfl
    exact ⟨[], by simp, by simp⟩
  cases operation with
  | build id plan =>
      rcases h with ⟨-, hsame⟩ | rfl
      · exact hstay hsame
      · refine ⟨[.storeDropped world.pool.backend.stores.size], ?_, ?_⟩
        · simp [withPool, Pool.discardStore, Backend.drop, Backend.add]
        · simp [Event.drops]
  | read id capacity =>
      obtain ⟨events, hjournal, hevents⟩ := h.journal
      exact ⟨events, hjournal, fun event hmem => by simp [hevents event hmem]⟩
  | _ => exact hstay h

/-- The limit of the tail is checked last, when the head has been copied. -/
theorem concat_refused_by_tail (h : Ordered past world) {id other : String} {head tail : Cursor}
    (hfind : world.find? id = some head) (hother : world.find? other = some tail)
    (hne : id ≠ other) (hook : Option Hook)
    (hhead : head.view.stopPosition + tail.remaining ≤ head.block.settings.limit)
    (htail : tail.block.settings.limit < head.view.stopPosition + tail.remaining) :
    world.apply (.concat id other hook) =
      (.error (Fault.cloneOverflow head.view.stopPosition tail.remaining
        tail.block.settings.limit), world) := by
  have hjoin : ∀ pool : Pool σ, (pool.join head tail hook).1 =
      .error (.cloneOverflow head.view.stopPosition tail.remaining tail.block.settings.limit) := by
    intro pool
    cases hmade : (pool.join head tail hook).1 with
    | ok cursor =>
        obtain ⟨-, hfits, -⟩ := Pool.join_ok hmade
        omega
    | error fault =>
        rcases Pool.join_error hmade with ⟨-, hover⟩ | ⟨rfl, -⟩
        · omega
        · rfl
  have hconcat := (world.pool.concat_eq head tail hook).1.trans (hjoin _)
  have hspares := @apply_spares _ _ past world (world.apply (.concat id other hook)).2 h
    (.concat id other hook)
  have hanswer : (world.apply (.concat id other hook)).1 =
      .error (Fault.cloneOverflow head.view.stopPosition tail.remaining
        tail.block.settings.limit) := by
    simp only [apply, withCursor, hfind, hother, if_neg hne]
    generalize world.pool.concat head tail hook = outcome at hconcat
    obtain ⟨made, pool⟩ := outcome
    obtain rfl := hconcat
    rfl
  have hnext : (world.apply (.concat id other hook)).2 = world :=
    hspares (Prod.ext hanswer rfl)
  exact Prod.ext hanswer hnext

/-- In any reachable world, whatever the stores do, an operation that is refused is as if it had not
been asked for. Every cursor, every need, every slot and every count of holders is as before; no
hook runs and no block goes. A refused build drops the store that it was given, a failed read has
asked for bytes, and any other refusal leaves no trace at all. -/
theorem refused_atomic (operations : List (Operation σ)) :
    let world := run {} operations
    (∀ operation refusal next, world.apply operation = (.error refusal, next) →
      next.cursors = world.cursors ∧ next.pool.ledger = world.pool.ledger ∧
        operation.Spares refusal world next ∧
        world.pool.backend.Appends
          (fun event => event.isAsking || event.drops world.pool.backend.stores.size)
          next.pool.backend) ∧
    (∀ id cursor capacity error next, world.find? id = some cursor →
      world.pool.readBytes cursor capacity = (.error error, next) →
      next.ledger = world.pool.ledger ∧
        world.pool.backend.Writes Event.isAsking next.backend) ∧
    (∀ id other head tail hook, world.find? id = some head → world.find? other = some tail →
      id ≠ other → head.view.stopPosition + tail.remaining ≤ head.block.settings.limit →
      tail.block.settings.limit < head.view.stopPosition + tail.remaining →
      world.apply (.concat id other hook) =
        (.error (Fault.cloneOverflow head.view.stopPosition tail.remaining
          tail.block.settings.limit), world)) := by
  intro world
  have h : Ordered {} world := run_empty_ordered operations
  refine ⟨?_, ?_, ?_⟩
  · intro operation refusal next hrefused
    have hlands := apply_lands h operation
    have hspares := apply_spares h operation hrefused
    rw [hrefused] at hlands
    exact ⟨hlands.2.1, hlands.2.2, hspares, traces_of_spares hspares⟩
  · intro id cursor capacity error next hfind hread
    exact Pool.readBytes_refused (h.focus hfind).1 (h.shows hfind) hread
  · intro id other head tail hook hfind hother hne hhead htail
    exact concat_refused_by_tail h hfind hother hne hook hhead htail

end World

end SharedStream
