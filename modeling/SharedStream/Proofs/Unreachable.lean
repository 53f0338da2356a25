import SharedStream.Proofs.Advice
import SharedStream.Proofs.Reads
import SharedStream.Cursor.Draining
/-!
Failures that never happen. Some faults would be the library's own: a child that is gone while it is
needed, a range that its child does not show, an end that is no position, a table that serves the
wrong kind of block. The books and the geometry of a reachable world rule all of them out, whatever
the stores do, so none is ever answered, none is passed over by a read, and no child ever refuses to
be disposed of. What can fail is what a caller asks for, and the stores.
-/

namespace SharedStream

/-- The fault would be the library's own. -/
def Fault.isInternal : Fault → Bool
  | childRetired _ | outsideChild _ _ | compositionStarved => true
  | endOverflow _ _ | splitUnnamed _ | cannotShrink _ | wrongTable _ _ _ => true
  | _ => false

def Failure.isInternal : Failure → Bool
  | .fault reason => reason.isInternal
  | .store _ => false

theorem Failure.not_isInternal_of_blamesStore {error : Failure}
    (h : error.blamesStore = true) : error.isInternal = false := by
  cases error with
  | store failure => rfl
  | fault reason => cases reason <;> simp_all [blamesStore, isInternal, Fault.isInternal]

namespace Event

/-- The event does not tell of a fault of the library itself. -/
def isFaultless : Event → Bool
  | partialRead _ error => !error.isInternal
  | disposeFailed _ => false
  | _ => true

theorem isFaultless_of_isUpkeep {event : Event} (h : event.isUpkeep = true) :
    event.isFaultless = true := by
  cases event <;> simp_all [isUpkeep, isEnding, isFaultless]

theorem isFaultless_of_isAdvice {event : Event} (h : event.isAdvice = true) :
    event.isFaultless = true := by
  cases event <;> simp_all [isAdvice, isFaultless]

theorem isFaultless_of_isAsking {event : Event} (h : event.isAsking = true) :
    event.isFaultless = true := by
  cases event <;> simp_all [isAsking, isFaultless]

end Event

/-- The end of a sound cursor is a position: it lies within a limit, and every limit is one. -/
theorem Cursor.Sound.splitCheck_fault {cursor : Cursor} (hsound : cursor.Sound) {position : Nat}
    {fault : Fault} (h : cursor.view.splitCheck position = .error fault) :
    fault.isInternal = false := by
  have hend := Cursor.position_add_remaining hsound
  have hstop := hsound.placed.view.stopPosition_eq hsound.limit_le
  have hhigh := hsound.placed.view.high
  have hlimit := hsound.limit_le
  simp only [Cursor.position, Cursor.remaining] at hend
  unfold View.splitCheck at h
  dsimp only at h
  split at h
  · omega
  · split at h
    · cases h
      rfl
    · split at h
      · cases h
        rfl
      · cases h

variable {σ : Type} [Store σ]

namespace Pool

theorem seek_faultless (pool : Pool σ) (cursor : Cursor) (position : Nat) :
    pool.backend.Writes Event.isFaultless (pool.seek cursor position).2.backend := by
  simp only [seek, Cursor.through_eq]
  split
  · exact .refl _
  · exact .log _ rfl rfl

theorem resize_faultless (pool : Pool σ) (block : Block) (before after : Extent) :
    pool.backend.Writes Event.isFaultless (pool.resize block before after).backend :=
  (pool.resize_upkeeps block before after).mono Event.isFaultless_of_isUpkeep

theorem dispose_faultless (pool : Pool σ) (cursor : Cursor) :
    pool.backend.Writes Event.isFaultless (pool.dispose cursor).backend :=
  (pool.dispose_upkeeps cursor).mono Event.isFaultless_of_isUpkeep

theorem release_faultless (pool : Pool σ) (cursor : Cursor) (position : Nat) :
    pool.backend.Writes Event.isFaultless (pool.release cursor position).2.backend := by
  simp only [release, Cursor.through_eq]
  split
  · exact .refl _
  · rename_i first _
    have hadvice := (pool.adviseBelow_advises cursor.block ⟨cursor.view.first, first⟩).2
    exact (hadvice.mono Event.isFaultless_of_isAdvice).trans (resize_faultless _ _ _ _)

theorem cloneAt_faultless (pool : Pool σ) (cursor : Cursor) (offset : Nat) :
    pool.backend.Writes Event.isFaultless (pool.cloneAt cursor offset).2.backend := by
  simp only [cloneAt, Cursor.through_eq]
  split
  · exact .refl _
  · rename_i view _
    exact resize_faultless { pool with ledger := pool.ledger.retain cursor.block.number } _ _ _

theorem keepIf_faultless (pool : Pool σ) (needed : Bool) (child : Cursor) :
    pool.backend.Writes Event.isFaultless (pool.keepIf needed child).backend := by
  unfold keepIf
  split
  · exact .refl _
  · rw [abandon_eq]
    exact pool.dispose_faultless child

theorem concat_faultless (pool : Pool σ) (head other : Cursor) (hook : Option Hook) :
    pool.backend.Writes Event.isFaultless (pool.concat head other hook).2.backend := by
  have hcompose : ∀ (pool : Pool σ) (tail : Cursor) (joint : Joint),
      pool.backend.Writes Event.isFaultless (pool.compose head tail joint hook).2.backend :=
    fun pool tail joint => (pool.keepIf_faultless _ head).trans (keepIf_faultless _ _ tail)
  have hjoin : ∀ pool : Pool σ,
      pool.backend.Writes Event.isFaultless (pool.join head other hook).2.backend := by
    intro pool
    have hclone := pool.cloneAt_faultless other head.view.stopPosition
    simp only [join, Cursor.through_eq]
    split
    · split
      · rename_i hmade
        rw [hmade] at hclone
        exact hclone
      · rename_i tail cloned hmade
        rw [hmade] at hclone
        exact (hclone.trans (hcompose cloned tail _)).trans (.log _ rfl rfl)
    · exact .refl _
  exact (hjoin { pool with ledger := pool.ledger.retain head.block.number }).trans
    ((letGo_upkeeps _ head.block).mono Event.isFaultless_of_isUpkeep)

theorem cutHead_faultless (pool : Pool σ) (head tail : Cursor) (position : Nat) :
    pool.backend.Writes Event.isFaultless (pool.cutHead head tail position).2.backend := by
  simp only [cutHead, Cursor.through_eq]
  split
  · exact pool.dispose_faultless tail
  · split
    · exact pool.dispose_faultless tail
    · exact (pool.resize_faultless _ _ _).trans (.log _ rfl rfl)

theorem split_faultless (pool : Pool σ) (cursor : Cursor) (position : Nat) :
    pool.backend.Writes Event.isFaultless (pool.split cursor position).2.backend := by
  simp only [split, Cursor.through_eq]
  split
  · exact .refl _
  · have hseek := pool.seek_faultless cursor position
    split
    · rename_i hmoved
      rw [hmoved] at hseek
      exact hseek
    · rename_i moved away hmoved
      rw [hmoved] at hseek
      have hclone := hseek.trans (away.cloneAt_faultless moved position)
      have hback := hclone.trans (seek_faultless _ moved cursor.position)
      split
      · rename_i hreturn
        rw [hreturn] at hback
        cases (away.cloneAt moved position).1 with
        | error fault => exact hback
        | ok clone => exact hback.trans (dispose_faultless _ clone)
      · rename_i hreturn _
        rw [hreturn] at hback
        exact hback
      · rename_i back returned tail hreturn _
        rw [hreturn] at hback
        exact hback.trans (returned.cutHead_faultless back tail position)

/-- Whatever a read of a live cursor answers or passes over, it is not the library's own fault. -/
theorem read_faultless {pool : Pool σ} {cursor : Cursor} (hsound : cursor.Sound)
    (hshows : pool.ledger.Shows cursor.block cursor.extent) (capacity : Nat) :
    (∀ error, (pool.read cursor capacity).1 = .error error → error.isInternal = false) ∧
      pool.backend.Appends Event.isFaultless (pool.read cursor capacity).2.backend := by
  cases hwanted : cursor.view.wanted capacity with
  | error fault =>
      simp only [read, Cursor.through_eq, hwanted]
      refine ⟨fun error herror => ?_, [], by simp, by simp⟩
      obtain rfl := Except.error.inj herror
      obtain ⟨-, rfl⟩ := View.wanted_error hwanted
      rfl
  | ok wanted =>
      cases wanted with
      | none =>
          simp only [read, Cursor.through_eq, hwanted]
          exact ⟨by simp, [], by simp, by simp⟩
      | some wanted =>
          obtain ⟨hanswer, -, -, -, asked, hasked, hjournal⟩ :=
            read_gathered hsound hshows hwanted
          have hblames : ∀ error, (pool.gathered cursor wanted).1.failure = some error →
              error.isInternal = false := fun error h =>
            Failure.not_isInternal_of_blamesStore (gathered_blames h)
          generalize (pool.gathered cursor wanted).1 = got at hanswer hjournal hblames
          refine ⟨fun error herror => ?_, _,
            by rw [hjournal, List.append_assoc, List.append_assoc], ?_⟩
          · rw [hanswer] at herror
            cases hgot : got.answer with
            | error failure =>
                rw [hgot] at herror
                obtain rfl := Except.error.inj herror
                exact hblames _ (Gathered.remarks_of_error hgot).2
            | ok bytes =>
                rw [hgot] at herror
                cases herror
          · intro event hmem
            rcases List.mem_append.mp hmem with hmem | hmem
            · exact Event.isFaultless_of_isAsking (hasked event hmem)
            rcases List.mem_append.mp hmem with hmem | hmem
            · obtain ⟨error, hfailure, rfl⟩ := Gathered.mem_remarks hmem
              simp [Event.isFaultless, hblames error hfailure]
            · cases hgot : got.answer with
              | error failure => simp [hgot, Cursor.readNotes] at hmem
              | ok bytes =>
                  rw [hgot] at hmem
                  obtain rfl := List.mem_singleton.mp hmem
                  cases cursor.block <;> rfl

theorem readBytes_fault {pool : Pool σ} {cursor : Cursor} {capacity : Nat} {error : Failure}
    (hsound : cursor.Sound) (hshows : pool.ledger.Shows cursor.block cursor.extent)
    (hread : (pool.readBytes cursor capacity).1 = .error error) : error.isInternal = false := by
  unfold readBytes at hread
  split at hread
  · cases hread
  · split at hread
    · rename_i hfailed
      cases hread
      exact (read_faultless hsound hshows capacity).1 _ (congrArg Prod.fst hfailed)
    · cases hread

theorem cloneAt_fault {pool : Pool σ} {cursor : Cursor} {offset : Nat} {fault : Fault}
    (h : (pool.cloneAt cursor offset).1 = .error fault) : fault.isInternal = false := by
  obtain ⟨rfl, -⟩ := cloneAt_error h
  rfl

theorem concat_fault {pool : Pool σ} {head other : Cursor} {hook : Option Hook} {fault : Fault}
    (h : (pool.concat head other hook).1 = .error fault) : fault.isInternal = false := by
  rw [(pool.concat_eq head other hook).1] at h
  rcases join_error h with ⟨rfl, -⟩ | ⟨rfl, -⟩ <;> rfl

end Pool

namespace World

section Outcomes

omit [Store σ]

/-- Neither the answer nor the journal tells of a fault of the library itself. -/
structure Faultless (world : World σ) (outcome : Except Refusal Answer × World σ) : Prop where
  answer : ∀ error, outcome.1 = .error (.failed error) → error.isInternal = false
  journal : world.pool.backend.Appends Event.isFaultless outcome.2.pool.backend

namespace Faultless

variable {world : World σ} {id : String}

theorem stay {answer : Except Refusal Answer}
    (h : ∀ error, answer = .error (.failed error) → error.isInternal = false) :
    Faultless world (answer, world) :=
  ⟨h, [], by simp, by simp⟩

theorem withCursor {act : Cursor → Except Refusal Answer × World σ}
    (hact : ∀ cursor, world.find? id = some cursor → Faultless world (act cursor)) :
    Faultless world (world.withCursor id act) :=
  withCursor_cases (motive := Faultless world) (stay (by simp)) hact

theorem claiming {act : Except Refusal Answer × World σ} (hact : Faultless world act) :
    Faultless world (world.claiming id act) :=
  claiming_cases (motive := Faultless world) (stay (by simp)) fun _ => hact

theorem settleNew {outcome : Except Fault Cursor × Pool σ}
    (hfault : ∀ fault, outcome.1 = .error fault → fault.isInternal = false)
    (hjournal : world.pool.backend.Appends Event.isFaultless outcome.2.backend) :
    Faultless world (world.settleNew id outcome) := by
  refine settleNew_cases (motive := Faultless world) (fun fault hmade => ⟨?_, hjournal⟩)
    fun _ _ => ⟨by simp, hjournal⟩
  rintro error ⟨⟩
  exact hfault fault hmade

theorem settleMoved {outcome : Except Fault Cursor × Pool σ}
    (hfault : ∀ fault, outcome.1 = .error fault → fault.isInternal = false)
    (hjournal : world.pool.backend.Appends Event.isFaultless outcome.2.backend) :
    Faultless world (world.settleMoved id outcome) := by
  refine settleMoved_cases (motive := Faultless world) (fun fault hmade => ⟨?_, hjournal⟩)
    fun _ _ => ⟨by simp, hjournal⟩
  rintro error ⟨⟩
  exact hfault fault hmade

end Faultless

end Outcomes

variable {past : Pool σ} {world : World σ}

/-- No operation of an ordered world answers or notes a fault of the library itself. -/
theorem apply_faultless (h : Ordered past world) (operation : Operation σ) :
    Faultless world (world.apply operation) := by
  cases operation with
  | build id plan =>
      apply Faultless.claiming
      unfold Pool.build
      split
      · rename_i fault hcheck
        refine Faultless.settleNew (fun other hother => ?_)
          ⟨[_], by simp [Pool.discardStore, Backend.drop, Backend.add]; rfl,
            by simp [Event.isFaultless]⟩
        obtain rfl := Except.error.inj hother
        rcases (Blueprint.check_error hcheck).1 with rfl | rfl | rfl <;> rfl
      · exact Faultless.settleNew (by simp)
          ⟨[_], by simp [Backend.log, Backend.add]; rfl, by simp [Event.isFaultless]⟩
  | position id =>
      refine Faultless.withCursor fun cursor _ => ?_
      rw [Cursor.through_eq]
      exact .stay (by simp)
  | remaining id =>
      refine Faultless.withCursor fun cursor _ => ?_
      rw [Cursor.through_eq]
      exact .stay (by simp)
  | refs id => exact Faultless.withCursor fun cursor _ => .stay (by simp)
  | setPosition id position =>
      refine Faultless.withCursor fun cursor _ => .settleMoved (fun fault hfault => ?_)
        (world.pool.seek_faultless cursor position).journal
      rw [Pool.seek_error hfault]
      rfl
  | reset id =>
      refine Faultless.withCursor fun cursor _ => .settleMoved (fun fault hfault => ?_)
        ⟨[], by simp, by simp⟩
      rw [Cursor.reset_error hfault]
      rfl
  | read id capacity =>
      refine Faultless.withCursor fun cursor hfind => ?_
      obtain ⟨hanswer, hjournal⟩ :=
        Pool.read_faultless (h.focus hfind).1 (h.shows hfind) capacity
      generalize world.pool.read cursor capacity = run at hanswer hjournal
      obtain ⟨made, pool⟩ := run
      cases made with
      | error error =>
          refine ⟨fun other hother => ?_, hjournal⟩
          cases hother
          exact hanswer error rfl
      | ok moved => exact ⟨by simp, hjournal⟩
  | release id position =>
      refine Faultless.withCursor fun cursor _ => .settleMoved (fun fault hfault => ?_)
        (world.pool.release_faultless cursor position).journal
      rcases View.firstKept_error (Pool.release_error hfault) with rfl | ⟨rfl, -⟩ <;> rfl
  | cloneAt id target offset =>
      refine Faultless.claiming (Faultless.withCursor fun cursor _ => ?_)
      exact .settleNew (fun fault => Pool.cloneAt_fault)
        (world.pool.cloneAt_faultless cursor offset).journal
  | clone id target =>
      refine Faultless.claiming (Faultless.withCursor fun cursor _ => ?_)
      rw [Pool.clone_eq]
      exact .settleNew (fun fault => Pool.cloneAt_fault)
        (world.pool.cloneAt_faultless cursor cursor.position).journal
  | split id target position =>
      refine Faultless.claiming (Faultless.withCursor fun cursor hfind => ?_)
      obtain ⟨hsound, hkept⟩ := h.focus hfind
      have hjournal := (world.pool.split_faultless cursor position).journal
      cases hcheck : cursor.view.splitCheck position with
      | error fault =>
          simp only [Pool.split, Cursor.through_eq, hcheck]
          refine .stay fun error herror => ?_
          cases herror
          exact hsound.splitCheck_fault hcheck
      | ok _ =>
          obtain ⟨inner, head, tail, next, -, -, -, -, -, hsplit, -⟩ :=
            hkept.split hsound hcheck
          rw [hsplit] at hjournal ⊢
          exact ⟨by simp, hjournal⟩
  | concat id other hook =>
      refine Faultless.withCursor fun head _ => ?_
      split
      · exact .stay (by simp)
      · exact Faultless.withCursor fun tail _ => .settleMoved (fun fault => Pool.concat_fault)
          (world.pool.concat_faultless head tail hook).journal
  | dispose id =>
      refine Faultless.withCursor fun cursor _ => ?_
      rw [Pool.tryDispose_eq]
      exact ⟨by simp, (world.pool.dispose_faultless cursor).journal⟩

theorem run_faultless (h : Ordered past world) (operations : List (Operation σ)) :
    world.pool.backend.Appends Event.isFaultless (world.run operations).pool.backend := by
  induction operations generalizing world with
  | nil => exact ⟨[], by simp [run], by simp⟩
  | cons operation operations ih =>
      obtain ⟨events, hjournal, hevents⟩ := (apply_faultless h operation).journal
      obtain ⟨more, hmore, hrest⟩ := ih (apply_lands h operation).ordered
      refine ⟨events ++ more, ?_, ?_⟩
      · rw [← List.append_assoc, ← hjournal]
        exact hmore
      · intro event hmem
        rcases List.mem_append.mp hmem with hmem | hmem
        · exact hevents event hmem
        · exact hrest event hmem

/-- The bytes that a release gives up are all in sight, so the walk of the hints goes through. -/
theorem release_forwards (h : Ordered past world) {id : String} {cursor : Cursor}
    (hfind : world.find? id = some cursor) {position first : Nat}
    (hfirst : cursor.view.firstKept position = .ok first) :
    world.pool.Forwards cursor.block ⟨cursor.view.first, first⟩ := by
  obtain ⟨hsound, -⟩ := h.focus hfind
  obtain ⟨inner, -, hfrom, hpassed, rfl⟩ := View.firstKept_ok hfirst
  have hcurrent := hsound.placed.view.current_le
  have hstop : cursor.view.first + (inner + 1 - cursor.view.first) = inner + 1 := by omega
  have hwithin : Extent.Within ⟨cursor.view.first, inner + 1⟩ cursor.extent :=
    ⟨Nat.le_refl _, by dsimp only [Cursor.extent, View.extent]; omega⟩
  rw [← hstop] at hwithin ⊢
  exact (Pool.adviseBelow_leaves (show 0 < inner + 1 - cursor.view.first by omega) hsound.block
    (hsound.placed.covered.mono hwithin) ((h.shows hfind).mono hwithin)).1

/-- The present names of a cursor are allowed, so a clone under them is never refused. -/
theorem clone_granted (h : Ordered past world) {id target : String} {cursor : Cursor}
    (hfind : world.find? id = some cursor) (hfree : world.find? target = none) :
    (world.apply (.clone id target)).1 = .ok .done := by
  obtain ⟨hsound, -⟩ := h.focus hfind
  have hfits : cursor.position + cursor.view.remaining ≤ cursor.block.settings.limit := by
    have hend := Cursor.position_add_remaining hsound
    have hstop := hsound.placed.view.stopPosition_eq hsound.limit_le
    have hhigh := hsound.placed.view.high
    simp only [Cursor.remaining] at hend
    omega
  have hclone := world.pool.cloneAt_eq hfits
  simp only [apply, claiming, isLive, hfree, Option.isSome_none, Bool.false_eq_true, if_false,
    withCursor, hfind, Pool.clone_eq]
  generalize world.pool.cloneAt cursor cursor.position = run at hclone
  obtain ⟨made, pool⟩ := run
  obtain rfl := hclone
  rfl

/-- In any reachable world over any stores, whatever is done next: no answer blames the library
itself, and no read so far passed over such a fault. A release can name every range it comes to on
its way down and finds every child that it needs. Every live cursor can be disposed of, and cloned
under its present names. -/
theorem no_internal_failure (operations : List (Operation σ)) :
    let world := run {} operations
    (∀ operation fault, (world.apply operation).1 = .error (.failed (.fault fault)) →
      fault.isInternal = false) ∧
    (∀ id cursor capacity fault, world.find? id = some cursor →
      (world.pool.readBytes cursor capacity).1 = .error (.fault fault) →
      fault.isInternal = false) ∧
    (∀ filled fault, Event.partialRead filled (.fault fault) ∈ world.pool.backend.journal →
      fault.isInternal = false) ∧
    (∀ fault, Event.disposeFailed fault ∉ world.pool.backend.journal) ∧
    (∀ id cursor position first, world.find? id = some cursor →
      cursor.view.firstKept position = .ok first →
      world.pool.Forwards cursor.block ⟨cursor.view.first, first⟩) ∧
    (∀ id cursor, world.find? id = some cursor →
      (world.apply (.dispose id)).1 = .ok .done) ∧
    (∀ id target cursor, world.find? id = some cursor → world.find? target = none →
      (world.apply (.clone id target)).1 = .ok .done) := by
  intro world
  have h : Ordered {} world := run_empty_ordered operations
  have hjournal : ∀ event ∈ world.pool.backend.journal, event.isFaultless = true := by
    obtain ⟨events, hevents, hfaultless⟩ := run_faultless empty_ordered operations
    intro event hmem
    have hlist := Array.mem_toList_iff.mpr hmem
    rw [hevents] at hlist
    exact hfaultless event (by simpa using hlist)
  refine ⟨?_, ?_, ?_, ?_, ?_, ?_, ?_⟩
  · intro operation fault hanswer
    exact (apply_faultless h operation).answer _ hanswer
  · intro id cursor capacity fault hfind hread
    exact Pool.readBytes_fault (h.focus hfind).1 (h.shows hfind) hread
  · intro filled fault hmem
    have hevent := hjournal _ hmem
    simpa [Event.isFaultless, Failure.isInternal] using hevent
  · intro fault hmem
    cases hjournal _ hmem
  · intro id cursor position first hfind hfirst
    exact release_forwards h hfind hfirst
  · intro id cursor hfind
    simp only [apply, withCursor, hfind, Pool.tryDispose_eq]
  · intro id target cursor hfind hfree
    exact clone_granted h hfind hfree

end World

end SharedStream
