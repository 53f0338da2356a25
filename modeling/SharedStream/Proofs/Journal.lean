import Mathlib.Control.Monad.Basic
import SharedStream.Cursor.Moving
import SharedStream.Cursor.Reading
import SharedStream.Retirement
/-!
What the journal may say, and what may become of the stores. An *ending* tells that a block was
freed, that one of its hooks ran or that a store was dropped. Everything else is *quiet*, except
that a child which nobody saw any more must never be said to be needed again. Every step writes
events of its own kind only and takes no store in, whatever the stores answer: reads ask, hints
advise, and both are quiet, as are changes of the needs. A store changes by what it is asked and
told, and in no other way.
-/

namespace SharedStream

deriving instance DecidableEq for Event

namespace Event

def isEnding : Event → Bool
  | blockFreed _ _ | hookRan _ _ _ | storeDropped _ => true
  | _ => false

/-- The event ends nothing, and raises no need from zero. -/
def isQuiet : Event → Bool
  | childNeeded _ _ before => decide (0 < before)
  | event => !event.isEnding

/-- The store that the event tells of. -/
def store? : Event → Option Nat
  | storeRead store _ _ _ | storeHinted store _ | storeDropped store => some store
  | _ => none

/-- The event tells what a reader asks the stores for. -/
def isAsking : Event → Bool
  | storeRead _ _ _ _ | boundaryRead _ _ => true
  | _ => false

/-- The event tells what the stores hear of a release, and what they say to it. -/
def isAdvice : Event → Bool
  | storeHinted _ _ | hintRejected _ _ => true
  | _ => false

theorem isQuiet_of_isAsking {event : Event} (h : event.isAsking = true) :
    event.isQuiet = true := by
  cases event <;> simp_all [isAsking, isQuiet, isEnding]

theorem isQuiet_of_isAdvice {event : Event} (h : event.isAdvice = true) :
    event.isQuiet = true := by
  cases event <;> simp_all [isAdvice, isQuiet, isEnding]

theorem not_isEnding_of_isQuiet {event : Event} (h : event.isQuiet = true) :
    event.isEnding = false := by
  cases event <;> simp_all [isQuiet, isEnding]

/-- Where all is quiet, there are no endings. -/
theorem filter_eq_nil_of_quiet {events : List Event}
    (hevents : ∀ event ∈ events, event.isQuiet = true) {p : Event → Bool}
    (hp : ∀ event, p event = true → event.isEnding = true) : events.filter p = [] := by
  apply List.filter_eq_nil_iff.mpr
  intro event hmem hevent
  have hending := hp event hevent
  rw [not_isEnding_of_isQuiet (hevents event hmem)] at hending
  cases hending

end Event

theorem Block.readEvent_isQuiet (block : Block) (copied position : Nat) :
    (block.readEvent copied position).isQuiet = true := by
  cases block <;> rfl

theorem Block.readEvent_store? (block : Block) (copied position : Nat) :
    (block.readEvent copied position).store? = none := by
  cases block <;> rfl

variable {σ : Type} [Store σ]

/-- A store was asked and told things, any number of times. -/
inductive Store.Evolves : σ → σ → Prop where
  | refl (state : σ) : Evolves state state
  | read {state next : σ} (h : Evolves state next) (position length : Nat) :
      Evolves state (Store.readAt next position length).2
  | release {state next : σ} (h : Evolves state next) (position : Nat) :
      Evolves state (Store.release next position).2
  | drop {state next : σ} (h : Evolves state next) : Evolves state (Store.drop next)

/-- What an event of the journal makes of the store with this number. -/
def Store.after (number : Nat) (state : σ) : Event → σ
  | .storeRead store position length _ =>
      if store = number then (Store.readAt state position length).2 else state
  | .storeHinted store position =>
      if store = number then (Store.release state position).2 else state
  | .storeDropped store => if store = number then Store.drop state else state
  | _ => state

/-- What a stretch of the journal makes of the store with this number. -/
def Store.replay (number : Nat) (state : σ) (events : List Event) : σ :=
  events.foldl (Store.after number) state

theorem Store.after_eq_self {number : Nat} {event : Event} (h : event.store? ≠ some number)
    (state : σ) : Store.after number state event = state := by
  cases event with
  | storeRead _ _ _ _ | storeHinted _ _ | storeDropped _ =>
      exact if_neg fun hsame => h (congrArg some hsame)
  | _ => rfl

theorem Store.replay_append (number : Nat) (state : σ) (events more : List Event) :
    Store.replay number state (events ++ more) =
      Store.replay number (Store.replay number state events) more :=
  List.foldl_append

/-- A store that no event tells of is left alone. -/
theorem Store.replay_eq_self {number : Nat} {events : List Event}
    (h : ∀ event ∈ events, event.store? ≠ some number) (state : σ) :
    Store.replay number state events = state := by
  induction events with
  | nil => rfl
  | cons event events ih =>
      rw [List.forall_mem_cons] at h
      change Store.replay number (Store.after number state event) events = state
      rw [Store.after_eq_self h.1]
      exact ih h.2

theorem Store.Evolves.after {state next : σ} (h : Store.Evolves state next) (number : Nat)
    (event : Event) : Store.Evolves state (Store.after number next event) := by
  unfold Store.after
  split
  · split
    · exact h.read _ _
    · exact h
  · split
    · exact h.release _
    · exact h
  · split
    · exact h.drop
    · exact h
  · exact h

theorem Store.Evolves.replay {state next : σ} (h : Store.Evolves state next) (number : Nat)
    (events : List Event) : Store.Evolves state (Store.replay number next events) := by
  induction events generalizing next with
  | nil => exact h
  | cons event events ih => exact ih (h.after number event)

namespace Backend

/-- The journal grew by these events, and they tell what became of the stores: each store is what
they make of it. Only stores that are there are asked or hear of a release. -/
structure Replays (before : Backend σ) (events : List Event) (after : Backend σ) : Prop where
  journal : after.journal.toList = before.journal.toList ++ events
  stores : ∀ {number : Nat} {state : σ}, before.stores[number]? = some state →
    after.stores[number]? = some (Store.replay number state events)
  known : ∀ event ∈ events, event.isEnding = false → ∀ {number : Nat},
    event.store? = some number → number < after.stores.size

namespace Replays

variable {before middle after : Backend σ} {events more : List Event} {event : Event}
  {number : Nat}

theorem refl (backend : Backend σ) : backend.Replays [] backend :=
  ⟨by simp, fun hstate => hstate, by simp⟩

theorem lt_size (h : before.Replays events after) (hlt : number < before.stores.size) :
    number < after.stores.size := by
  have hstate := h.stores (Array.getElem?_eq_getElem hlt)
  exact (Array.getElem?_eq_some_iff.mp hstate).1

theorem trans (hfirst : before.Replays events middle) (hsecond : middle.Replays more after) :
    before.Replays (events ++ more) after := by
  refine ⟨?_, fun {number state} hstate => ?_, fun event hmem hgoes number hof => ?_⟩
  · rw [hsecond.journal, hfirst.journal, List.append_assoc]
  · rw [Store.replay_append]
    exact hsecond.stores (hfirst.stores hstate)
  · rcases List.mem_append.mp hmem with hmem | hmem
    · exact hsecond.lt_size (hfirst.known event hmem hgoes hof)
    · exact hsecond.known event hmem hgoes hof

/-- One more event, and what it makes of each store. -/
theorem single (hjournal : after.journal = before.journal.push event)
    (hstores : ∀ {number : Nat} {state : σ}, before.stores[number]? = some state →
      after.stores[number]? = some (Store.after number state event))
    (hknown : event.isEnding = false → ∀ {number : Nat}, event.store? = some number →
      number < after.stores.size) : before.Replays [event] after := by
  refine ⟨by simp [hjournal], hstores, fun other hmem => ?_⟩
  obtain rfl := List.mem_singleton.mp hmem
  exact hknown

theorem log (backend : Backend σ) (hof : event.store? = none) :
    backend.Replays [event] (backend.log event) := by
  refine single rfl (fun {number state} hstate => ?_) fun _ number hsome => ?_
  · rw [Store.after_eq_self (by simp [hof])]
    exact hstate
  · rw [hof] at hsome
    cases hsome

/-- A store that is there changes, and the event says how. -/
theorem set {state : σ} (hof : event.store? = some number)
    (hstate : before.stores[number]? = some state)
    (hstores : after.stores = before.stores.setIfInBounds number (Store.after number state event))
    (hjournal : after.journal = before.journal.push event) : before.Replays [event] after := by
  obtain ⟨hlt, -⟩ := Array.getElem?_eq_some_iff.mp hstate
  refine single hjournal (fun {other old} hold => ?_) fun _ other hother => ?_
  · rw [hstores, Array.getElem?_setIfInBounds]
    split
    · rename_i hsame
      subst hsame
      obtain rfl := Option.some.inj (hstate.symm.trans hold)
      simp
    · rename_i hne
      rw [Store.after_eq_self (by rwa [hof, ne_eq, Option.some.injEq]), hold]
  · obtain rfl := Option.some.inj (hof.symm.trans hother)
    simpa [hstores] using hlt

theorem drop (backend : Backend σ) (store : StoreRef) :
    backend.Replays [.storeDropped store.number] (backend.drop store) := by
  refine single rfl (fun {number state} hstate => ?_) (fun hquiet => by cases hquiet)
  simp only [Backend.drop, Array.getElem?_modify, Store.after, hstate, Option.map_some]
  split <;> rfl

theorem add (backend : Backend σ) (store : σ) : backend.Replays [] (backend.add store) := by
  refine ⟨by simp [Backend.add], fun {number state} hstate => ?_, by simp⟩
  obtain ⟨hlt, -⟩ := Array.getElem?_eq_some_iff.mp hstate
  rw [Backend.add, Array.getElem?_push_lt hlt, ← Array.getElem?_eq_getElem hlt]
  exact hstate

theorem runHook (backend : Backend σ) (number : Nat) (role : HookRole) (hook : Option Hook) :
    backend.Replays (hook.map (Event.hookRan number role)).toList
      (backend.runHook number role hook) := by
  cases hook with
  | none => exact refl backend
  | some hook => exact log backend rfl

/-- Where no store was taken in, all stores are the old ones after the events. -/
theorem stores_eq (h : before.Replays events after)
    (hsize : after.stores.size = before.stores.size) :
    after.stores = before.stores.mapIdx fun number state => Store.replay number state events := by
  apply Array.ext_getElem?
  intro number
  rw [Array.getElem?_mapIdx]
  cases hstate : before.stores[number]? with
  | some state => exact h.stores hstate
  | none =>
      rw [Array.getElem?_eq_none_iff] at hstate
      exact Array.getElem?_eq_none_iff.mpr (by omega)

end Replays

/-- Every store is still there, and became what the journal tells. -/
def Evolves (before after : Backend σ) : Prop := ∃ events, before.Replays events after

namespace Evolves

variable {before middle after : Backend σ}

theorem refl (backend : Backend σ) : backend.Evolves backend := ⟨[], .refl backend⟩

theorem trans (hfirst : before.Evolves middle) (hsecond : middle.Evolves after) :
    before.Evolves after := by
  obtain ⟨events, hevents⟩ := hfirst
  obtain ⟨more, hmore⟩ := hsecond
  exact ⟨events ++ more, hevents.trans hmore⟩

theorem journal (h : before.Evolves after) :
    before.journal.toList <+: after.journal.toList := by
  obtain ⟨events, hevents⟩ := h
  exact ⟨events, hevents.journal.symm⟩

theorem found (h : before.Evolves after) {number : Nat} {state : σ}
    (hstate : before.stores[number]? = some state) :
    ∃ next, after.stores[number]? = some next ∧ Store.Evolves state next := by
  obtain ⟨events, hevents⟩ := h
  exact ⟨_, hevents.stores hstate, (Store.Evolves.refl state).replay number events⟩

/-- What the journal grew by is what became of the stores. -/
theorem replays (h : before.Evolves after) {events : List Event}
    (hjournal : after.journal.toList = before.journal.toList ++ events) :
    before.Replays events after := by
  obtain ⟨told, htold⟩ := h
  obtain rfl := List.append_cancel_left (htold.journal.symm.trans hjournal)
  exact htold

end Evolves

/-- The journal grew by events of one kind. -/
abbrev Appends (kind : Event → Bool) (before after : Backend σ) : Prop :=
  ∃ events, after.journal.toList = before.journal.toList ++ events ∧
    ∀ event ∈ events, kind event = true

/-- Only events of one kind were written, and no store was taken in. -/
structure Writes (kind : Event → Bool) (before after : Backend σ) : Prop where
  size : after.stores.size = before.stores.size
  stores : before.Evolves after
  journal : before.Appends kind after

/-- Only quiet events were written. -/
abbrev Quiet (before after : Backend σ) : Prop := before.Writes Event.isQuiet after

namespace Writes

variable {kind : Event → Bool} {before middle after : Backend σ}

theorem refl (backend : Backend σ) : backend.Writes kind backend :=
  ⟨rfl, .refl backend, [], by simp, by simp⟩

theorem trans (hfirst : before.Writes kind middle) (hsecond : middle.Writes kind after) :
    before.Writes kind after := by
  obtain ⟨hsize, hstores, events, hjournal, hevents⟩ := hfirst
  obtain ⟨hsize', hstores', events', hjournal', hevents'⟩ := hsecond
  refine ⟨hsize'.trans hsize, hstores.trans hstores', events ++ events', ?_, ?_⟩
  · rw [hjournal', hjournal, List.append_assoc]
  · intro event hmem
    rcases List.mem_append.mp hmem with hmem | hmem
    · exact hevents event hmem
    · exact hevents' event hmem

theorem log (backend : Backend σ) {event : Event} (hof : event.store? = none)
    (hevent : kind event = true) : backend.Writes kind (backend.log event) :=
  ⟨rfl, ⟨[event], .log backend hof⟩, [event], by simp [Backend.log], by simpa using hevent⟩

theorem mono (h : before.Writes kind after) {wider : Event → Bool}
    (hkind : ∀ {event}, kind event = true → wider event = true) :
    before.Writes wider after := by
  obtain ⟨events, hjournal, hevents⟩ := h.journal
  exact ⟨h.size, h.stores, events, hjournal, fun event hmem => hkind (hevents event hmem)⟩

end Writes

theorem Quiet.filter_eq {before after : Backend σ} (h : before.Quiet after) {p : Event → Bool}
    (hp : ∀ event, p event = true → event.isEnding = true) :
    after.journal.toList.filter p = before.journal.toList.filter p := by
  obtain ⟨events, hjournal, hevents⟩ := h.journal
  rw [hjournal, List.filter_append, Event.filter_eq_nil_of_quiet hevents hp, List.append_nil]

theorem noteCrossing_asks (backend : Backend σ) (joint : Joint) (position length : Nat) :
    backend.Writes Event.isAsking (backend.noteCrossing joint position length) := by
  unfold noteCrossing
  split
  · exact Writes.log backend rfl rfl
  · exact Writes.refl backend

theorem settle_quiet (backend : Backend σ) (got : Gathered) :
    backend.Quiet (backend.settle got).2 := by
  unfold settle
  split
  · exact Writes.refl backend
  · split
    · exact Writes.refl backend
    · exact Writes.log backend rfl rfl

theorem read_asks (backend : Backend σ) (store : StoreRef) (position length : Nat) :
    backend.Writes Event.isAsking (backend.read store position length).2 := by
  unfold read
  split
  · exact Writes.refl backend
  · rename_i state hstate
    exact ⟨by simp, ⟨_, .set rfl hstate (by simp [Store.after]) rfl⟩, [_], by simp; rfl,
      by simp [Event.isAsking]⟩

theorem hint_advises (backend : Backend σ) (store : StoreRef) (position : Nat) :
    backend.Writes Event.isAdvice (backend.hint store position).2 := by
  unfold hint
  split
  · exact Writes.refl backend
  · rename_i state hstate
    exact ⟨by simp, ⟨_, .set rfl hstate (by simp [Store.after]) rfl⟩, [_], by simp; rfl,
      by simp [Event.isAdvice]⟩

theorem fill_asks (backend : Backend σ) (store : StoreRef) (position length : Nat) :
    backend.Writes Event.isAsking (backend.fill store position length).2 := by
  fun_induction fill backend store position length with
  | case1 => exact Writes.refl _
  | case2 backend position length _ failure after hread =>
      have hasks := backend.read_asks store position length
      rw [hread] at hasks
      exact hasks
  | case3 backend position length _ reply after hread _ =>
      have hasks := backend.read_asks store position length
      rw [hread] at hasks
      exact hasks
  | case4 backend position length _ reply after hread _ taken rest last hrest ih =>
      have hasks := backend.read_asks store position length
      rw [hread] at hasks
      rw [hrest] at ih
      exact hasks.trans ih

theorem gather_asks (backend : Backend σ) (ledger : Ledger) (filled : List UInt8)
    (parts : List Part) :
    backend.Writes Event.isAsking (backend.gather ledger filled parts).2 := by
  fun_induction gather backend ledger filled parts with
  | case1 => exact Writes.refl _
  | case2 => exact Writes.refl _
  | case3 => exact Writes.refl _
  | case4 backend filled view position length parts start header joint left right _ ih =>
      exact (backend.noteCrossing_asks joint start length).trans ih
  | case5 backend filled view position length parts start header store got after hfill =>
      have hasks := backend.fill_asks store start length
      rw [hfill] at hasks
      exact hasks
  | case6 backend filled view position length parts start header store got after hfill _ _ ih =>
      have hasks := backend.fill_asks store start length
      rw [hfill] at hasks
      exact hasks.trans ih

/-- Whatever is made of the answer, one request is all that happens. -/
theorem ask_backend (backend : Backend σ) (store : StoreRef) (position wanted : Nat) :
    (backend.ask store position wanted).2 = (backend.read store position wanted).2 := by
  unfold ask
  split
  · rename_i hread
    rw [hread]
  · rename_i hread
    rw [hread]
    split <;> rfl

theorem ask_asks (backend : Backend σ) (store : StoreRef) (position wanted : Nat) :
    backend.Writes Event.isAsking (backend.ask store position wanted).2 := by
  rw [ask_backend]
  exact backend.read_asks store position wanted

theorem readBlock_quiet (backend : Backend σ) (ledger : Ledger) (block : Block)
    (position wanted : Nat) :
    backend.Quiet (backend.readBlock ledger block position wanted).2 := by
  cases block with
  | source header store =>
      exact (backend.ask_asks store position wanted).mono Event.isQuiet_of_isAsking
  | composed header joint left right =>
      have hasks := (backend.noteCrossing_asks joint position wanted).trans
        (gather_asks _ ledger [] (ledger.parts header.number joint left right position wanted))
      have hquiet : backend.Quiet
          (backend.readComposed ledger header joint left right position wanted).2 :=
        (hasks.mono Event.isQuiet_of_isAsking).trans (settle_quiet _ _)
      simp only [readBlock]
      split
      · rename_i hread
        rw [hread] at hquiet
        exact hquiet
      · rename_i hread
        rw [hread] at hquiet
        split <;> exact hquiet

theorem advise_advises (backend : Backend σ) (settings : Settings) (store : StoreRef)
    (position : Nat) :
    backend.Writes Event.isAdvice (backend.advise settings store position) := by
  unfold advise
  split
  · have hadvice := backend.hint_advises store position
    split
    · rename_i hhint
      rw [hhint] at hadvice
      exact hadvice
    · rename_i hhint
      rw [hhint] at hadvice
      exact hadvice.trans (Writes.log _ rfl rfl)
  · exact Writes.refl backend

theorem adviseAll_advises (backend : Backend σ) (ledger : Ledger)
    (ranges : List (Cursor × Extent)) :
    backend.Writes Event.isAdvice (backend.adviseAll ledger ranges) := by
  fun_induction adviseAll backend ledger ranges with
  | case1 => exact Writes.refl _
  | case2 => assumption
  | case3 backend view range ranges start stop _ _ header store ih =>
      exact (backend.advise_advises header.settings store (stop - 1)).trans ih
  | case4 => assumption

end Backend

namespace Pool

theorem adviseBelow_advises (pool : Pool σ) (block : Block) (released : Extent) :
    (pool.adviseBelow block released).ledger = pool.ledger ∧
      pool.backend.Writes Event.isAdvice (pool.adviseBelow block released).backend := by
  cases block with
  | source header store => exact ⟨rfl, Backend.advise_advises _ _ _ _⟩
  | composed header joint left right => exact ⟨rfl, Backend.adviseAll_advises _ _ _⟩

/-- Changing the needs of a child writes that it is needed or that it is retired. -/
theorem recountSlot_writes {kind : Event → Bool} (pool : Pool σ) (header : Header)
    (joint : Joint) (before after : Extent) (side : Side)
    (hneeded : after.overlaps (joint.range side) = true →
      kind (.childNeeded header.number side (pool.ledger.slot header.number side).needs) = true)
    (hretired : kind (.childRetired header.number side) = true) :
    pool.backend.Writes kind (pool.recountSlot header joint before after side).1.backend := by
  unfold recountSlot
  split
  · exact Backend.Writes.refl _
  · rename_i page hpage
    have hnote : ∀ ledger : Ledger, pool.backend.Writes kind
        (noteNeed ⟨ledger, pool.backend⟩ header side (page.slot side).needs
          (before.overlaps (joint.range side)) (after.overlaps (joint.range side))).backend := by
      intro ledger
      unfold noteNeed
      split
      · rename_i hnew
        simp only [Bool.and_eq_true] at hnew
        have hkind := hneeded hnew.2
        rw [Ledger.slot, hpage] at hkind
        exact Backend.Writes.log _ rfl hkind
      · exact Backend.Writes.refl _
    simp only
    split
    · exact (hnote _).trans (Backend.Writes.log _ rfl hretired)
    · exact hnote _

/-- Changing the needs of a child is quiet, if a holder that comes to see the child is not the only
one. -/
theorem recountSlot_quiet (pool : Pool σ) (header : Header) (joint : Joint)
    (before after : Extent) (side : Side)
    (hseen : after.overlaps (joint.range side) = true →
      0 < (pool.ledger.slot header.number side).needs) :
    pool.backend.Quiet (pool.recountSlot header joint before after side).1.backend :=
  pool.recountSlot_writes header joint before after side
    (fun hoverlap => decide_eq_true (hseen hoverlap)) rfl

end Pool

end SharedStream
