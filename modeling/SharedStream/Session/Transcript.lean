import SharedStream.Session.State
/-!
The transcript of a session: what each step gave, what happened meanwhile, and how the cursors stood
after it.
-/

namespace SharedStream.Session

/-- One thing that happened, as the transcript tells it. -/
inductive Item where
  | line (text : String)
  | record (record : LogRecord)

/-- What an event says in one line. Hooks speak if they announce themselves, stores if they have a
label. -/
def lineOf? (labelOf : Nat → Option String) : Event → Option String
  | .hookRan _ .data (.announce label) => some ("data " ++ label)
  | .hookRan _ .block (.announce label) => some ("block " ++ label)
  | .storeRead store position length answer =>
      (labelOf store).map fun label =>
        "read " ++ label ++ s!" {position} {length} -> " ++
          match answer with
          | .ok count => toString count
          | .error failure => failure.kind.name
  | .storeHinted store position =>
      (labelOf store).map fun label => "hint " ++ label ++ s!" {position}"
  | .storeDropped store => (labelOf store).map fun label => "drop " ++ label
  | _ => none

/-- What the transcript tells of an event: its line, or its log record if that is asked for. -/
def itemOf? (labelOf : Nat → Option String) (threshold : Option Level) (event : Event) :
    Option Item :=
  match lineOf? labelOf event, event.record?, threshold with
  | some text, _, _ => some (.line text)
  | none, some record, some level =>
      if record.level.visibleAt level then some (.record record) else none
  | none, _, _ => none

/-- How a cursor stands. -/
structure Snapshot where
  position : Nat
  remaining : Nat
  refs : Nat
  composed : Bool

def State.snapshot? (state : State) (id : String) : Option Snapshot :=
  (state.world.find? id).map fun cursor =>
    ⟨cursor.position, cursor.remaining, state.pool.refs cursor, cursor.block.isComposed⟩

def State.itemsSince (state : State) (threshold : Option Level) (mark : Nat) : List Item :=
  let labelOf (store : Nat) := (state.pool.backend.stores[store]?).bind StockStore.label?
  (state.journal.extract mark state.journal.size).toList.filterMap (itemOf? labelOf threshold)

/-- What a step gave, what happened meanwhile, and how its cursors stood after it. -/
structure StepReport where
  outcome : Outcome
  items : List Item
  subject : Option Snapshot
  partner : Option Snapshot

/-- The record of a whole session. -/
structure Transcript where
  steps : List StepReport
  /-- The cursors that were live at the end, with what their disposal caused. -/
  ending : List (String × List Item)
  probes : List (String × Panel)

namespace State

def report (state : State) (threshold : Option Level) (step : Step) : StepReport × State :=
  let mark := state.journal.size
  let (outcome, state) := state.perform step
  (⟨outcome, state.itemsSince threshold mark, state.snapshot? step.subject,
      step.partner?.bind state.snapshot?⟩, state)

def reports (state : State) (threshold : Option Level) : List Step → List StepReport × State
  | [] => ([], state)
  | step :: steps =>
      let (first, state) := state.report threshold step
      let (rest, state) := reports state threshold steps
      (first :: rest, state)

def disposals (state : State) (threshold : Option Level) :
    List String → List (String × List Item) × State
  | [] => ([], state)
  | id :: ids =>
      let (first, state) := state.report threshold (.operation (.dispose id))
      let (rest, state) := disposals state threshold ids
      ((id, first.items) :: rest, state)

end State

/-- Run a session from the beginning. In the end every live cursor is disposed of, the one that was
made first before the others. -/
def run (threshold : Option Level) (steps : List Step) : Transcript :=
  let (steps, state) := State.reports {} threshold steps
  let (ending, state) := state.disposals threshold (state.world.cursors.map Prod.fst)
  ⟨steps, ending,
    state.probes.filterMap fun (id, number) => (state.panel? number).map fun panel => (id, panel)⟩

end SharedStream.Session
