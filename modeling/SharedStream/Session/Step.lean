import SharedStream.Store.Stock
import SharedStream.Toml.Document
import SharedStream.World
/-!
The steps of a session: the operations on named cursors, and what a session adds to them, such as
reading in loops, descriptions, and access to the stores behind the cursors.
-/

namespace SharedStream

/-- Settings as they are asked for: ready, or as a text still to be read. -/
inductive SettingsSource where
  | given (settings : Settings)
  | toml (text : String)

def SettingsSource.resolve : SettingsSource → Except Fault Settings
  | given settings => .ok settings
  | toml text => Settings.ofToml Toml.library text

namespace Session

/-- The hooks that a new block gets. -/
inductive HookChoice where
  | none
  | data
  | block
  | both
  | counter
deriving DecidableEq

/-- Changes to a fault panel, made in the order of the fields. -/
structure PanelChange where
  failFrom : Option Nat := .none
  heal : Bool := false
  chunkLimit : Option Nat := .none

def PanelChange.apply (change : PanelChange) (panel : Panel) : Panel :=
  let panel := change.failFrom.elim panel panel.breakFrom
  let panel := if change.heal then panel.heal else panel
  change.chunkLimit.elim panel panel.setChunk

/-- What a session can be told to do. The first name says on what. -/
inductive Step where
  | new (id : String) (store : StockStore) (settings : SettingsSource) (hooks : HookChoice)
  /-- Describe a block that is about to be made, and do not make it. -/
  | describePlan (id : String) (store : StockStore) (settings : SettingsSource)
  | operation (op : Operation StockStore)
  | describe (id : String)
  | readAll (id : String) (capacity : Nat)
  /-- Read to the end, behind bytes that are there already. -/
  | readToEnd (id : String) (before : List UInt8)
  | readBytes (id : String) (capacity : Nat)
  | readExact (id : String) (wanted : Nat)
  | chain (id : String) (bytes : List UInt8) (announce : Bool)
  | probe (id : String) (change : PanelChange)
  | script (id : String) (reads : List ReadAction) (releases : List (Option StoreFailure))
  | counter (id : String)

/-- What a step gives. -/
inductive Outcome where
  | done
  | number (n : Nat)
  | text (s : String)
  | read (result : ReadResult)
  | drained (result : Drained)
  /-- All bytes read to the end, behind those that were there before. -/
  | total (before : List UInt8) (result : Drained)
  | bytes (bytes : List UInt8)
  /-- The byte reader ended before it had as many bytes as were wanted. -/
  | unexpectedEnd
  | brokenOff
  | ioFailed (error : Failure)
  | links (n : Nat)
  | panel (panel : Panel)
  | counts (data block : Nat)
  | refused (refusal : Refusal)
  | noSuchGauge

def Step.subject : Step → String
  | new id _ _ _ | describePlan id _ _ | describe id | readAll id _ | readToEnd id _
  | readBytes id _ | readExact id _ | chain id _ _ | probe id _ | script id _ _ | counter id => id
  | operation op =>
      match op with
      | .build id _ | .position id | .remaining id | .refs id | .setPosition id _ | .reset id
      | .read id _ | .release id _ | .cloneAt id _ _ | .clone id _ | .split id _ _
      | .concat id _ _ | .dispose id => id

/-- A second cursor whose state a reader wants to see, if the step names one. -/
def Step.partner? : Step → Option String
  | operation op =>
      match op with
      | .cloneAt _ target _ | .clone _ target | .split _ target _ => some target
      | .concat _ other _ => some other
      | _ => .none
  | _ => .none

end Session

end SharedStream
