import SharedStream.Toml.Library
/-!
Tables under construction. A table may be opened by a header, implied by a longer header or grown by
dotted keys, and what may still be added to it depends on which of these it was.
-/

namespace SharedStream.Toml

/-- How a table came into being. -/
inductive Origin where
  /-- By a header of its own. -/
  | header
  /-- By a header that goes through it. -/
  | implied
  /-- By a dotted key that goes through it. -/
  | dotted
deriving DecidableEq

/-- What a key stands for while the document is read. -/
inductive Node where
  | leaf (value : Value)
  | table (origin : Origin) (entries : List (String × Node))
  /-- The tables that headers in double brackets opened one after another. -/
  | tables (elements : List (List (String × Node)))

/-- The entries of a table while the document is read. -/
abbrev Entries := List (String × Node)

namespace Entries

def replace (entries : Entries) (key : String) (node : Node) : Entries :=
  entries.map fun entry => if entry.1 = key then (key, node) else entry

/-- Change the table at the end of a path. Missing tables on the way are made; of several tables
under one key the last is meant. A dotted path does not go through a table that has a header. -/
def descend (dotted : Bool) (change : Origin → Entries → Option Entries) :
    List String → Origin → Entries → Option Entries
  | [], origin, entries => change origin entries
  | key :: path, _, entries =>
      match entries.lookup key with
      | none =>
          let origin := if dotted then Origin.dotted else Origin.implied
          (descend dotted change path origin []).map fun inner =>
            entries ++ [(key, .table origin inner)]
      | some (.leaf _) => none
      | some (.tables elements) =>
          match elements.getLast? with
          | none => none
          | some last =>
              (descend dotted change path .header last).map fun inner =>
                entries.replace key (.tables (elements.dropLast ++ [inner]))
      | some (.table origin inner) =>
          if dotted && origin = .header then none
          else
            (descend dotted change path origin inner).map fun inner =>
              entries.replace key (.table origin inner)

/-- Add a value under a dotted key to the table at `place`. Only tables that dotted keys made can be
added to from above, and no key can be given twice. -/
def insert (root : Entries) (place keys : List String) (value : Value) : Option Entries :=
  match keys.getLast? with
  | none => none
  | some key =>
      let above := keys.dropLast
      let add (origin : Origin) (entries : Entries) : Option Entries :=
        if (origin == .dotted) == above.isEmpty then none
        else if (entries.lookup key).isSome then none
        else some (entries ++ [(key, .leaf value)])
      descend false (descend true add above) place .header root

/-- Open the table that a header names. It must be new, or only implied so far. -/
def openTable (root : Entries) (place : List String) : Option Entries :=
  match place.getLast? with
  | none => none
  | some key =>
      descend false
        (fun _ entries =>
          match entries.lookup key with
          | none => some (entries ++ [(key, .table .header [])])
          | some (.table .implied inner) => some (entries.replace key (.table .header inner))
          | some _ => none)
        place.dropLast .header root

/-- Open one more of the tables that a header in double brackets names. -/
def openElement (root : Entries) (place : List String) : Option Entries :=
  match place.getLast? with
  | none => none
  | some key =>
      descend false
        (fun _ entries =>
          match entries.lookup key with
          | none => some (entries ++ [(key, .tables [[]])])
          | some (.tables elements) => some (entries.replace key (.tables (elements ++ [[]])))
          | some _ => none)
        place.dropLast .header root

end Entries

mutual

def Node.value : Node → Value
  | .leaf value => value
  | .table _ entries => .table (entryValues entries)
  | .tables elements => .array (elementValues elements)

def entryValues : List (String × Node) → List (String × Value)
  | [] => []
  | (key, node) :: entries => (key, node.value) :: entryValues entries

def elementValues : List (List (String × Node)) → List Value
  | [] => []
  | entries :: elements => .table (entryValues entries) :: elementValues elements

end

end SharedStream.Toml
