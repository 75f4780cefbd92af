/-!
Tables of named values, and the rules by which a document may add to them.

A table remembers what made it, since that decides what may still be added: a table that stands between
braces is complete, one that a header has opened cannot be opened again, and one that dotted keys have
made grows by dotted keys only.
-/

namespace BlockComputer.Toml

inductive Origin where
  | braces
  | header
  | innerHeader
  | dottedKey
deriving DecidableEq, Repr

/-- A value of a document. Only the values of strings are kept. -/
inductive Value where
  | string (text : String)
  | scalar
  | array (items : List Value)
  | table (origin : Origin) (entries : List (String × Value))
  | tables (rows : List (List (String × Value)))

abbrev Entries : Type := List (String × Value)

namespace Entries

def put (name : String) (value : Value) : Entries → Entries
  | [] => [(name, value)]
  | (other, old) :: rest =>
    if other = name then (name, value) :: rest else (other, old) :: put name value rest

/-- Adds a value under a dotted key: the tables of `path` lie between. -/
def addDotted (name : String) (value : Value) : List String → Entries → Option Entries
  | [], entries =>
    match entries.lookup name with
    | none => some (entries ++ [(name, value)])
    | some _ => none
  | key :: path, entries =>
    match entries.lookup key with
    | none => do
      let inner ← addDotted name value path []
      return put key (.table .dottedKey inner) entries
    | some (.table .dottedKey old) => do
      let inner ← addDotted name value path old
      return put key (.table .dottedKey inner) entries
    | some (.table .innerHeader old) =>
      if path.isEmpty then none
      else do
        let inner ← addDotted name value path old
        return put key (.table .innerHeader inner) entries
    | some (.tables (last :: before)) =>
      if path.isEmpty then none
      else do
        let inner ← addDotted name value path last
        return put key (.tables (inner :: before)) entries
    | some _ => none

/-- Changes the entries of the table that lies at `path`, making the tables on the way. -/
def modifyAt (change : Entries → Option Entries) : List String → Entries → Option Entries
  | [], entries => change entries
  | key :: path, entries =>
    match entries.lookup key with
    | none => do
      let inner ← modifyAt change path []
      return put key (.table .innerHeader inner) entries
    | some (.table .braces _) => none
    | some (.table origin old) => do
      let inner ← modifyAt change path old
      return put key (.table origin inner) entries
    | some (.tables (last :: before)) => do
      let inner ← modifyAt change path last
      return put key (.tables (inner :: before)) entries
    | some _ => none

structure Pair where
  path : List String
  name : String
  value : Value

def addPairs (pairs : List Pair) (entries : Entries) : Option Entries :=
  pairs.foldlM (fun entries p => addDotted p.name p.value p.path entries) entries

def addTable (name : String) (pairs : List Pair) (entries : Entries) : Option Entries := do
  match entries.lookup name with
  | none => return put name (.table .header (← addPairs pairs [])) entries
  | some (.table .innerHeader old) => return put name (.table .header (← addPairs pairs old)) entries
  | some _ => failure

def addRow (name : String) (pairs : List Pair) (entries : Entries) : Option Entries := do
  let row ← addPairs pairs []
  match entries.lookup name with
  | none => return put name (.tables [row]) entries
  | some (.tables rows) => return put name (.tables (row :: rows)) entries
  | some _ => failure

end Entries

end BlockComputer.Toml
