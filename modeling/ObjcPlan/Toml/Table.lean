/-!
TOML tables and how a document may build them up. A table can be opened by a header, by a dotted key
or on the way to a deeper header, and what was opened in one way cannot be opened again in another;
`Node` remembers the way until the document is complete.
-/

namespace ObjcPlan.Toml

/-- A value of a document. Numbers and dates are left out, since no option takes one. -/
inductive Value
  | text (value : String)
  | flag (value : Bool)
  | array (items : List Value)
  | table (entries : List (String × Value))

/-- How a table was opened. -/
inductive Origin
  /-- On the way to a deeper header. -/
  | implied
  /-- By a dotted key. -/
  | dotted
  /-- By a header of its own. -/
  | header
  deriving DecidableEq

/-- An entry of a table under construction. -/
inductive Node
  | value (v : Value)
  | table (origin : Origin) (entries : List (String × Node))
  /-- An array of tables, the last one first. -/
  | tables (elements : List Node)

/-- A table under construction. -/
abbrev Entries := List (String × Node)

/-- The entries with the one of a given key replaced by what `change` makes of it; a new entry goes
to the end. -/
def Entries.modify (key : String) (change : Option Node → Option Node) : Entries → Option Entries
  | [] => (change none).map fun node => [(key, node)]
  | (k, node) :: rest =>
    if k = key then (change (some node)).map fun node => (k, node) :: rest
    else (modify key change rest).map ((k, node) :: ·)

/-- A value put under a dotted key. -/
def Entries.add : List String → Value → Entries → Option Entries
  | [], _, _ => none
  | [key], v, entries =>
    entries.modify key fun
      | none => some (.value v)
      | some _ => none
  | key :: path, v, entries =>
    entries.modify key fun
      | none => (add path v []).map (.table .dotted)
      | some (.table .dotted inner) => (add path v inner).map (.table .dotted)
      | _ => none

/-- A change to the table that a header path leads to, where `missing` says what to make of a table
that is not there. An array of tables leads on to its last table. -/
def Entries.descend (missing : Option Entries) (change : Entries → Option Entries) :
    List String → Entries → Option Entries
  | [], entries => change entries
  | key :: path, entries =>
    entries.modify key fun
      | none => missing.bind fun fresh => (descend missing change path fresh).map (.table .implied)
      | some (.table origin inner) => (descend missing change path inner).map (.table origin)
      | some (.tables (.table origin inner :: earlier)) =>
        (descend missing change path inner).map fun inner =>
          .tables (.table origin inner :: earlier)
      | _ => none

/-- A table opened by its header, which may have been implied before. -/
def Entries.openTable (path : List String) (entries : Entries) : Option Entries :=
  match path.getLast? with
  | none => none
  | some key =>
    entries.descend (some []) (fun inner => inner.modify key fun
      | none => some (.table .header [])
      | some (.table .implied found) => some (.table .header found)
      | _ => none) path.dropLast

/-- One more table in the array that a header names. -/
def Entries.openElement (path : List String) (entries : Entries) : Option Entries :=
  match path.getLast? with
  | none => none
  | some key =>
    entries.descend (some []) (fun inner => inner.modify key fun
      | none => some (.tables [.table .header []])
      | some (.tables elements) => some (.tables (.table .header [] :: elements))
      | _ => none) path.dropLast

mutual

def Node.toValue : Node → Value
  | .value v => v
  | .table _ entries => .table (Node.toEntries entries)
  | .tables elements => .array (Node.toValues elements).reverse

def Node.toValues : List Node → List Value
  | [] => []
  | node :: rest => node.toValue :: Node.toValues rest

def Node.toEntries : List (String × Node) → List (String × Value)
  | [] => []
  | (key, node) :: rest => (key, node.toValue) :: Node.toEntries rest

end

end ObjcPlan.Toml
