import StaticChain.Toml.Basic

/-!
# Documents under construction

A TOML document names its tables in any order, and which later line may add to a table depends on
the line that made it. `Node` keeps that origin while a document is read:

* a table opened by a header cannot be opened or extended again;
* a table that only lies on the way to another header may still get a header of its own, or pairs
  from dotted keys, which then count as what made it;
* a table made by a dotted key may be extended by dotted keys, but gets no header;
* values, inline tables among them, are closed.

`Node.insert` adds a pair, `Node.openTable` a section, and `Node.toToml` forgets the origins.
-/

namespace StaticChain.Toml

/-- A dotted key: the tables to go through, and the name in the last of them. -/
structure Key where
  parents : List String
  name : String
deriving DecidableEq, Inhabited, Repr

/-- What made a table. -/
inductive Origin where
  | header
  /-- It lies on the way to a header. -/
  | implied
  | dotted
deriving DecidableEq, Inhabited, Repr

/-- A part of a document that is still being read. -/
inductive Node where
  | value (content : Toml)
  | table (origin : Origin) (entries : List (String × Node))
  /-- An array of tables, each opened by a header of its own. Only the last can get more entries. -/
  | tables (before : List Node) (last : Node)
deriving Inhabited

namespace Node

/-- A table that a header opens. -/
def fresh : Node := .table .header []

def find? (name : String) (entries : List (String × Node)) : Option Node :=
  (entries.find? fun e => e.1 == name).map Prod.snd

/-- The entries with another node under a name. -/
def put (name : String) (node : Node) : List (String × Node) → List (String × Node)
  | [] => [(name, node)]
  | e :: entries => if e.1 == name then (name, node) :: entries else e :: put name node entries

/-- Changes the table at the end of a path and makes the tables that are missing on the way. The
path is part of a dotted key, or of a header. -/
def update (dotted : Bool) (f : Node → Option Node) : List String → Node → Option Node
  | [], node => f node
  | name :: path, .table origin entries => do
    let child ← match find? name entries with
      | none => update dotted f path (.table (if dotted then .dotted else .implied) [])
      | some (.table made content) =>
        if dotted && made == .header then none else update dotted f path (.table made content)
      | some (.tables before last) => (update dotted f path last).map (.tables before)
      | some (.value _) => none
    some (.table origin (put name child entries))
  | _ :: _, _ => none

/-- Adds a pair. The key goes to the open table itself, or through dotted keys to a table that no
header opened and that dotted keys own from then on. It must be new there. -/
def insert (key : Key) (content : Toml) : Node → Option Node :=
  update true (fun
    | .table origin entries =>
      let outer := !key.parents.isEmpty
      if (outer && origin == .header) || (find? key.name entries).isSome then none
      else
        let owner := if outer then .dotted else origin
        some (.table owner (put key.name (.value content) entries))
    | _ => none) key.parents

/-- Opens the table that a header names, or the next element of an array of tables, and fills it. -/
def openTable (key : Key) (element : Bool) (fill : Node → Option Node) : Node → Option Node :=
  update false (fun
    | .table origin entries => do
      let child ← match element, find? key.name entries with
        | false, none => fill fresh
        | false, some (.table .implied content) => fill (.table .header content)
        | true, none => (fill fresh).map (.tables [])
        | true, some (.tables before last) => (fill fresh).map (.tables (before ++ [last]))
        | _, some _ => none
      some (.table origin (put key.name child entries))
    | _ => none) key.parents

mutual

/-- The value that is left once all lines are read. -/
def toToml : Node → Toml
  | .value content => content
  | .table _ entries => .table (entriesToml entries)
  | .tables before last => .array (nodesToml before ++ [last.toToml])

def nodesToml : List Node → List Toml
  | [] => []
  | node :: nodes => node.toToml :: nodesToml nodes

def entriesToml : List (String × Node) → List (String × Toml)
  | [] => []
  | (name, node) :: entries => (name, node.toToml) :: entriesToml entries

end

end Node

end StaticChain.Toml
