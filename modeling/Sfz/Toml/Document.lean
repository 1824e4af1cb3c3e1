/-! TOML documents.

A document is a sequence of lines that open tables or give values to keys. It is read into the
list of everything that has a name, each with its place; giving a name twice is an error, and so
is opening a table where something else stands.
-/

set_option autoImplicit false

namespace Sfz.Toml

/-- Values; floats, dates and times are kept as they are written. -/
inductive Value where
  | string (text : String)
  | integer (number : Int64)
  | float (text : String)
  | boolean (value : Bool)
  | moment (text : String)
  | array (items : List Value)
  | table (pairs : List (List String × Value))

inductive Statement where
  | table (key : List String)
  | tableItem (key : List String)
  | assign (key : List String) (value : Value)

inductive Step where
  | key (name : String)
  | item (index : Nat)
  deriving DecidableEq, Repr

abbrev Path := List Step

/-- What can stand at a place. A table is opened by a line of its own, implied by the line of an
inner table, or made by the key of an assignment; those of an array of tables are counted. -/
inductive Node where
  | value (value : Value)
  | table
  | implicit
  | dotted
  | tables (count : Nat)

/-- The named places of a document, and the table that assignments go to. -/
structure Document where
  nodes : List (Path × Node) := []
  current : Path := []

namespace Document

def node? (document : Document) (path : Path) : Option Node :=
  document.nodes.lookup path

def put (document : Document) (path : Path) (node : Node) : Document :=
  { document with nodes := (path, node) :: document.nodes }

/-- Follow a key down from a table. Tables on the way that do not exist come into being. -/
def descend (document : Document) (path : Path) (dotted : Bool) :
    List String → Option (Document × Path)
  | [] => some (document, path)
  | name :: rest =>
    let next := path ++ [.key name]
    match document.node? next with
    | none =>
      descend (document.put next (if dotted then .dotted else .implicit)) next dotted rest
    | some (.tables count) => descend document (next ++ [.item (count - 1)]) dotted rest
    | some .table => if dotted then none else descend document next dotted rest
    | some .implicit | some .dotted => descend document next dotted rest
    | some (.value _) => none

/-- Whether a table may take the values of a key: one with several parts may only name tables
that such keys made. -/
def takes (document : Document) (path : Path) (isDotted : Bool) : Bool :=
  match document.node? path with
  | some .dotted => isDotted
  | _ => !isDotted

def apply (document : Document) : Statement → Option Document
  | .table key => do
    let (document, parent) ← document.descend [] false key.dropLast
    let path := parent ++ (key.getLast?.map Step.key).toList
    match document.node? path with
    | none | some .implicit => some { document.put path .table with current := path }
    | _ => none
  | .tableItem key => do
    let (document, parent) ← document.descend [] false key.dropLast
    let path := parent ++ (key.getLast?.map Step.key).toList
    let count ← match document.node? path with
      | none => some 0
      | some (.tables count) => some count
      | _ => none
    some { document.put path (.tables (count + 1)) with current := path ++ [.item count] }
  | .assign key value => do
    let (document, parent) ← document.descend document.current true key.dropLast
    let path := parent ++ (key.getLast?.map Step.key).toList
    if document.takes parent (key.length ≠ 1) ∧ (document.node? path).isNone then
      some (document.put path (.value value))
    else
      none

def ofPairs? (pairs : List (List String × Value)) : Option Document :=
  pairs.foldlM (fun document pair => document.apply (.assign pair.1 pair.2)) {}

def root? (document : Document) (name : String) : Option Node :=
  document.node? [.key name]

end Document

end Sfz.Toml
