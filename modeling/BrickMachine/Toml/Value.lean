/-!
# TOML documents

A document is a table of named values. Three rules decide which definitions a document may
contain, and `pair`, `header` and `element` are these rules:

* no name is defined twice;
* a table that a header opened, or that was written in braces, is complete: a dotted key may add
  to a table only if a dotted key or a longer header brought it into being, and may end only in
  a table that dotted keys made;
* a header may open a table that so far only longer headers have named, and may add an element
  to an array of tables.

A refused definition gives none.
-/

namespace BrickMachine

namespace Toml

inductive Origin where
  /-- Written in braces. -/
  | braces
  /-- Opened by a header. -/
  | header
  /-- Named on the way to another table. -/
  | implied
  /-- Named by a dotted key. -/
  | dotted
  deriving DecidableEq, Repr

inductive Value where
  | string (s : String)
  | integer (n : Int)
  | float (x : Float)
  | boolean (b : Bool)
  /-- A date, a time or both. -/
  | dateTime
  | array (items : List Value)
  | table (origin : Origin) (entries : List (String × Value))
  /-- An array of tables, built by headers. -/
  | tables (elements : List (List (String × Value)))

abbrev Entries := List (String × Value)

namespace Entries

def get? (es : Entries) (key : String) : Option Value := es.lookup key

/-- The entries with the value of one name replaced by what `f` makes of it. A name that is not
defined yet comes last. -/
def alter (f : Option Value → Option Value) (key : String) : Entries → Option Entries
  | [] => (f none).map fun v => [(key, v)]
  | (k, v) :: es =>
    if k = key then (f (some v)).map fun v => (k, v) :: es
    else (alter f key es).map ((k, v) :: ·)

def define (key : String) (v : Value) : Entries → Option Entries :=
  alter (fun | none => some v | some _ => none) key

def alterLast (f : Entries → Option Entries) : List Entries → Option (List Entries)
  | [] => none
  | [t] => (f t).map ([·])
  | t :: ts => (alterLast f ts).map (t :: ·)

/-- Defines a value under a dotted key, given as the names before the last and the last one.
`here` says whether the key may end in this table. -/
def pair (here : Bool) (key : String) (v : Value) : List String → Entries → Option Entries
  | [], es => if here then define key v es else none
  | name :: path, es =>
    alter (fun
      | none => (pair true key v path []).map (.table .dotted)
      | some (.table .dotted inner) => (pair true key v path inner).map (.table .dotted)
      | some (.table .implied inner) => (pair false key v path inner).map (.table .implied)
      | some (.tables ts) => (alterLast (pair false key v path) ts).map .tables
      | some _ => none) name es

/-- Changes the table at a path. Tables on the way are made if they do not exist, and of an array
of tables the last one is meant. -/
def within (f : Entries → Option Entries) : List String → Entries → Option Entries
  | [], es => f es
  | name :: path, es =>
    alter (fun
      | none => (within f path []).map (.table .implied)
      | some (.table .braces _) => none
      | some (.table origin inner) => (within f path inner).map (.table origin)
      | some (.tables ts) => (alterLast (within f path) ts).map .tables
      | some _ => none) name es

def header (path : List String) (name : String) : Entries → Option Entries :=
  within (alter (fun
    | none => some (.table .header [])
    | some (.table .implied inner) => some (.table .header inner)
    | some _ => none) name) path

/-- Adds an element to the array of tables that a header names. -/
def element (path : List String) (name : String) : Entries → Option Entries :=
  within (alter (fun
    | none => some (.tables [[]])
    | some (.tables ts) => some (.tables (ts ++ [[]]))
    | some _ => none) name) path

end Entries

/-- A dotted key: the names before the last, and the last one. -/
structure Key where
  path : List String
  name : String
  deriving DecidableEq, Repr

def Key.names (k : Key) : List String := k.path ++ [k.name]

inductive Statement where
  | pair (key : Key) (v : Value)
  | header (key : Key)
  | element (key : Key)

namespace Entries

def ofPairs : List (Key × Value) → Entries → Option Entries
  | [], es => some es
  | (k, v) :: rest, es => do
    let es ← pair true k.name v k.path es
    ofPairs rest es

/-- The entries that lines define, where `place` is the table that the latest header opened. -/
def ofStatements (place : List String) : List Statement → Entries → Option Entries
  | [], es => some es
  | .pair k v :: rest, es => do
    let es ← within (pair true k.name v k.path) place es
    ofStatements place rest es
  | .header k :: rest, es => do
    let es ← header k.path k.name es
    ofStatements k.names rest es
  | .element k :: rest, es => do
    let es ← element k.path k.name es
    ofStatements k.names rest es

end Entries

end Toml

end BrickMachine
