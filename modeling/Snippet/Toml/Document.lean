import Snippet.Text.Basic

/-!
# TOML documents

The values of a TOML document, and how its statements build it up. A table can be written in pieces,
but each piece only once: a table that was written with a header or as an inline table is not opened
again by a dotted key, and one that was opened by dotted keys gets no header.
-/

namespace Snippet

/-- How a table came to be. -/
inductive TableKind where
  /-- By a header of its own, or as the document itself. -/
  | header
  /-- By the header of a table inside it. -/
  | implied
  /-- By a dotted key. -/
  | dotted
  /-- In braces. -/
  | inline
  deriving DecidableEq, Repr

/-- A value of a document. Of dates and times it matters only that they are there. -/
inductive Toml where
  | string (t : Text)
  | integer (n : Int)
  | float (x : Float)
  | boolean (b : Bool)
  | date
  | array (items : List Toml)
  /-- Tables that are written one by one with double headers. -/
  | tables (items : List Toml)
  | table (kind : TableKind) (entries : List (Text × Toml))

namespace Toml

/-- The value of a key in a table. -/
def entry? (key : Text) : Toml → Option Toml
  | table _ entries => entries.lookup key
  | _ => none

/-- The entries with another value for a key, which is put at the end if it is new. -/
def setEntry (key : Text) (v : Toml) : List (Text × Toml) → List (Text × Toml)
  | [] => [(key, v)]
  | e :: es => if e.1 = key then (key, v) :: es else e :: setEntry key v es

/-- Whether a table can be opened on the way to what a path names: for a dotted key it must not have
been closed, and an inline table is always closed. -/
def isOpen (byDottedKey : Bool) : TableKind → Bool
  | .header => !byDottedKey
  | .implied | .dotted => true
  | .inline => false

/-- Changes a table that is opened on the way; of tables with double headers the last one. -/
def openWith (byDottedKey : Bool) (change : Toml → Option Toml) : Toml → Option Toml
  | table kind entries => if isOpen byDottedKey kind then change (table kind entries) else none
  | tables items =>
    match items.reverse with
    | [] => none
    | last :: before => (change last).map fun v => tables (before.reverse ++ [v])
  | _ => none

/-- Changes what a path from a table names. Tables that are missing on the way are added. -/
def changeAt (byDottedKey : Bool) (change : Toml → Option Toml) : List Text → Toml → Option Toml
  | [], v => change v
  | key :: path, table kind entries =>
    let next := changeAt byDottedKey change path
    let changed := match entries.lookup key with
      | some v => openWith byDottedKey next v
      | none => next (table (if byDottedKey then .dotted else .implied) [])
    changed.map fun v => table kind (setEntry key v entries)
  | _ :: _, _ => none

/-- Adds a new key to a table; `viaPath` tells whether a dotted key led to the table. -/
def addKey (viaPath : Bool) (key : Text) (v : Toml) : Toml → Option Toml
  | table kind entries =>
    if (kind == .dotted) == viaPath && (entries.lookup key).isNone then
      some (table kind (entries ++ [(key, v)]))
    else none
  | _ => none

/-- Adds a value to a table under a dotted key. -/
def assign (path : List Text) (key : Text) (v : Toml) : Toml → Option Toml :=
  changeAt true (addKey (!path.isEmpty) key v) path

/-- Writes the header of a table inside another. -/
def addHeader (key : Text) : Toml → Option Toml
  | table kind entries =>
    match entries.lookup key with
    | none => some (table kind (entries ++ [(key, table .header [])]))
    | some (table .implied inner) => some (table kind (setEntry key (table .header inner) entries))
    | some _ => none
  | _ => none

/-- Writes the double header of a table inside another. -/
def addDoubleHeader (key : Text) : Toml → Option Toml
  | table kind entries =>
    match entries.lookup key with
    | none => some (table kind (entries ++ [(key, tables [table .header []])]))
    | some (tables items) =>
      some (table kind (setEntry key (tables (items ++ [table .header []])) entries))
    | some _ => none
  | _ => none

/-- A statement of a document. Headers and keys are a path and a last name. -/
inductive Statement where
  | header (path : List Text) (key : Text)
  | doubleHeader (path : List Text) (key : Text)
  | assign (path : List Text) (key : Text) (v : Toml)

/-- Carries out a statement on a document, where `current` is the path of the table that was opened
last. -/
def step? : (List Text × Toml) → Statement → Option (List Text × Toml)
  | (_, root), .header path key =>
    (changeAt false (addHeader key) path root).map fun v => (path ++ [key], v)
  | (_, root), .doubleHeader path key =>
    (changeAt false (addDoubleHeader key) path root).map fun v => (path ++ [key], v)
  | (current, root), .assign path key v =>
    (changeAt false (assign path key v) current root).map fun v => (current, v)

/-- The document that statements build up. -/
def ofStatements? (statements : List Statement) : Option Toml :=
  (statements.foldlM step? ([], table .header [])).map (·.2)

/-- An inline table with given entries. -/
def inlineTable? (entries : List (List Text × Text × Toml)) : Option Toml :=
  entries.foldlM (fun t e => assign e.1 e.2.1 e.2.2 t) (table .inline [])

end Toml

end Snippet
