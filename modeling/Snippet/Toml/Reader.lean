import Snippet.Toml.Quoted
import Snippet.Toml.Scalar

/-!
# Reading TOML

The statements of a document are read from its text, one on each line. Every function returns what
it has read with the text that follows. Keys have fewer than eighty parts, and arrays and inline
tables nest less than eighty deep.
-/

namespace Snippet.Toml

/-- What the depth of nesting stays below. -/
def nestingLimit : Nat := 80

/-- The text without blanks and tabs at its start. -/
def skipBlanks (t : Text) : Text := t.dropWhile isInlineWhite

/-- The text from the end of the line on, after a comment that starts here. -/
def skipComment? (t : Text) : Option Text :=
  match t with
  | '#' :: _ =>
    let rest := t.dropWhile isTextChar
    if rest.isEmpty || (dropNewline? rest).isSome then some rest else none
  | _ => some t

/-- The text after the end of a line, with an optional comment before it. -/
def endLine? (t : Text) : Option Text := do
  let rest ← skipComment? (skipBlanks t)
  if rest.isEmpty then some [] else dropNewline? rest

/-- The text without white space, comments and line breaks at its start, passing over at most `fuel`
of the latter. -/
def skipLines? : (fuel : Nat) → Text → Option Text
  | 0, t => some t
  | fuel + 1, t => do
    let rest ← skipComment? (skipBlanks t)
    match dropNewline? rest with
    | some later => skipLines? fuel later
    | none => some rest

/-- The characters of a key without quotes. -/
def isBareChar (c : Char) : Bool := c.isAlphanum || c == '_' || c == '-'

/-- Reads a part of a key. -/
def readSimpleKey? (t : Text) : Option (Text × Text) :=
  match t with
  | '"' :: _ | '\'' :: _ => readLineString? t
  | _ =>
    let key := t.takeWhile isBareChar
    if key.isEmpty then none else some (key, t.dropWhile isBareChar)

/-- Reads at most `fuel` parts of a dotted key. -/
def readKeyParts? : (fuel : Nat) → Text → Option (List Text × Text)
  | 0, _ => none
  | fuel + 1, t => do
    let (key, rest) ← readSimpleKey? (skipBlanks t)
    match skipBlanks rest with
    | '.' :: later =>
      let (keys, rest) ← readKeyParts? fuel later
      return (key :: keys, rest)
    | rest => return ([key], rest)

/-- Reads a dotted key, as its path and its last part. -/
def readKey? (t : Text) : Option ((List Text × Text) × Text) := do
  let (keys, rest) ← readKeyParts? (nestingLimit - 1) t
  return ((keys.dropLast, ← keys.getLast?), rest)

/-- The text after an expected character. -/
def expect? (c : Char) : Text → Option Text
  | x :: t => if x = c then some t else none
  | [] => none

mutual

/-- Reads a value. The fuel is spent on the length of the text, and `depth` counts the arrays and
inline tables around the value. -/
def readValue? : (fuel depth : Nat) → Text → Option (Toml × Text)
  | 0, _, _ => none
  | fuel + 1, depth, t =>
    match t with
    | '"' :: _ | '\'' :: _ => (readString? t).map fun (s, rest) => (.string s, rest)
    | '[' :: rest =>
      if nestingLimit ≤ depth + 1 then none
      else (readItems? fuel (depth + 1) rest).map fun (items, rest) => (.array items, rest)
    | '\x7b' :: rest => do
      if nestingLimit ≤ depth + 1 then none
      let (entries, rest) ← match skipBlanks rest with
        | '\x7d' :: rest => some ([], rest)
        | _ => readEntries? fuel (depth + 1) rest
      return (← inlineTable? entries, rest)
    | _ => readScalar? t

/-- Reads the items of an array up to its closing bracket. -/
def readItems? : (fuel depth : Nat) → Text → Option (List Toml × Text)
  | 0, _, _ => none
  | fuel + 1, depth, t => do
    match ← skipLines? t.length t with
    | ']' :: rest => return ([], rest)
    | t =>
      let (v, rest) ← readValue? fuel depth t
      match ← skipLines? rest.length rest with
      | ']' :: rest => return ([v], rest)
      | ',' :: rest =>
        let (items, rest) ← readItems? fuel depth rest
        return (v :: items, rest)
      | _ => none

/-- Reads the entries of an inline table up to its closing brace. -/
def readEntries? : (fuel depth : Nat) → Text → Option (List (List Text × Text × Toml) × Text)
  | 0, _, _ => none
  | fuel + 1, depth, t => do
    let ((path, key), rest) ← readKey? t
    let (v, rest) ← readValue? fuel depth (skipBlanks (← expect? '=' rest))
    match skipBlanks rest with
    | '\x7d' :: rest => return ([(path, key, v)], rest)
    | ',' :: rest =>
      let (entries, rest) ← readEntries? fuel depth rest
      return ((path, key, v) :: entries, rest)
    | _ => none

end

/-- Reads a statement and the end of its line. -/
def readStatement? : Text → Option (Statement × Text)
  | '[' :: '[' :: t => do
    let ((path, key), rest) ← readKey? t
    let rest ← expect? ']' (← expect? ']' rest)
    return (.doubleHeader path key, ← endLine? rest)
  | '[' :: t => do
    let ((path, key), rest) ← readKey? t
    return (.header path key, ← endLine? (← expect? ']' rest))
  | t => do
    let ((path, key), rest) ← readKey? t
    let (v, rest) ← readValue? (2 * t.length + 2) 0 (skipBlanks (← expect? '=' rest))
    return (.assign path key v, ← endLine? rest)

/-- Reads at most `fuel` statements, up to the end of the text. -/
def readStatements? : (fuel : Nat) → Text → Option (List Statement)
  | 0, _ => none
  | fuel + 1, t => do
    match ← skipLines? t.length t with
    | [] => return []
    | t =>
      let (s, rest) ← readStatement? t
      return s :: (← readStatements? fuel rest)

/-- The text without a byte order mark at its start. -/
def dropMark : Text → Text
  | '\ufeff' :: t => t
  | t => t

/-- The document that a text writes. -/
def ofText? (t : Text) : Option Toml := do
  let body := dropMark t
  ofStatements? (← readStatements? (body.length + 1) body)

end Snippet.Toml
