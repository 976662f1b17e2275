import Snippet.Decimal.Numeral

/-!
# JSON texts

JSON values and their text over several lines, indented by two blanks for each level.
-/

namespace Snippet

/-- A JSON value, as far as it is needed. -/
inductive JsonValue where
  | null
  | boolean (b : Bool)
  | string (t : Text)
  | array (items : List JsonValue)
  | object (fields : List (Text × JsonValue))

namespace JsonValue

/-- A character inside a quoted text: quotes, backslashes and control characters are escaped. -/
def escape (c : Char) : Text :=
  if c == '"' then ['\\', '"']
  else if c == '\\' then ['\\', '\\']
  else if c == '\n' then ['\\', 'n']
  else if c == '\r' then ['\\', 'r']
  else if c == '\t' then ['\\', 't']
  else if c == '\x08' then ['\\', 'b']
  else if c == '\x0c' then ['\\', 'f']
  else if c.toNat < 0x20 then '\\' :: 'u' :: (Nat.toDigits 16 c.toNat).leftpad 4 '0'
  else [c]

/-- A quoted text. -/
def quote (t : Text) : Text := '"' :: t.flatMap escape ++ ['"']

/-- A new line at a level. -/
def newLine (level : Nat) : Text := '\n' :: List.replicate (2 * level) ' '

/-- Items between brackets at a level, each on a new line of the next level. -/
def enclose (opening closing : Char) (level : Nat) (items : List Text) : Text :=
  if items.isEmpty then [opening, closing]
  else
    opening :: Text.join [','] (items.map fun t => newLine (level + 1) ++ t) ++ newLine level ++
      [closing]

mutual

/-- The text of a value at a level. -/
def render (level : Nat) : JsonValue → Text
  | null => "null".toList
  | boolean b => if b then "true".toList else "false".toList
  | string t => quote t
  | array items => enclose '[' ']' level (renderItems (level + 1) items)
  | object fields => enclose '\x7b' '\x7d' level (renderFields (level + 1) fields)

/-- The texts of the items of an array. -/
def renderItems (level : Nat) : List JsonValue → List Text
  | [] => []
  | v :: vs => render level v :: renderItems level vs

/-- The texts of the fields of an object. -/
def renderFields (level : Nat) : List (Text × JsonValue) → List Text
  | [] => []
  | (key, v) :: fields =>
    (quote key ++ ": ".toList ++ render level v) :: renderFields level fields

end

/-- The value of a text that may be missing. -/
def ofOption (t : Option Text) : JsonValue :=
  match t with
  | some t => string t
  | none => null

/-- The text of a value. -/
def toText (v : JsonValue) : Text := render 0 v

end JsonValue

end Snippet
