import Snippet.Text.HexDigit

/-!
# Strings of TOML

Strings are quoted once or three times, with double quotes, where a backslash starts an escape, or
with single quotes, where it does not. Strings that are quoted three times may have several lines;
a line break directly after the opening quotes is dropped, and a line break is a single line feed.
-/

namespace Snippet.Toml

/-- A blank or a tab. -/
def isInlineWhite (c : Char) : Bool := c == ' ' || c == '\t'

/-- A character that may stand in a comment or a string: none of the control characters of ASCII but
the tab. -/
def isTextChar (c : Char) : Bool := c == '\t' || (0x20 ≤ c.toNat && c.toNat != 0x7f)

/-- The text after a line break, if the text starts with one. -/
def dropNewline? : Text → Option Text
  | '\n' :: t => some t
  | '\r' :: '\n' :: t => some t
  | _ => none

/-- The text without a line break at its start. -/
def skipNewline (t : Text) : Text := (dropNewline? t).getD t

/-- Whether only white space stands before the next line break. -/
def restOfLineIsBlank (t : Text) : Bool := (dropNewline? (t.dropWhile isInlineWhite)).isSome

/-- The character with a number in hexadecimal digits, if there is one. -/
def charOfHex? (digits : Text) : Option Char := do
  let n ← Text.natOfBase? 16 digits
  if h : n.isValidChar then some (Char.ofNatAux n h) else none

/-- The character of an escape with a single letter. -/
def escapedChar? : Char → Option Char
  | 'b' => some '\x08'
  | 't' => some '\t'
  | 'n' => some '\n'
  | 'f' => some '\x0c'
  | 'r' => some '\r'
  | '"' => some '"'
  | '\\' => some '\\'
  | _ => none

/-- Puts a character in front of a string that was read. -/
def consTo (c : Char) (r : Option (Text × Text)) : Option (Text × Text) :=
  r.map fun (s, rest) => (c :: s, rest)

/-- Reads a string in double quotes after the first of them: its characters, and what follows it. -/
def readBasic? : Text → Option (Text × Text)
  | [] => none
  | '"' :: t => some ([], t)
  | '\\' :: 'u' :: a :: b :: c :: d :: t =>
    (charOfHex? [a, b, c, d]).bind fun x => consTo x (readBasic? t)
  | '\\' :: 'U' :: a :: b :: c :: d :: e :: f :: g :: h :: t =>
    (charOfHex? [a, b, c, d, e, f, g, h]).bind fun x => consTo x (readBasic? t)
  | '\\' :: c :: t => (escapedChar? c).bind fun x => consTo x (readBasic? t)
  | c :: t => if isTextChar c && c != '\\' then consTo c (readBasic? t) else none

/-- Reads a string in single quotes after the first of them: its characters, and what follows
it. -/
def readLiteral? (t : Text) : Option (Text × Text) :=
  let s := t.takeWhile (· != '\'')
  match t.dropWhile (· != '\'') with
  | _ :: rest => if s.all isTextChar then some (s, rest) else none
  | [] => none

/-- Reads a string in three double quotes after these and a line break. Up to two quotes may stand
before the closing ones. After a backslash at the end of a line, white space and line breaks are
passed over, which is when `skipping` is set. -/
def readLongBasic? (skipping : Bool) : Text → Option (Text × Text)
  | [] => none
  | '"' :: '"' :: '"' :: '"' :: '"' :: t => some (['"', '"'], t)
  | '"' :: '"' :: '"' :: '"' :: t => some (['"'], t)
  | '"' :: '"' :: '"' :: t => some ([], t)
  | '\\' :: 'u' :: a :: b :: c :: d :: t =>
    (charOfHex? [a, b, c, d]).bind fun x => consTo x (readLongBasic? false t)
  | '\\' :: 'U' :: a :: b :: c :: d :: e :: f :: g :: h :: t =>
    (charOfHex? [a, b, c, d, e, f, g, h]).bind fun x => consTo x (readLongBasic? false t)
  | '\\' :: c :: t =>
    if restOfLineIsBlank (c :: t) then readLongBasic? true (c :: t)
    else (escapedChar? c).bind fun x => consTo x (readLongBasic? false t)
  | '\r' :: '\n' :: t =>
    if skipping then readLongBasic? true t else consTo '\n' (readLongBasic? false t)
  | c :: t =>
    if skipping && (isInlineWhite c || c == '\n') then readLongBasic? true t
    else if c == '\n' || (isTextChar c && c != '\\') then consTo c (readLongBasic? false t)
    else none

/-- Reads a string in three single quotes after these and a line break. Up to two quotes may stand
before the closing ones. -/
def readLongLiteral? : Text → Option (Text × Text)
  | [] => none
  | '\'' :: '\'' :: '\'' :: '\'' :: '\'' :: t => some (['\'', '\''], t)
  | '\'' :: '\'' :: '\'' :: '\'' :: t => some (['\''], t)
  | '\'' :: '\'' :: '\'' :: t => some ([], t)
  | '\r' :: '\n' :: t => consTo '\n' (readLongLiteral? t)
  | c :: t => if c == '\n' || isTextChar c then consTo c (readLongLiteral? t) else none

/-- Reads a string on one line. -/
def readLineString? : Text → Option (Text × Text)
  | '"' :: t => readBasic? t
  | '\'' :: t => readLiteral? t
  | _ => none

/-- Reads a string. -/
def readString? : Text → Option (Text × Text)
  | '"' :: '"' :: '"' :: t => readLongBasic? false (skipNewline t)
  | '\'' :: '\'' :: '\'' :: t => readLongLiteral? (skipNewline t)
  | t => readLineString? t

end Snippet.Toml
