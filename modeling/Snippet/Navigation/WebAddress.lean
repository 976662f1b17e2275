import Snippet.Navigation.Host

/-!
# Web addresses

An address with the scheme `http` or `https`: who asks, the host, the port, the path, a query and a
fragment. Reading an address brings it into its normal form: scheme and host in small letters, no
port that goes without saying, no `.` and `..` in the path, and no character that must be escaped.
-/

namespace Snippet

/-- A web address in its normal form. -/
structure WebAddress where
  /-- Whether the scheme is `https`. -/
  secure : Bool
  user : Text
  password : Text
  host : Host
  /-- The port, unless it is that of the scheme. -/
  port : Option Nat
  /-- The segments of the path. -/
  path : List Text
  query : Option Text
  fragment : Option Text
  deriving DecidableEq, Repr

namespace WebAddress

/-- A slash or a backslash. -/
def isSlash (c : Char) : Bool := c == '/' || c == '\\'

/-- Whether the part of an address with user, host and port ends at a character. -/
def endsAuthority (c : Char) : Bool := isSlash c || c == '?' || c == '#'

/-- The characters that stand for themselves in a user name or password. -/
def keepsInUser (c : Char) : Bool := Percent.isVisibleBut "\"<>`#?\x7b\x7d/:;=@[\\]^|" c

/-- The characters that stand for themselves in a path. -/
def keepsInPath (c : Char) : Bool := Percent.isVisibleBut "\"<>`#?\x7b\x7d" c

/-- The characters that stand for themselves in a query. -/
def keepsInQuery (c : Char) : Bool := Percent.isVisibleBut "\"#<>'" c

/-- The characters that stand for themselves in a fragment. -/
def keepsInFragment (c : Char) : Bool := Percent.isVisibleBut "\"<>`" c

/-- Splits user and password, each escaped, off the rest of an authority: they end at its last at
sign. -/
def splitUser (authority : Text) : (Text × Text) × Text :=
  if authority.contains '@' then
    let info := (Text.dropWhileEnd (· != '@') authority).dropLast
    let rest := Text.takeWhileEnd (· != '@') authority
    let user := info.takeWhile (· != ':')
    let password := (info.dropWhile (· != ':')).tail
    ((Percent.encode keepsInUser user, Percent.encode keepsInUser password), rest)
  else (([], []), authority)

/-- Splits a host from the port after it, at the first colon outside brackets. -/
def splitHost : (inBrackets : Bool) → Text → Text × Option Text
  | _, [] => ([], none)
  | inBrackets, c :: t =>
    if c == ':' && !inBrackets then ([], some t)
    else
      let inBrackets := if c == '[' then true else if c == ']' then false else inBrackets
      let (host, port) := splitHost inBrackets t
      (c :: host, port)

/-- The port that a scheme has without saying. -/
def defaultPort (secure : Bool) : Nat := if secure then 443 else 80

/-- The port that digits write, if it is another than that of the scheme. No digits write none. -/
def port? (secure : Bool) (digits : Text) : Option (Option Nat) :=
  if !digits.all Char.isDigit then none
  else if digits.isEmpty then some none
  else
    let n := Decimal.natOf digits
    if 65536 ≤ n then none else some (if n = defaultPort secure then none else some n)

/-- Whether a segment of a path is a single dot, perhaps escaped. -/
def isDot (segment : Text) : Bool := [".", "%2e"].contains (String.ofList (Text.lower segment))

/-- Whether a segment of a path is two dots, perhaps escaped. -/
def isDoubleDot (segment : Text) : Bool :=
  ["..", "%2e%2e", "%2e.", ".%2e"].contains (String.ofList (Text.lower segment))

/-- Whether a segment of a path is the letter of a drive. -/
def isDrive : Text → Bool
  | [c, mark] => c.isAlpha && (mark == ':' || mark == '|')
  | _ => false

/-- Drops the last segment, unless it is the letter of a drive. -/
def climb (segments : List Text) : List Text :=
  if segments.getLast?.any isDrive then segments else segments.dropLast

/-- Follows the segments of a path from the segments before them. Dots at the end leave an empty
segment, so that the path ends with a slash. -/
def follow : (before : List Text) → List Text → List Text
  | before, [] => before
  | before, segment :: rest =>
    let stay := fun (segments : List Text) =>
      if rest.isEmpty then segments ++ [[]] else segments
    if isDoubleDot segment then follow (stay (climb before)) rest
    else if isDot segment then follow (stay before) rest
    else follow (before ++ [segment]) rest

/-- The segments of a written path. -/
def pathOf (t : Text) : List Text :=
  let body := match t with
    | c :: rest => if isSlash c then rest else t
    | [] => t
  follow [] ((Text.splitWhere isSlash body).map (Percent.encode keepsInPath))

/-- The part of a text after the first `mark`, if there is one. -/
def after? (mark : Char) (t : Text) : Option Text :=
  match t.dropWhile (· != mark) with
  | [] => none
  | _ :: rest => some rest

/-- Splits off the scheme with its colon: whether it is `https`, and the rest. -/
def splitScheme? (t : Text) : Option (Bool × Text) :=
  let scheme := Text.lower (t.takeWhile (· != ':'))
  match t.dropWhile (· != ':') with
  | [] => none
  | _ :: rest =>
    if scheme = "http".toList then some (false, rest)
    else if scheme = "https".toList then some (true, rest)
    else none

/-- A control character of ASCII or a blank. -/
def isControlOrBlank (c : Char) : Bool := c.toNat ≤ 0x20

/-- The address that a text writes. -/
def ofText? (t : Text) : Option WebAddress := do
  let trimmed := Text.dropWhileEnd isControlOrBlank (t.dropWhile isControlOrBlank)
  let (secure, rest) ← splitScheme? trimmed
  let rest := rest.dropWhile isSlash
  let ((user, password), place) := splitUser (rest.takeWhile fun c => !endsAuthority c)
  let (hostText, portText) := splitHost false place
  let host ← Host.ofText? hostText
  let port ← port? secure (portText.getD [])
  let tail := rest.dropWhile fun c => !endsAuthority c
  let beforeFragment := tail.takeWhile (· != '#')
  return {
    secure, user, password, host, port
    path := pathOf (beforeFragment.takeWhile (· != '?'))
    query := (after? '?' beforeFragment).map (Percent.encode keepsInQuery)
    fragment := (after? '#' tail).map (Percent.encode keepsInFragment) }

/-- An optional part with a mark before it. -/
def marked (mark : Char) : Option Text → Text
  | none => []
  | some t => mark :: t

/-- The text of an address. -/
def toText (a : WebAddress) : Text :=
  let scheme := if a.secure then "https" else "http"
  let password := if a.password.isEmpty then [] else ':' :: a.password
  let user := if a.user.isEmpty && a.password.isEmpty then [] else a.user ++ password ++ ['@']
  scheme.toList ++ "://".toList ++ user ++ a.host.toText ++
    marked ':' (a.port.map Decimal.digitsOf) ++ '/' :: Text.join ['/'] a.path ++
    marked '?' a.query ++ marked '#' a.fragment

end WebAddress

end Snippet
