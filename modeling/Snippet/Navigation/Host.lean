import Snippet.Decimal.Numeral
import Snippet.Navigation.Percent

/-!
# Hosts

The host of a web address is a domain name, or an address of the fourth or the sixth version of the
internet protocol. A host that ends in a number is an address of the fourth version, whose parts
may be decimal, octal or hexadecimal. Domain names beyond ASCII are not accepted.
-/

namespace Snippet

/-- A host. -/
inductive Host where
  | domain (name : Text)
  /-- An address of 32 bits. -/
  | ipv4 (address : Nat)
  /-- An address of eight groups of 16 bits. -/
  | ipv6 (groups : List Nat)
  deriving DecidableEq, Repr

namespace Host

/-! ## Addresses of the fourth version -/

/-- What a part of an address of the fourth version stands for. -/
inductive Part where
  | number (n : Nat)
  /-- A number that does not fit in 32 bits. -/
  | tooLarge
  deriving DecidableEq, Repr

/-- The base and the digits of a part: hexadecimal after `0x`, and octal after a further `0`. -/
def splitBase : Text → Nat × Text
  | '0' :: 'x' :: t => (16, t)
  | '0' :: 'X' :: t => (16, t)
  | '0' :: c :: t => (8, c :: t)
  | t => (10, t)

/-- The number that a part writes. -/
def part? (t : Text) : Option Part :=
  if t.isEmpty then none
  else
    let (base, digits) := splitBase t
    (Text.natOfBase? base digits).map fun n => if n < 2 ^ 32 then .number n else .tooLarge

/-- The parts of a domain name, without an empty one at the end. -/
def labels (name : Text) : List Text :=
  let parts := Text.splitWhere (· == '.') name
  if parts.getLast? = some [] then parts.dropLast else parts

/-- Whether a domain name ends in a number. -/
def endsInNumber (name : Text) : Bool :=
  match (labels name).getLast? with
  | none => false
  | some last => (!last.isEmpty && last.all Char.isDigit) || (part? last).isSome

/-- The address with given parts: each but the last is a byte, and the last fills what is left. -/
def ipv4OfParts? (parts : List Nat) : Option Nat :=
  let bytes := parts.dropLast
  match parts.getLast? with
  | none => none
  | some last =>
    if 3 < bytes.length || bytes.any (255 < ·) || 256 ^ (4 - bytes.length) ≤ last then none
    else some (bytes.foldl (fun n b => n * 256 + b) 0 * 256 ^ (4 - bytes.length) + last)

/-- The address of the fourth version that a domain name writes. -/
def ipv4? (name : Text) : Option Nat := do
  let parts ← (labels name).mapM fun label =>
    match part? label with
    | some (.number n) => some n
    | _ => none
  ipv4OfParts? parts

/-- The text of an address of the fourth version. -/
def ipv4Text (n : Nat) : Text :=
  Text.join ['.'] ([n / 2 ^ 24, n / 2 ^ 16 % 256, n / 2 ^ 8 % 256, n % 256].map Decimal.digitsOf)

/-! ## Addresses of the sixth version -/

/-- A byte in decimal digits without leading zeros. -/
def strictByte? (t : Text) : Option Nat :=
  if t.length ≠ 1 && t.head? = some '0' then none else Decimal.natBelow? 256 t

/-- The two groups of an address of the fourth version in four decimal bytes. -/
def dottedGroups? (t : Text) : Option (List Nat) := do
  let [a, b, c, d] ← (Text.splitWhere (· == '.') t).mapM strictByte? | none
  return [256 * a + b, 256 * c + d]

/-- A group of up to four hexadecimal digits. -/
def group? (t : Text) : Option Nat :=
  if 1 ≤ t.length && t.length ≤ 4 then Text.natOfBase? 16 t else none

/-- The groups between colons; the last may be an address of the fourth version, if `dotted`. -/
def groupsOf? (dotted : Bool) : List Text → Option (List Nat)
  | [] => some []
  | [t] => if dotted && t.contains '.' then dottedGroups? t else (group? t).map ([·])
  | t :: ts => do return (← group? t) :: (← groupsOf? dotted ts)

/-- The groups of a part of an address, which may be empty. -/
def groups? (dotted : Bool) (t : Text) : Option (List Nat) :=
  if t.isEmpty then some [] else groupsOf? dotted (Text.splitWhere (· == ':') t)

/-- The address of the sixth version that a text writes. Two colons stand for at least one group of
zeros. -/
def ipv6? (t : Text) : Option (List Nat) := do
  match Text.find? "::".toList t with
  | none =>
    let groups ← groups? true t
    if groups.length = 8 then some groups else none
  | some (left, right) =>
    let left ← groups? false left
    let right ← groups? true right
    let zeros := 8 - (left.length + right.length)
    if zeros = 0 then none else some (left ++ List.replicate zeros 0 ++ right)

/-- The number of zeros that a list starts with. -/
def leadingZeros (groups : List Nat) : Nat := (groups.takeWhile (· == 0)).length

/-- The place and length of the longest run of zeros; of several the first. -/
def longestZeros : (place : Nat) → List Nat → Nat × Nat
  | _, [] => (0, 0)
  | place, g :: gs =>
    let best := longestZeros (place + 1) gs
    let here := leadingZeros (g :: gs)
    if best.2 ≤ here && 0 < here then (place, here) else best

/-- Groups in hexadecimal digits with colons between them. -/
def groupsText (groups : List Nat) : Text := Text.join [':'] (groups.map (Nat.toDigits 16))

/-- The text of an address of the sixth version; its longest run of several zeros is left out. -/
def ipv6Text (groups : List Nat) : Text :=
  let (place, length) := longestZeros 0 groups
  let body :=
    if length < 2 then groupsText groups
    else groupsText (groups.take place) ++ "::".toList ++ groupsText (groups.drop (place + length))
  '[' :: body ++ [']']

/-! ## Hosts -/

/-- The characters that no domain name has. -/
def isForbidden (c : Char) : Bool := !Percent.isVisibleBut "%#/:<>?@[\\]^|" c

/-- The host that a text writes. -/
def ofText? (t : Text) : Option Host :=
  match t with
  | '[' :: rest =>
    if rest.getLast? = some ']' then (ipv6? rest.dropLast).map .ipv6 else none
  | _ =>
    let name := Text.lower (Percent.decode t)
    if name.isEmpty || name.any isForbidden then none
    else if endsInNumber name then (ipv4? name).map .ipv4
    else some (.domain name)

/-- The text of a host. -/
def toText : Host → Text
  | domain name => name
  | ipv4 n => ipv4Text n
  | ipv6 groups => ipv6Text groups

end Host

end Snippet
