import DeployRecipe.Text.Split
import DeployRecipe.Url.Punycode

/-!
Hosts of addresses: domains and numbered hosts of both versions.
-/

namespace DeployRecipe.Url

/-- Why a text is no address. -/
inductive UrlError where
  | relative
  | emptyHost
  | invalidDomain
  | invalidHostCharacter
  | invalidPort
  | invalidIpv4
  | invalidIpv6
deriving DecidableEq, Repr

def UrlError.message : UrlError → String
  | .relative => "relative URL without a base"
  | .emptyHost => "empty host"
  | .invalidDomain => "invalid international domain name"
  | .invalidHostCharacter => "invalid domain character"
  | .invalidPort => "invalid port number"
  | .invalidIpv4 => "invalid IPv4 address"
  | .invalidIpv6 => "invalid IPv6 address"

namespace Host

def isHexDigit (character : Char) : Bool :=
  character.isDigit || ('a' ≤ character && character ≤ 'f') || ('A' ≤ character && character ≤ 'F')

/-- The value of a hexadecimal digit. -/
def digitValue (character : Char) : Nat :=
  if character.isDigit then character.toNat - '0'.toNat
  else if 'a' ≤ character then character.toNat - 'a'.toNat + 10
  else character.toNat - 'A'.toNat + 10

/-- The value of digits in a radix. -/
def valueOf (radix : Nat) (digits : List Char) : Nat :=
  digits.foldl (fun value digit => radix * value + digitValue digit) 0

/-! Numbered hosts with points between the numbers. -/

/-- The value of a number, which may be octal or hexadecimal. -/
def number? (text : List Char) : Option Nat :=
  match text with
  | [] => none
  | ['0'] => some 0
  | '0' :: 'x' :: digits | '0' :: 'X' :: digits =>
    if digits.all isHexDigit then some (valueOf 16 digits) else none
  | '0' :: digits =>
    if digits.all fun digit => digit.isDigit && digit ≤ '7' then some (valueOf 8 digits) else none
  | digits => if digits.all Char.isDigit then some (valueOf 10 digits) else none

/-- The parts between the points; a point at the end does not count. -/
def parts (domain : List Char) : List (List Char) :=
  let all := Text.split '.' domain
  if 1 < all.length ∧ all.getLast? = some [] then all.dropLast else all

/-- The last part is a number, so that the whole has to be a numbered host. -/
def endsInNumber (domain : List Char) : Bool :=
  match (parts domain).getLast? with
  | none | some [] => false
  | some last => last.all Char.isDigit || (number? last).isSome

/-- Up to four numbers: all but the last one stand for a byte, the last one for the other bytes. -/
def isIpv4 (domain : List Char) : Bool :=
  match (parts domain).mapM number? with
  | none => false
  | some numbers =>
    match numbers.reverse with
    | [] => false
    | last :: bytes =>
      decide (numbers.length ≤ 4) && bytes.all (· < 256) && decide (last < Nat.pow 256 (4 - bytes.length))

/-! Numbered hosts with colons between the groups. -/

/-- A byte in decimal without needless zeros. -/
def isDecimalByte (text : List Char) : Bool :=
  !text.isEmpty && text.all Char.isDigit && (text.length = 1 || text.head? ≠ some '0') &&
    decide (valueOf 10 text < 256)

/-- How many groups of 16 bits a piece stands for: only the last piece may have four bytes. -/
def groupCount? (isLast : Bool) (piece : List Char) : Option Nat :=
  if !piece.isEmpty && decide (piece.length ≤ 4) && piece.all isHexDigit then some 1
  else
    let bytes := Text.split '.' piece
    if isLast && bytes.length = 4 && bytes.all isDecimalByte then some 2 else none

/-- How many groups pieces stand for. -/
def groupsCount? (lastMayBeBytes : Bool) : List (List Char) → Option Nat
  | [] => some 0
  | piece :: rest => do
    let count ← groupCount? (lastMayBeBytes && rest.isEmpty) piece
    let others ← groupsCount? lastMayBeBytes rest
    some (count + others)

/-- Splits at the first two colons in a row. -/
def splitDoubleColon? : List Char → Option (List Char × List Char)
  | ':' :: ':' :: rest => some ([], rest)
  | character :: rest =>
    (splitDoubleColon? rest).map fun (before, after) => (character :: before, after)
  | [] => none

/-- The pieces between the colons; an empty text has none. -/
def pieces (text : List Char) : List (List Char) :=
  if text.isEmpty then [] else Text.split ':' text

/-- Eight groups, or fewer if two colons in a row stand for the missing ones. -/
def isIpv6 (text : List Char) : Bool :=
  match splitDoubleColon? text with
  | none => groupsCount? true (pieces text) = some 8
  | some (before, after) =>
    match groupsCount? false (pieces before), groupsCount? true (pieces after) with
    | some left, some right => decide (left + right ≤ 7)
    | _, _ => false

/-- Checks a host between square brackets, given from the first bracket on. -/
def checkBracketed (host : List Char) : Except UrlError Unit :=
  if host.getLast? = some ']' ∧ isIpv6 (host.drop 1).dropLast then .ok () else .error .invalidIpv6

/-! Domains. -/

/-- The bytes of a text in which a percent sign and two digits stand for a byte. -/
def decodePercent : List Char → List UInt8
  | [] => []
  | '%' :: high :: low :: rest =>
    if isHexDigit high && isHexDigit low then
      (valueOf 16 [high, low]).toUInt8 :: decodePercent rest
    else 0x25 :: decodePercent (high :: low :: rest)
  | character :: rest => character.toString.toUTF8.toList ++ decodePercent rest

/-- A character that does not count in a domain. -/
def isIgnored (character : Char) : Bool :=
  let code := character.toNat
  code = 0xAD || code = 0x200B || code = 0x2060 || code = 0xFEFF || (0xFE00 ≤ code && code ≤ 0xFE0F)

/-- The character that stands for a character in a domain: small letters for capital ones, the plain form
for a wide one. -/
def folded (character : Char) : Char :=
  let code := character.toNat
  if code = 0x3002 || code = 0xFF61 then '.'
  else if code = 0xA0 || code = 0x3000 then ' '
  else if 0xFF01 ≤ code && code ≤ 0xFF5E then (Char.ofNat (code - 0xFEE0)).toLower
  else character.toLower

/-- A character that no domain may have. -/
def isForbidden (character : Char) : Bool :=
  let code := character.toNat
  code ≤ 0x20 || (0x7F ≤ code && code ≤ 0x9F) || (0x2000 ≤ code && code ≤ 0x200A) ||
    code = 0x200C || code = 0x200D || (0x2028 ≤ code && code ≤ 0x202E) || (0xE000 ≤ code && code ≤ 0xF8FF) ||
    (0xFFF0 ≤ code && code ≤ 0xFFFF) || 0xE0000 ≤ code ||
    ['%', '#', '/', ':', '<', '>', '?', '@', '[', '\\', ']', '^', '|'].contains character

/-- The label is no ASCII form, or it is the ASCII form of characters that need one. -/
def isSoundLabel : List Char → Bool
  | 'x' :: 'n' :: '-' :: '-' :: label =>
    match Punycode.decode? label with
    | some decoded =>
      label.all (·.toNat < 128) && decoded.any (128 ≤ ·.toNat) &&
        decoded.all fun character =>
          !isForbidden character && !isIgnored character && folded character = character
    | none => false
  | _ => true

/-- Checks a domain or a numbered host. -/
def check (host : List Char) : Except UrlError Unit :=
  if host.head? = some '[' then checkBracketed host
  else
    match String.fromUTF8? ⟨(decodePercent host).toArray⟩ with
    | none => .error .invalidDomain
    | some decoded =>
      let domain := (decoded.toList.filter fun character => !isIgnored character).map folded
      if domain.any isForbidden || !(Text.split '.' domain).all isSoundLabel then .error .invalidDomain
      else if domain.isEmpty then .error .emptyHost
      else if endsInNumber domain && !isIpv4 domain then .error .invalidIpv4
      else .ok ()

/-- Checks a host that is not interpreted. -/
def checkOpaque (host : List Char) : Except UrlError Unit :=
  if host.head? = some '[' then checkBracketed host
  else if host.any fun character =>
      ['\x00', '\t', '\n', '\r', ' ', '#', '/', ':', '<', '>', '?', '@', '[', '\\', ']', '^', '|'].contains
        character then
    .error .invalidHostCharacter
  else .ok ()

end Host

end DeployRecipe.Url
