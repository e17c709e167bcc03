import DeployRecipe.Url.Host

/-!
Absolute addresses: a scheme, and for some schemes a host that has to be there.
-/

namespace DeployRecipe.Url

/-- The kinds of schemes, by what follows their colon. -/
inductive SchemeKind where
  | file
  /-- A host follows, whatever the number of slashes. -/
  | hosted
  /-- A host follows after two slashes. -/
  | other
deriving DecidableEq, Repr

def SchemeKind.ofName (name : String) : SchemeKind :=
  if name = "file" then .file
  else if ["http", "https", "ws", "wss", "ftp"].contains name then .hosted
  else .other

/-- The text without control characters and blanks around it, and without tabs and breaks. -/
def stripped (text : List Char) : List Char :=
  let outer (character : Char) : Bool := decide (character.toNat ≤ 0x20)
  let trimmed := ((text.dropWhile outer).reverse.dropWhile outer).reverse
  trimmed.filter fun character => !(character = '\t' || character = '\n' || character = '\r')

def isSchemeCharacter (character : Char) : Bool :=
  character.isAlphanum || character = '+' || character = '-' || character = '.'

/-- The scheme in small letters, and the text after its colon. -/
def scheme? (text : List Char) : Option (String × List Char) :=
  let name := text.takeWhile isSchemeCharacter
  match text.drop name.length with
  | ':' :: rest =>
    if name.head?.any Char.isAlpha then some (String.ofList (name.map Char.toLower), rest) else none
  | _ => none

def isSlash (character : Char) : Bool :=
  character = '/' || character = '\\'

/-- A character with which the authority ends. -/
def endsAuthority (kind : SchemeKind) (character : Char) : Bool :=
  character = '/' || character = '?' || character = '#' || (character = '\\' && kind ≠ .other)

/-- The user and password before the last at sign, if there is one, and the text after it. -/
def userInfo (kind : SchemeKind) (text : List Char) : Option (List Char) × List Char :=
  let authority := text.takeWhile fun character => !endsAuthority kind character
  if authority.contains '@' then
    let host := (authority.reverse.takeWhile (· ≠ '@')).reverse
    let user := authority.take (authority.length - host.length - 1)
    (some user, text.drop (user.length + 1))
  else (none, text)

/-- The host up to the colon of the port; a colon between brackets belongs to the host. -/
def hostText (kind : SchemeKind) (inBrackets : Bool) : List Char → List Char
  | [] => []
  | character :: rest =>
    if endsAuthority kind character || (character = ':' && !inBrackets) then []
    else
      let inBrackets :=
        if character = '[' then true else if character = ']' then false else inBrackets
      character :: hostText kind inBrackets rest

/-- Checks a port, given from its first digit on. It may be left out. -/
def checkPort (text : List Char) : Except UrlError Unit :=
  let digits := text.takeWhile Char.isDigit
  let closed :=
    (text.drop digits.length).head?.all fun character =>
      character = '/' || character = '\\' || character = '?' || character = '#'
  if Host.valueOf 10 digits < Nat.pow 2 16 && closed then .ok () else .error .invalidPort

/-- Something is written before the at sign other than a lone colon. -/
def hasUser (user : List Char) : Bool :=
  !(user.isEmpty || user = [':'])

/-- Checks what follows the two slashes of an address. -/
def checkAuthority (kind : SchemeKind) (text : List Char) : Except UrlError Unit := do
  let (user, rest) := userInfo kind text
  if user = some [] && rest.head?.any (endsAuthority kind) then throw .emptyHost
  let host := hostText kind false rest
  let after := rest.drop host.length
  if kind = .hosted then
    if host.isEmpty then throw .emptyHost
    Host.check host
  else Host.checkOpaque host
  if host.isEmpty && after.head? = some ':' then throw .emptyHost
  if after.head? = some ':' then checkPort after.tail
  if host.isEmpty && user.any hasUser then throw .emptyHost

/-- The letter of a drive stands where a host would. -/
def isDrive (host : List Char) : Bool :=
  match host with
  | [letter, mark] => letter.isAlpha && (mark = ':' || mark = '|')
  | _ => false

/-- Checks what follows the colon of a file's address. -/
def checkFile (text : List Char) : Except UrlError Unit :=
  match text with
  | first :: second :: rest =>
    if isSlash first && isSlash second then
      let host := rest.takeWhile fun character => !endsAuthority .file character
      if host.isEmpty || isDrive host then .ok () else Host.check host
    else .ok ()
  | _ => .ok ()

/-- Checks that a text is an address. -/
def check (text : String) : Except UrlError Unit :=
  match scheme? (stripped text.toList) with
  | none => .error .relative
  | some (name, rest) =>
    match SchemeKind.ofName name with
    | .file => checkFile rest
    | .hosted => checkAuthority .hosted (rest.dropWhile isSlash)
    | .other =>
      match rest with
      | '/' :: '/' :: authority => checkAuthority .other authority
      | _ => .ok ()

end DeployRecipe.Url
