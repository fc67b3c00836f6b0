import ModelHub.Url.Path
import ModelHub.Text.Split

/-!
Addresses as people write them. Blanks around an address and line ends in it do not count; slashes,
letters of hosts and numbers are brought to one spelling.
-/

namespace ModelHub.Url

def cleaned (text : List Char) : List Char :=
  let isEdge (c : Char) : Bool := c.toNat ≤ 32
  let trimmed := ((text.dropWhile isEdge).reverse.dropWhile isEdge).reverse
  trimmed.filter fun c => !(c = '\t' || c = '\n' || c = '\r')

def isSchemeChar (c : Char) : Bool := isAlphanumeric c || "+-.".contains c

def splitScheme? (text : List Char) : Option (String × List Char) := do
  let (scheme, rest) ← Text.splitFirst ':' text
  if scheme.head?.any Text.isLetter && scheme.all isSchemeChar then
    some (String.ofList (scheme.map Text.lowerAscii), rest)
  else none

def splitTail (scheme : String) (text : List Char) :
    List Char × Option String × Option String :=
  let (text, fragment) := match Text.splitFirst '#' text with
    | none => (text, none)
    | some (text, fragment) => (text, some (String.ofList (encode isFragmentText fragment)))
  match Text.splitFirst '?' text with
  | none => (text, none, fragment)
  | some (text, query) =>
    (text, some (String.ofList (encode (isQueryText (isSpecial scheme)) query)), fragment)

def isSlash (scheme : String) (c : Char) : Bool := c = '/' || (isSpecial scheme && c = '\\')

def splitPath (scheme : String) (text : List Char) : List Char × List Char :=
  text.span fun c => !isSlash scheme c

/-- User and password are before the last at-sign, the password behind the first colon. -/
def splitCredentials (authority : List Char) : String × String × List Char :=
  match Text.splitLast '@' authority with
  | none => ("", "", authority)
  | some (credentials, host) =>
    let part (text : List Char) : String := String.ofList (encode isUserText text)
    match Text.splitFirst ':' credentials with
    | none => (part credentials, "", host)
    | some (user, password) => (part user, part password, host)

/-- Cuts at the first colon that is not in brackets. -/
def splitPort (isInside : Bool) : List Char → List Char × Option (List Char)
  | [] => ([], none)
  | c :: rest =>
    if c = ':' && !isInside then ([], some rest)
    else
      let (host, port) := splitPort (if c = '[' then true else if c = ']' then false else isInside) rest
      (c :: host, port)

/-- No digits at all, and the usual port of the scheme, are as good as no port. -/
def port? (scheme : String) (digits : List Char) : Option (Option Nat) := do
  let port ← if digits.isEmpty then some none
    else if digits.all Text.isDigit then some <$> Text.readNat? 10 digits
    else none
  if port.any (65535 < ·) then none
  else if port = usualPorts.lookup scheme then some none
  else some port

/-- The port and, where a backslash ends it, the path that begins there. -/
def splitPortPath (port : List Char) : List Char × List Char := port.span (· ≠ '\\')

/-- An address with a host: what is behind the two slashes. Where the host is empty there are neither
credentials nor a port, and a lone at-sign only at the end. -/
def hosted? (scheme : String) (address : List Char) : Option Url := do
  let (text, query, fragment) := splitTail scheme address
  let (authority, path) := splitPath scheme text
  let (user, password, location) := splitCredentials authority
  let (hostText, portText) := splitPort false location
  let host ← if isSpecial scheme then Host.ofText? hostText else Host.ofPlainText? hostText
  let isLoneSign := authority = ['@'] && address ≠ ['@']
  if host = .empty && (portText.isSome || user ≠ "" || password ≠ "" || isLoneSign) then none
  let (digits, behind) := splitPortPath (portText.getD [])
  some { scheme := scheme, user := user, password := password, host := some host
         port := ← port? scheme digits
         path := .segments (Path.ofText scheme (behind ++ path))
         query := query, fragment := fragment }

/-- The host of a file: this computer has none, and a drive is none. -/
def fileHost? (text : List Char) : Option Host := do
  if text.isEmpty then some .empty
  else
    let host ← Host.ofText? text
    if host = .name "localhost" then some .empty else some host

def withoutHostOfDrive (host : Host) (path : List String) : Host :=
  if path.head?.any Path.isDrive then .empty else host

def file? (text : List Char) : Option Url := do
  let (text, query, fragment) := splitTail fileScheme text
  let (host, path) ← match text.span (isSlash fileScheme) with
    | ([_, _], rest) =>
      let (host, path) := splitPath fileScheme rest
      if Path.isDrive (String.ofList host) then some (Host.empty, rest)
      else (fileHost? host).map fun found => (found, path)
    | (_ :: _ :: rest, behind) => some (.empty, rest ++ behind)
    | _ => some (.empty, text)
  let path := Path.ofText fileScheme path
  some { scheme := fileScheme, host := some (withoutHostOfDrive host path), path := .segments path
         query := query, fragment := fragment }

def plain (scheme : String) (text : List Char) : Url :=
  let (text, query, fragment) := splitTail scheme text
  let path : UrlPath := match text with
    | '/' :: _ => .segments (Path.ofText scheme text)
    | _ => .whole (String.ofList (encode (fun c => !isControl c) text))
  { scheme := scheme, path := path, query := query, fragment := fragment }

/-- Special schemes need no slashes before the host, and take any number of them. -/
def ofParts? (scheme : String) (text : List Char) : Option Url :=
  if scheme = fileScheme then file? text
  else if isSpecial scheme then hosted? scheme (text.dropWhile (isSlash scheme))
  else match Text.dropLead? ['/', '/'] text with
    | some rest => hosted? scheme rest
    | none => some (plain scheme text)

def parse? (text : String) : Option Url := do
  let (scheme, rest) ← splitScheme? (cleaned text.toList)
  ofParts? scheme rest

def complaint : String := "not an address"

def noConnection : String := "no connection"

/-- Goes on from the address of a directory, where the last segment of the path does not count. The
text must begin with a name. -/
def resolve? (base : Url) (text : List Char) : Option Url :=
  match base.path with
  | .whole _ => none
  | .segments path =>
    let start := Path.shorten (base.scheme = fileScheme) path
    some { base with
      path := .segments (Path.extendText base.scheme start text)
      query := none
      fragment := none }

end ModelHub.Url
