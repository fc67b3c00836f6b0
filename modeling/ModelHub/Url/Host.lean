import ModelHub.Url.DomainName

namespace ModelHub.Url

inductive Host where
  | empty
  | name (text : String)
  | short (address : Nat)
  | long (pieces : List Nat)
  deriving DecidableEq, Repr

namespace Host

/-- A number in decimal; with a leading zero in octal, with a leading `0x` in hexadecimal digits, of
which there may be none. -/
def readPart? : List Char → Option Nat
  | [] => none
  | ['0'] => some 0
  | '0' :: 'x' :: digits => if digits.isEmpty then some 0 else Text.readNat? 16 digits
  | '0' :: digits => Text.readNat? 8 digits
  | digits => Text.readNat? 10 digits

def parts (name : List Char) : List (List Char) :=
  let parts := Text.segments '.' name
  if parts.getLast? = some [] && 1 < parts.length then parts.dropLast else parts

/-- Such a name must be a number. -/
def endsInNumber (name : List Char) : Bool :=
  match (parts name).getLast? with
  | some last => !last.isEmpty && (last.all Text.isDigit || (readPart? last).isSome)
  | none => false

/-- All parts but the last are one byte each; the last one fills the bytes that are left. -/
def shortOfParts? (numbers : List Nat) : Option Nat := do
  let last ← numbers.getLast?
  let bytes := numbers.dropLast
  let capacity := Nat.pow 256 (4 - bytes.length)
  if bytes.length < 4 && bytes.all (· < 256) && last < capacity then
    some (bytes.foldl (fun total byte => total * 256 + byte) 0 * capacity + last)
  else none

def short? (name : List Char) : Option Host := do
  some (.short (← shortOfParts? (← (parts name).mapM readPart?)))

def shortText (address : Nat) : String :=
  Text.join "." ([3, 2, 1, 0].map fun place => toString (address / Nat.pow 256 place % 256))

def readPiece? (digits : List Char) : Option Nat :=
  if digits.length ≤ 4 then Text.readNat? 16 digits else none

def readByte? (digits : List Char) : Option Nat :=
  if digits.head? = some '0' && 1 < digits.length then none
  else if digits.all Text.isDigit then (Text.readNat? 10 digits).filter (· < 256)
  else none

def dotted? (text : List Char) : Option (List Nat) := do
  let [a, b, c, d] ← (Text.segments '.' text).mapM readByte? | none
  some [a * 256 + b, c * 256 + d]

/-- The pieces between colons. The last two may be written as four bytes in decimal. -/
def pieces? (mayEndDotted : Bool) (text : List Char) : Option (List Nat) :=
  if text.isEmpty then some []
  else do
    let groups := Text.segments ':' text
    let last ← groups.getLast?
    let lead ← groups.dropLast.mapM readPiece?
    if last.contains '.' then
      if mayEndDotted then some (lead ++ (← dotted? last)) else none
    else some (lead ++ [← readPiece? last])

def splitGap : List Char → Option (List Char × List Char)
  | [] => none
  | ':' :: ':' :: rest => some ([], rest)
  | c :: rest => (splitGap rest).map fun parts => (c :: parts.1, parts.2)

/-- A double colon stands for one piece of zero or more. -/
def long? (text : List Char) : Option Host :=
  match splitGap text with
  | none => do
    let pieces ← pieces? true text
    if pieces.length = 8 then some (.long pieces) else none
  | some (left, right) => do
    let left ← pieces? false left
    let right ← pieces? true right
    let given := left.length + right.length
    if given < 8 then some (.long (left ++ List.replicate (8 - given) 0 ++ right)) else none

def longestGap (start : Nat) : List Nat → Nat × Nat
  | [] => (start, 0)
  | piece :: rest =>
    let here := ((piece :: rest).takeWhile (· = 0)).length
    let later := longestGap (start + 1) rest
    if later.2 ≤ here then (start, here) else later

def pieceTexts (pieces : List Nat) : String :=
  Text.join ":" (pieces.map fun piece => String.ofList (Nat.toDigits 16 piece))

/-- The longest gap of two pieces or more is a double colon. -/
def longText (pieces : List Nat) : String :=
  let (start, length) := longestGap 0 pieces
  if length < 2 then pieceTexts pieces
  else pieceTexts (pieces.take start) ++ "::" ++ pieceTexts (pieces.drop (start + length))

def text : Host → String
  | empty => ""
  | name text => text
  | short address => shortText address
  | long pieces => "[" ++ longText pieces ++ "]"

def bracketed? (text : List Char) : Option Host :=
  if text.getLast? = some ']' then long? text.dropLast else none

def decodeText? (text : List Char) : Option (List Char) :=
  (String.fromUTF8? (decode text).toByteArray).map String.toList

def ofText? (text : List Char) : Option Host :=
  match text with
  | '[' :: inner => bracketed? inner
  | _ => do
    let name ← DomainName.ofText? (← decodeText? text)
    if name.isEmpty then none
    else if endsInNumber name.toList then short? name.toList
    else some (.name name)

/-- A host of any other scheme is not looked into. -/
def ofPlainText? (text : List Char) : Option Host :=
  match text with
  | [] => some .empty
  | '[' :: inner => bracketed? inner
  | _ =>
    if text.any fun c => "\x00\t\n\r #/:<>?@[\\]^|".contains c then none
    else some (.name (String.ofList (encode (fun c => !isControl c) text)))

end Host

end ModelHub.Url
