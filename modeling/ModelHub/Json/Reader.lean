import ModelHub.Json.Value
import ModelHub.Text.Case

namespace ModelHub.Json

open Text (isDigit hexValue?)

def isSpace (c : Char) : Bool := c = ' ' || c = '\t' || c = '\n' || c = '\r'

def skipSpace (text : List Char) : List Char := text.dropWhile isSpace

def readUnit : List Char → Option (Nat × List Char)
  | a :: b :: c :: d :: rest => do
    let a ← hexValue? a
    let b ← hexValue? b
    let c ← hexValue? c
    let d ← hexValue? d
    some (((a * 16 + b) * 16 + c) * 16 + d, rest)
  | _ => none

def isLeadUnit (unit : Nat) : Bool := 0xD800 ≤ unit && unit ≤ 0xDBFF
def isTrailUnit (unit : Nat) : Bool := 0xDC00 ≤ unit && unit ≤ 0xDFFF

def joinUnits (lead trail : Nat) : Char :=
  Char.ofNat (0x10000 + (lead - 0xD800) * 0x400 + (trail - 0xDC00))

/-- One escape behind its backslash. A half of a pair without the other half names no character. -/
def readEscape : List Char → Option (Option Char × List Char)
  | '"' :: rest => some (some '"', rest)
  | '\\' :: rest => some (some '\\', rest)
  | '/' :: rest => some (some '/', rest)
  | 'b' :: rest => some (some '\x08', rest)
  | 'f' :: rest => some (some '\x0c', rest)
  | 'n' :: rest => some (some '\n', rest)
  | 'r' :: rest => some (some '\r', rest)
  | 't' :: rest => some (some '\t', rest)
  | 'u' :: rest =>
    match readUnit rest with
    | none => none
    | some (unit, rest) =>
      if isTrailUnit unit then some (none, rest)
      else if isLeadUnit unit then
        match rest with
        | '\\' :: 'u' :: more =>
          match readUnit more with
          | none => some (none, rest)
          | some (trail, more) =>
            if isTrailUnit trail then some (some (joinUnits unit trail), more) else some (none, rest)
        | _ => some (none, rest)
      else some (some (Char.ofNat unit), rest)
  | _ => none

/-- The characters up to the closing quote, in reverse. The fuel bounds the number of steps. -/
def readChars : Nat → List Char → Option (List Char) → Option (Option (List Char) × List Char)
  | 0, _, _ => none
  | _ + 1, [], _ => none
  | fuel + 1, c :: rest, done =>
    if c = '"' then some (done, rest)
    else if c = '\\' then
      match readEscape rest with
      | none => none
      | some (found, rest) =>
        readChars fuel rest (match done, found with
          | some done, some c => some (c :: done)
          | _, _ => none)
    else if c.toNat < 0x20 then none
    else readChars fuel rest (done.map (c :: ·))

def readString (text : List Char) : Option (Option String × List Char) :=
  (readChars (text.length + 1) text (some [])).map fun found =>
    (found.1.map fun chars => String.ofList chars.reverse, found.2)

def takeDigits (text : List Char) : List Char × List Char :=
  (text.takeWhile isDigit, text.dropWhile isDigit)

def readWhole (text : List Char) : Option (List Char × List Char) :=
  match takeDigits text with
  | ([], _) => none
  | ('0' :: _ :: _, _) => none
  | found => some found

def readFraction : List Char → Option (List Char × List Char)
  | '.' :: rest =>
    match takeDigits rest with
    | ([], _) => none
    | (digits, rest) => some ('.' :: digits, rest)
  | text => some ([], text)

def readExponent : List Char → Option (List Char × List Char)
  | [] => some ([], [])
  | c :: rest =>
    if c = 'e' || c = 'E' then
      let (mark, rest) := match rest with
        | '+' :: more => (['+'], more)
        | '-' :: more => (['-'], more)
        | more => ([], more)
      match takeDigits rest with
      | ([], _) => none
      | (digits, rest) => some (c :: mark ++ digits, rest)
    else some ([], c :: rest)

def valueOf (digits : List Char) : Nat := digits.foldl (fun n c => n * 10 + Text.digitValue c) 0

def makeNumber (negative : Bool) (whole fraction exponent : List Char) : Json :=
  if fraction.isEmpty && exponent.isEmpty && !(negative && whole = ['0']) then
    .int (if negative then -(valueOf whole : Int) else valueOf whole)
  else .real (String.ofList ((if negative then ['-'] else []) ++ whole ++ fraction ++ exponent))

def readNumber (text : List Char) : Option (Json × List Char) := do
  let (negative, rest) := match text with
    | '-' :: rest => (true, rest)
    | rest => (false, rest)
  let (whole, rest) ← readWhole rest
  let (fraction, rest) ← readFraction rest
  let (exponent, rest) ← readExponent rest
  some (makeNumber negative whole fraction exponent, rest)

mutual

def readValue : Nat → List Char → Option (Json × List Char)
  | 0, _ => none
  | fuel + 1, text =>
    match skipSpace text with
    | 'n' :: 'u' :: 'l' :: 'l' :: rest => some (.null, rest)
    | 't' :: 'r' :: 'u' :: 'e' :: rest => some (.bool true, rest)
    | 'f' :: 'a' :: 'l' :: 's' :: 'e' :: rest => some (.bool false, rest)
    | '"' :: rest => (readString rest).map fun found => (.str found.1, found.2)
    | '[' :: rest =>
      match skipSpace rest with
      | ']' :: rest => some (.arr [], rest)
      | rest => (readItems fuel rest).map fun found => (.arr found.1, found.2)
    | '{' :: rest =>
      match skipSpace rest with
      | '}' :: rest => some (.obj [], rest)
      | rest => (readMembers fuel rest).map fun found => (.obj found.1, found.2)
    | rest => readNumber rest

def readItems : Nat → List Char → Option (List Json × List Char)
  | 0, _ => none
  | fuel + 1, text =>
    match readValue fuel text with
    | none => none
    | some (item, rest) =>
      match skipSpace rest with
      | ',' :: rest => (readItems fuel rest).map fun found => (item :: found.1, found.2)
      | ']' :: rest => some ([item], rest)
      | _ => none

def readMembers : Nat → List Char → Option (List (Option String × Json) × List Char)
  | 0, _ => none
  | fuel + 1, text =>
    match skipSpace text with
    | '"' :: rest =>
      match readString rest with
      | none => none
      | some (name, rest) =>
        match skipSpace rest with
        | ':' :: rest =>
          match readValue fuel rest with
          | none => none
          | some (value, rest) =>
            match skipSpace rest with
            | ',' :: rest =>
              (readMembers fuel rest).map fun found => ((name, value) :: found.1, found.2)
            | '}' :: rest => some ([(name, value)], rest)
            | _ => none
        | _ => none
    | _ => none

end

/-- The whole text is one document; every level of nesting takes a character. -/
def parse? (source : String) : Option Json :=
  let text := source.toList
  match readValue (2 * text.length + 2) text with
  | some (value, rest) => if (skipSpace rest).isEmpty then some value else none
  | none => none

end ModelHub.Json
