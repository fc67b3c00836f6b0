import ModelHub.Text.Blank
import ModelHub.Text.Case
import ModelHub.Time.Instant
import ModelHub.Time.Duration

namespace ModelHub.Rfc3339

open Text (isDigit digitValue isBlank)

abbrev Reader (α : Type) := List Char → Option (α × List Char)

def valueOf (digits : List Char) : Nat := digits.foldl (fun n c => n * 10 + digitValue c) 0

/-- The longest run of digits of length `least` to `most`. -/
def number (least most : Nat) : Reader Nat := fun text =>
  let digits := (text.take most).takeWhile isDigit
  if digits.length < least then none else some (valueOf digits, text.drop digits.length)

def exactly (c : Char) : Reader Unit
  | [] => none
  | d :: rest => if c = d then some ((), rest) else none

/-- Digits behind the ninth are dropped. -/
def fraction : Reader Nat
  | '.' :: text => do
    let digits := (text.take 9).takeWhile isDigit
    if digits.isEmpty then none
    else
      let nanos := valueOf digits * Nat.pow 10 (9 - digits.length)
      some (nanos, (text.drop digits.length).dropWhile isDigit)
  | text => some (0, text)

def inRange (low high : Nat) (n : Nat) : Option Nat := if low ≤ n ∧ n ≤ high then some n else none

def sign : Reader Int
  | '+' :: rest => some (1, rest)
  | '-' :: rest => some (-1, rest)
  | '\u2212' :: rest => some (-1, rest)
  | _ => none

def secondsOf (direction : Int) (hours minutes : Nat) : Int :=
  direction * (hours * 3600 + minutes * 60 : Nat)

/-- Hours and minutes with a colon between, below one day; `Z` in either case for none. -/
def strictOffset : Reader Int
  | 'Z' :: rest => some (0, rest)
  | 'z' :: rest => some (0, rest)
  | text => do
    let (direction, text) ← sign text
    let (hours, text) ← number 2 2 text
    let (_, text) ← exactly ':' text
    let (minutes, text) ← number 2 2 text
    let minutes ← inRange 0 59 minutes
    let hours ← inRange 0 23 hours
    some (secondsOf direction hours minutes, text)

def strictDate : Reader Calendar.Date := fun text => do
  let (year, text) ← number 4 4 text
  let (_, text) ← exactly '-' text
  let (month, text) ← number 2 2 text
  let (_, text) ← exactly '-' text
  let (day, text) ← number 2 2 text
  some (⟨year, month, day⟩, text)

def isSeparator (c : Char) : Bool := c = 'T' || c = 't' || c = ' '

def separator : Reader Unit
  | [] => none
  | c :: rest => if isSeparator c then some ((), rest) else none

def makeClock (hour minute second nanos : Nat) : Option Instant.Clock := do
  let hour ← inRange 0 23 hour
  let minute ← inRange 0 59 minute
  let second ← inRange 0 60 second
  some ⟨hour, minute, second, nanos⟩

def strictClock : Reader Instant.Clock := fun text => do
  let (hour, text) ← number 2 2 text
  let (_, text) ← exactly ':' text
  let (minute, text) ← number 2 2 text
  let (_, text) ← exactly ':' text
  let (second, text) ← number 2 2 text
  let (nanos, text) ← fraction text
  let clock ← makeClock hour minute second nanos
  some (clock, text)

def complaint : String := "not an RFC 3339 date and time"

def parse? (text : String) : Option Instant := do
  let (date, rest) ← strictDate text.toList
  let (_, rest) ← separator rest
  let (clock, rest) ← strictClock rest
  let (offset, rest) ← strictOffset rest
  if rest.isEmpty && date.isValid then some (.ofLocal date clock offset) else none

/-! The lenient reader takes blanks between the parts, years with a sign, and short offsets. -/

def skipBlanks (text : List Char) : List Char := text.dropWhile isBlank

def lenientNumber (most : Nat) : Reader Nat := fun text => number 1 most (skipBlanks text)

def signedYear : Reader Int := fun text =>
  match skipBlanks text with
  | '-' :: rest => (number 1 rest.length rest).map fun found => (-(found.1 : Int), found.2)
  | '+' :: rest => (number 1 rest.length rest).map fun found => ((found.1 : Int), found.2)
  | rest => (number 1 4 rest).map fun found => ((found.1 : Int), found.2)

def lenientMinutes : Reader Nat
  | [] => some (0, [])
  | text => do
    let (minutes, rest) ← number 2 2 text
    let minutes ← inRange 0 59 minutes
    some (minutes, rest)

def lenientOffset : Reader Int
  | 'Z' :: rest => some (0, rest)
  | 'z' :: rest => some (0, rest)
  | u :: t :: c :: rest =>
    if [u, t, c].map Text.lowerAscii = ['u', 't', 'c'] then some (0, rest)
    else do
      let (direction, text) ← sign (u :: t :: c :: rest)
      let (hours, text) ← number 2 2 text
      let (minutes, text) ← lenientMinutes (text.dropWhile fun c => c = ':' || isBlank c)
      if hours < 24 then some (secondsOf direction hours minutes, text) else none
  | _ => none

def isYearInRange (year : Int) : Bool := -262143 ≤ year && year ≤ 262142

def parseLenient? (text : String) : Option Instant := do
  let (year, rest) ← signedYear text.toList
  let (_, rest) ← exactly '-' (skipBlanks rest)
  let (month, rest) ← lenientNumber 2 rest
  let (_, rest) ← exactly '-' (skipBlanks rest)
  let (day, rest) ← lenientNumber 2 rest
  let (_, rest) ← separator rest
  let (hour, rest) ← lenientNumber 2 rest
  let (_, rest) ← exactly ':' (skipBlanks rest)
  let (minute, rest) ← lenientNumber 2 rest
  let (_, rest) ← exactly ':' (skipBlanks rest)
  let (second, rest) ← lenientNumber 2 rest
  let (nanos, rest) ← fraction rest
  let clock ← makeClock hour minute second nanos
  let (offset, rest) ← lenientOffset (skipBlanks rest)
  let date : Calendar.Date := ⟨year, month, day⟩
  let instant := Instant.ofLocal date clock offset
  if (skipBlanks rest).isEmpty && date.isValid && isYearInRange year
      && isYearInRange instant.date.year then some instant else none

def padded (width n : Nat) : List Char := Duration.padLeft width (toString n).toList

/-- Years of four digits stand bare, all others carry a sign. -/
def yearText (year : Int) : List Char :=
  if 0 ≤ year ∧ year ≤ 9999 then padded 4 year.toNat
  else (if year < 0 then '-' else '+') :: padded 4 year.natAbs

/-- No digits, three, six or nine, as few as lose nothing. -/
def fractionText (nanos : Nat) : List Char :=
  if nanos = 0 then []
  else if nanos % 1000000 = 0 then '.' :: padded 3 (nanos / 1000000)
  else if nanos % 1000 = 0 then '.' :: padded 6 (nanos / 1000)
  else '.' :: padded 9 nanos

def localText (instant : Instant) : List Char :=
  let date := instant.date
  let clock := instant.clock
  yearText date.year ++ '-' :: padded 2 date.month ++ '-' :: padded 2 date.day ++
    'T' :: padded 2 clock.hour ++ ':' :: padded 2 clock.minute ++ ':' :: padded 2 clock.second ++
    fractionText clock.nanos

def render (instant : Instant) : String := String.ofList (localText instant ++ "+00:00".toList)

def renderZulu (instant : Instant) : String := String.ofList (localText instant ++ ['Z'])

end ModelHub.Rfc3339
