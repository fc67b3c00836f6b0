import ModelHub.Yaml.Cursor

namespace ModelHub.Yaml

def isFlowBracket (c : Char) : Bool :=
  c = '[' || c = ']' || c = '\x7b' || c = '\x7d'

namespace Plain

/-- Behind a colon in a flow collection, these characters cannot follow. -/
def isColonConflict : List Char → Bool
  | [] => false
  | c :: _ => c = ',' || c = '?' || isFlowBracket c

def endsWord (inFlow : Bool) : List Char → Bool
  | [] => true
  | c :: rest =>
    isGap c || (c = ':' && startsGap rest) || (inFlow && (c = ',' || isFlowBracket c))

/-- The length of the word at the start of a text; none if a colon stands where it cannot. -/
def wordLength? (inFlow : Bool) : List Char → Option Nat
  | [] => some 0
  | c :: rest =>
    if inFlow && c = ':' && isColonConflict rest then none
    else if endsWord inFlow (c :: rest) then some 0
    else (wordLength? inFlow rest).map (· + 1)

/-- Reads words and the gaps between them, up to a character that cannot continue the scalar. The
answer tells whether the scalar ends behind a line break. -/
def readWords (inFlow : Bool) (least : Int) :
    Nat → Cursor → List Char → Gap → Option (List Char × Bool × Cursor)
  | 0, _, _, _ => none
  | fuel + 1, cursor, done, gap =>
    if cursor.isAtDocumentEdge || cursor.isAt '#' then some (done, gap.isBroken, cursor)
    else do
      let length ← wordLength? inFlow cursor.rest
      let word := cursor.rest.take length
      let (done, gap) := if word.isEmpty then (done, gap) else (done ++ gap.fold ++ word, .none)
      let cursor := cursor.advance length
      if cursor.rest.isEmpty || !startsGap cursor.rest then some (done, gap.isBroken, cursor)
      else
        let (gap, cursor) ← gap.read least cursor.rest.length cursor
        if !inFlow && (cursor.column : Int) < least then some (done, gap.isBroken, cursor)
        else readWords inFlow least fuel cursor done gap

end Plain

namespace Quoted

def readHex (count : Nat) (text : List Char) : Option Nat :=
  if text.length < count then none else Text.readNat? 16 (text.take count)

def character? (code : Nat) : Option Char :=
  if code.isValidChar then some (Char.ofNat code) else none

def escape? : List Char → Option (Char × Nat)
  | [] => none
  | c :: rest =>
    let coded (count : Nat) : Option (Char × Nat) := do
      let code ← readHex count rest
      let found ← character? code
      some (found, count + 1)
    let named (code : Nat) : Option (Char × Nat) := some (Char.ofNat code, 1)
    match c with
    | '0' => named 0
    | 'a' => named 7
    | 'b' => named 8
    | 't' => named 9
    | '\t' => named 9
    | 'n' => named 10
    | 'v' => named 11
    | 'f' => named 12
    | 'r' => named 13
    | 'e' => named 0x1B
    | ' ' => named 0x20
    | '"' => named 0x22
    | '/' => named 0x2F
    | '\\' => named 0x5C
    | 'N' => named 0x85
    | '_' => named 0xA0
    | 'L' => named 0x2028
    | 'P' => named 0x2029
    | 'x' => coded 2
    | 'u' => coded 4
    | 'U' => coded 8
    | _ => none

def apostrophe : Char := '\x27'

/-- The characters up to a gap or the closing quote. The answer tells whether the word ends in an
escaped line break. -/
def readWord (quote : Char) : Nat → Cursor → List Char → Option (List Char × Bool × Cursor)
  | 0, _, _ => none
  | fuel + 1, cursor, done =>
    match cursor.rest with
    | [] => some (done, false, cursor)
    | c :: rest =>
      if isGap c then some (done, false, cursor)
      else if quote = apostrophe && c = quote && rest.head? = some quote then
        readWord quote fuel (cursor.advance 2) (done ++ [quote])
      else if c = quote then some (done, false, cursor)
      else if quote ≠ apostrophe && c = '\\' then
        if !rest.isEmpty && startsBreak rest then some (done, true, cursor.next.passBreak.2)
        else do
          let (found, length) ← escape? rest
          readWord quote fuel (cursor.advance (length + 1)) (done ++ [found])
      else readWord quote fuel cursor.next (done ++ [c])

def readWords (quote : Char) : Nat → Cursor → List Char → Option (List Char × Cursor)
  | 0, _, _ => none
  | fuel + 1, cursor, done =>
    if cursor.isAtDocumentEdge || cursor.rest.isEmpty then none
    else do
      let (word, isEscaped, cursor) ← readWord quote (cursor.rest.length + 1) cursor []
      if cursor.isAt quote then some (done ++ word, cursor.next)
      else
        let start : Gap := if isEscaped then .breaks [] [] else .none
        let (gap, cursor) ← start.read 0 cursor.rest.length cursor
        readWords quote fuel cursor (done ++ word ++ gap.fold)

end Quoted

namespace Block

inductive Chomping where
  | strip | clip | keep
  deriving DecidableEq

structure Header where
  chomping : Chomping := .clip
  increment : Option Nat := none

def chomping? (cursor : Cursor) : Option Chomping :=
  match cursor.rest with
  | '+' :: _ => some .keep
  | '-' :: _ => some .strip
  | _ => none

/-- A digit; outer none if it is zero. -/
def readIncrement (cursor : Cursor) : Option (Option Nat × Cursor) :=
  match cursor.rest with
  | c :: _ =>
    if c = '0' then none
    else if Text.isDigit c then some (some (Text.digitValue c), cursor.next)
    else some (none, cursor)
  | [] => some (none, cursor)

def readHeader (cursor : Cursor) : Option (Header × Cursor) :=
  match chomping? cursor with
  | some chomping => do
    let (increment, cursor) ← readIncrement cursor.next
    some (⟨chomping, increment⟩, cursor)
  | none => do
    let (increment, cursor) ← readIncrement cursor
    match increment, chomping? cursor with
    | some n, some chomping => some (⟨chomping, some n⟩, cursor.next)
    | _, _ => some (⟨.clip, increment⟩, cursor)

/-- Passes indentation and empty lines. An indentation of zero is not yet known, and any number of
spaces is passed; the answer holds the greatest column. -/
def readBreaks (indent : Int) :
    Nat → Cursor → List Char → Nat → Option (List Char × Nat × Cursor)
  | 0, _, _, _ => none
  | fuel + 1, cursor, done, greatest =>
    let isInside (column : Nat) : Bool := indent = 0 || (column : Int) < indent
    let spaces := (cursor.rest.takeWhile (· = ' ')).length
    let count := if indent = 0 then spaces else min spaces (indent - cursor.column).toNat
    let cursor := cursor.advance count
    let greatest := max greatest cursor.column
    if cursor.isAt '\t' && isInside cursor.column then none
    else
      match cursor.rest with
      | [] => some (done, greatest, cursor)
      | c :: _ =>
        if isBreak c then
          let (text, cursor) := cursor.passBreak
          readBreaks indent fuel cursor (done ++ text) greatest
        else some (done, greatest, cursor)

structure Lines where
  text : List Char := []
  lastBreak : List Char := []
  emptyLines : List Char := []
  isIndented : Bool := false

/-- A line break between two lines that are not indented further is folded into a space. -/
def joinLine (isFolded : Bool) (lines : Lines) (startsBlank : Bool) : List Char :=
  if isFolded && lines.lastBreak = ['\n'] && !lines.isIndented && !startsBlank then
    if lines.emptyLines.isEmpty then [' '] else lines.emptyLines
  else lines.lastBreak ++ lines.emptyLines

def readLines (isFolded : Bool) (indent : Int) : Nat → Cursor → Lines → Option (Lines × Cursor)
  | 0, _, _ => none
  | fuel + 1, cursor, lines =>
    match cursor.rest with
    | [] => some (lines, cursor)
    | c :: _ =>
      if (cursor.column : Int) ≠ indent then some (lines, cursor)
      else do
        let startsBlank := isSpaceOrTab c
        let line := cursor.rest.takeWhile fun c => !isBreak c
        let text := lines.text ++ joinLine isFolded lines startsBlank ++ line
        let (lastBreak, cursor) := (cursor.advance line.length).passBreak
        let (emptyLines, _, cursor) ← readBreaks indent (cursor.rest.length + 1) cursor [] 0
        readLines isFolded indent fuel cursor ⟨text, lastBreak, emptyLines, startsBlank⟩

def chomp (chomping : Chomping) (lines : Lines) : List Char :=
  match chomping with
  | .strip => lines.text
  | .clip => lines.text ++ lines.lastBreak
  | .keep => lines.text ++ lines.lastBreak ++ lines.emptyLines

/-- A block scalar behind its indicator, in a block of the given indentation. Where none is given,
the first line that is not empty decides, but at least one column more than the block has. -/
def read (isFolded : Bool) (outer : Int) (cursor : Cursor) : Option (List Char × Cursor) := do
  let (header, cursor) ← readHeader cursor
  let cursor ← cursor.closeLine?
  let given : Int := match header.increment with
    | none => 0
    | some n => max outer 0 + n
  let (emptyLines, greatest, cursor) ← readBreaks given (cursor.rest.length + 1) cursor [] 0
  let indent : Int := if given = 0 then max (max greatest (outer + 1)) 1 else given
  let (lines, cursor) ←
    readLines isFolded indent (cursor.rest.length + 1) cursor { emptyLines := emptyLines }
  some (chomp header.chomping lines, cursor)

end Block

end ModelHub.Yaml
