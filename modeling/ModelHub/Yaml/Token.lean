import ModelHub.Yaml.Scalar

/-!
The tokens of a YAML document.

A key without an indicator is known only when its colon is found: then the tokens that open it are
inserted before what was already read.
-/

namespace ModelHub.Yaml

inductive Token where
  | versionDirective (major minor : Nat)
  | tagDirective (handle lead : String)
  | documentStart
  | documentEnd
  | blockSequenceStart
  | blockMappingStart
  | blockEnd
  | flowSequenceStart
  | flowSequenceEnd
  | flowMappingStart
  | flowMappingEnd
  | blockEntry
  | flowEntry
  | key
  | value
  | alias (name : String)
  | anchor (name : String)
  | tag (handle suffix : String)
  | scalar (text : String) (isPlain : Bool)
  deriving Repr, DecidableEq

/-- A place where a key may have begun. -/
structure KeyStart where
  tokenCount : Nat
  line : Nat
  index : Nat
  column : Nat
  isRequired : Bool
  deriving Repr

structure Scanner where
  cursor : Cursor
  /-- In reverse. -/
  tokens : List Token := []
  /-- One for each level of nested flow collections, innermost first; the last one is for the block
  around them. -/
  keyStarts : List (Option KeyStart) := [none]
  isKeyAllowed : Bool := true
  indent : Int := -1
  /-- The indentations of the blocks around, innermost first. -/
  outerIndents : List Int := []

namespace Scanner

def inFlow (s : Scanner) : Bool := 1 < s.keyStarts.length

def emit (s : Scanner) (token : Token) : Scanner := { s with tokens := token :: s.tokens }

def allowKey (s : Scanner) (isAllowed : Bool) : Scanner := { s with isKeyAllowed := isAllowed }

def moveTo (s : Scanner) (cursor : Cursor) : Scanner := { s with cursor := cursor }

def emitOver (count : Nat) (token : Token) (s : Scanner) : Scanner :=
  (s.moveTo (s.cursor.advance count)).emit token

def insertAt (count : Nat) (token : Token) (s : Scanner) : Scanner :=
  let later := s.tokens.length - count
  { s with tokens := s.tokens.take later ++ token :: s.tokens.drop later }

/-- Gives up the innermost possible key; none if it had to be one. -/
def dropKey (s : Scanner) : Option Scanner :=
  match s.keyStarts with
  | some start :: outer =>
    if start.isRequired then none else some { s with keyStarts := none :: outer }
  | _ => some s

def saveKey (s : Scanner) : Option Scanner :=
  if s.isKeyAllowed then do
    let start : KeyStart :=
      { tokenCount := s.tokens.length, line := s.cursor.line, index := s.cursor.index
        column := s.cursor.column, isRequired := !s.inFlow && s.indent = s.cursor.column }
    let s ← s.dropKey
    some { s with keyStarts := some start :: s.keyStarts.drop 1 }
  else some s

/-- A key stands on one line, and its colon within 1024 characters. -/
def isStale (cursor : Cursor) (start : KeyStart) : Bool :=
  start.line < cursor.line || start.index + 1024 < cursor.index

def dropStale (cursor : Cursor) : Option KeyStart → Option (Option KeyStart)
  | none => some none
  | some start =>
    if isStale cursor start then if start.isRequired then none else some none
    else some (some start)

def dropStaleKeys (s : Scanner) : Option Scanner := do
  let keyStarts ← s.keyStarts.mapM (dropStale s.cursor)
  some { s with keyStarts := keyStarts }

def openBlock (column : Nat) (token : Token) (position : Option Nat) (s : Scanner) : Scanner :=
  if s.inFlow || (column : Int) ≤ s.indent then s
  else
    let s := { s with indent := column, outerIndents := s.indent :: s.outerIndents }
    match position with
    | none => s.emit token
    | some count => s.insertAt count token

def closeUntil (column : Int) : List Int → Scanner → Scanner
  | [], s => s
  | outer :: rest, s =>
    if column < s.indent then
      closeUntil column rest { s.emit .blockEnd with indent := outer, outerIndents := rest }
    else s

def closeBlocks (column : Int) (s : Scanner) : Scanner :=
  if s.inFlow then s else closeUntil column s.outerIndents s

/-- Passes blanks, comments and line breaks. Tabs are passed only where no key can begin. -/
def skipToToken : Nat → Scanner → Scanner
  | 0, s => s
  | fuel + 1, s =>
    let cursor := if s.cursor.index = 0 && s.cursor.isAt '\ufeff' then s.cursor.next else s.cursor
    let takesTabs := s.inFlow || !s.isKeyAllowed
    let cursor := cursor.skipWhile fun c => c = ' ' || (takesTabs && c = '\t')
    let cursor := cursor.skipComment
    match cursor.rest with
    | [] => s.moveTo cursor
    | c :: _ =>
      if isBreak c then
        let s := s.moveTo cursor.passBreak.2
        skipToToken fuel (if s.inFlow then s else s.allowKey true)
      else s.moveTo cursor

def readNumber (cursor : Cursor) : Option (Nat × Cursor) :=
  let digits := cursor.rest.takeWhile Text.isDigit
  if 9 < digits.length then none
  else (Text.readNat? 10 digits).map fun n => (n, cursor.advance digits.length)

def readVersion (cursor : Cursor) : Option (Token × Cursor) := do
  let (major, cursor) ← readNumber (cursor.skipWhile isSpaceOrTab)
  if cursor.isAt '.' then
    let (minor, cursor) ← readNumber cursor.next
    some (.versionDirective major minor, cursor)
  else none

def readHandle (cursor : Cursor) : Option (List Char × Cursor) :=
  if cursor.isAt '!' then
    let word := cursor.next.rest.takeWhile isWord
    let cursor := cursor.advance (word.length + 1)
    if cursor.isAt '!' then some ('!' :: word ++ ['!'], cursor.next) else some ('!' :: word, cursor)
  else none

def isTagCharacter (isVerbatim : Bool) (c : Char) : Bool :=
  isWord c || c = '\x27' || ";/?:@&=+$.!~*()".toList.contains c
    || (isVerbatim && (c = ',' || c = '[' || c = ']'))

def octetCount? (octet : Nat) : Option Nat :=
  if octet < 0x80 then some 1
  else if 0xC0 ≤ octet && octet < 0xE0 then some 2
  else if 0xE0 ≤ octet && octet < 0xF0 then some 3
  else if 0xF0 ≤ octet && octet < 0xF8 then some 4
  else none

def readOctet : List Char → Option (Nat × List Char)
  | '%' :: a :: b :: rest => do
    let high ← Text.hexValue? a
    let low ← Text.hexValue? b
    some (high * 16 + low, rest)
  | _ => none

def readTrailing : Nat → Nat → List Char → Option (Nat × List Char)
  | 0, code, text => some (code, text)
  | count + 1, code, text => do
    let (octet, rest) ← readOctet text
    if 0x80 ≤ octet && octet < 0xC0 then readTrailing count (code * 64 + octet % 64) rest else none

/-- A character written as escaped octets; one that is out of range becomes the replacement
character. -/
def readEscaped (text : List Char) : Option (Char × List Char) := do
  let (lead, rest) ← readOctet text
  let count ← octetCount? lead
  let bits := if count = 1 then lead else lead % (1 <<< (7 - count))
  let (code, rest) ← readTrailing (count - 1) bits rest
  some (if code.isValidChar then Char.ofNat code else '\ufffd', rest)

def readTagText (isVerbatim : Bool) : Nat → Cursor → List Char → Option (List Char × Cursor)
  | 0, _, _ => none
  | fuel + 1, cursor, done =>
    match cursor.rest with
    | [] => some (done, cursor)
    | c :: rest =>
      if c = '%' then do
        let (found, remaining) ← readEscaped (c :: rest)
        let length := cursor.rest.length - remaining.length
        readTagText isVerbatim fuel (cursor.advance length) (done ++ [found])
      else if isTagCharacter isVerbatim c then
        readTagText isVerbatim fuel cursor.next (done ++ [c])
      else some (done, cursor)

def readTagText1 (isVerbatim : Bool) (cursor : Cursor) : Option (List Char × Cursor) := do
  let (text, cursor) ← readTagText isVerbatim (cursor.rest.length + 1) cursor []
  if text.isEmpty then none else some (text, cursor)

def isHandle (text : List Char) : Bool := 1 < text.length && text.getLast? = some '!'

def readTagDirective (cursor : Cursor) : Option (Token × Cursor) := do
  let (handle, cursor) ← readHandle (cursor.skipWhile isSpaceOrTab)
  if isHandle handle || handle = ['!'] then
    match cursor.rest with
    | [] => none
    | c :: _ =>
      if isSpaceOrTab c then
        let (lead, cursor) ← readTagText1 true (cursor.skipWhile isSpaceOrTab)
        if startsGap cursor.rest then
          some (.tagDirective (String.ofList handle) (String.ofList lead), cursor)
        else none
      else none
  else none

def readDirective (cursor : Cursor) : Option (Token × Cursor) := do
  let cursor := cursor.next
  let name := cursor.rest.takeWhile isWord
  let cursor := cursor.advance name.length
  if startsGap cursor.rest then
    let (token, cursor) ←
      if name = "YAML".toList then readVersion cursor
      else if name = "TAG".toList then readTagDirective cursor
      else none
    let cursor ← cursor.closeLine?
    some (token, cursor)
  else none

def readTagBody (cursor : Cursor) : Option (Token × Cursor) := do
  if cursor.next.isAt '<' then
    let (suffix, cursor) ← readTagText1 true (cursor.advance 2)
    if cursor.isAt '>' then some (.tag "" (String.ofList suffix), cursor.next) else none
  else
    let (handle, cursor) ← readHandle cursor
    if isHandle handle then
      let (suffix, cursor) ← readTagText1 false cursor
      some (.tag (String.ofList handle) (String.ofList suffix), cursor)
    else
      let (more, cursor) ← readTagText false (cursor.rest.length + 1) cursor []
      let suffix := handle.drop 1 ++ more
      if suffix.isEmpty then some (.tag "" "!", cursor)
      else some (.tag "!" (String.ofList suffix), cursor)

/-- A tag ends at a gap, in a flow collection also at a comma. -/
def readTag (inFlow : Bool) (cursor : Cursor) : Option (Token × Cursor) := do
  let (token, cursor) ← readTagBody cursor
  if startsGap cursor.rest || (inFlow && cursor.isAt ',') then some (token, cursor) else none

def endsName : List Char → Bool
  | [] => true
  | c :: _ => isGap c || c = '\x60' || "?:,]%@".toList.contains c || c = '\x7d'

def readName (cursor : Cursor) : Option (String × Cursor) :=
  let cursor := cursor.next
  let name := cursor.rest.takeWhile isWord
  let cursor := cursor.advance name.length
  if name.isEmpty || !endsName cursor.rest then none else some (String.ofList name, cursor)

def fetchDirective (s : Scanner) : Option Scanner := do
  let s ← (s.closeBlocks (-1)).dropKey
  let (token, cursor) ← readDirective s.cursor
  some (((s.allowKey false).moveTo cursor).emit token)

def fetchMarker (token : Token) (s : Scanner) : Option Scanner := do
  let s ← (s.closeBlocks (-1)).dropKey
  some ((s.allowKey false).emitOver 3 token)

def fetchFlowStart (token : Token) (s : Scanner) : Option Scanner := do
  let s ← s.saveKey
  some (({ s with keyStarts := none :: s.keyStarts }.allowKey true).emitOver 1 token)

def leaveFlow (s : Scanner) : Scanner :=
  if s.inFlow then { s with keyStarts := s.keyStarts.drop 1 } else s

def fetchFlowEnd (token : Token) (s : Scanner) : Option Scanner := do
  let s ← s.dropKey
  some ((s.leaveFlow.allowKey false).emitOver 1 token)

def fetchFlowEntry (s : Scanner) : Option Scanner := do
  let s ← s.dropKey
  some ((s.allowKey true).emitOver 1 .flowEntry)

/-- Entries and explicit keys of a block begin where a key could. -/
def enterBlock (opening : Token) (s : Scanner) : Option Scanner :=
  if s.inFlow then some s
  else if s.isKeyAllowed then some (s.openBlock s.cursor.column opening none)
  else none

def fetchBlockEntry (s : Scanner) : Option Scanner := do
  let s ← s.enterBlock .blockSequenceStart
  let s ← s.dropKey
  some ((s.allowKey true).emitOver 1 .blockEntry)

def fetchKey (s : Scanner) : Option Scanner := do
  let s ← s.enterBlock .blockMappingStart
  let s ← s.dropKey
  some ((s.allowKey (!s.inFlow)).emitOver 1 .key)

def fetchValue (s : Scanner) : Option Scanner :=
  match s.keyStarts with
  | some start :: outer =>
    let s := s.insertAt start.tokenCount .key
    let s := s.openBlock start.column .blockMappingStart (some start.tokenCount)
    some (({ s with keyStarts := none :: outer }.allowKey false).emitOver 1 .value)
  | _ => do
    let s ← s.enterBlock .blockMappingStart
    some ((s.allowKey (!s.inFlow)).emitOver 1 .value)

def fetchName (token : String → Token) (s : Scanner) : Option Scanner := do
  let s ← s.saveKey
  let (name, cursor) ← readName s.cursor
  some (((s.allowKey false).moveTo cursor).emit (token name))

def fetchTag (s : Scanner) : Option Scanner := do
  let s ← s.saveKey
  let (token, cursor) ← readTag s.inFlow s.cursor
  some (((s.allowKey false).moveTo cursor).emit token)

def scalarOf (text : List Char) (isPlain : Bool) : Token := .scalar (String.ofList text) isPlain

def fetchBlockScalar (isFolded : Bool) (s : Scanner) : Option Scanner := do
  let s ← s.dropKey
  let (text, cursor) ← Block.read isFolded s.indent s.cursor.next
  some (((s.allowKey true).moveTo cursor).emit (scalarOf text false))

def fetchQuoted (quote : Char) (s : Scanner) : Option Scanner := do
  let s ← s.saveKey
  let start := s.cursor.next
  let (text, cursor) ← Quoted.readWords quote (start.rest.length + 1) start []
  some (((s.allowKey false).moveTo cursor).emit (scalarOf text false))

def fetchPlain (s : Scanner) : Option Scanner := do
  let s ← s.saveKey
  let (text, endsBroken, cursor) ← Plain.readWords s.inFlow (s.indent + 1)
    (s.cursor.rest.length + 1) s.cursor [] .none
  some (((s.allowKey endsBroken).moveTo cursor).emit (scalarOf text true))

def isIndicator (c : Char) : Bool :=
  isFlowBracket c || c = '"' || c = '\x27' || c = '\x60' || "-?:,#&*!|>%@".toList.contains c

def startsPlain (inFlow : Bool) (c : Char) (rest : List Char) : Bool :=
  !(isGap c || isIndicator c) || (c = '-' && (rest.head?.map isSpaceOrTab) ≠ some true)
    || (!inFlow && (c = '?' || c = ':') && !startsGap rest)

def fetch (c : Char) (rest : List Char) (s : Scanner) : Option Scanner :=
  if s.cursor.column = 0 && c = '%' then s.fetchDirective
  else if s.cursor.isAtMarker '-' then s.fetchMarker .documentStart
  else if s.cursor.isAtMarker '.' then s.fetchMarker .documentEnd
  else if c = '[' then s.fetchFlowStart .flowSequenceStart
  else if c = '\x7b' then s.fetchFlowStart .flowMappingStart
  else if c = ']' then s.fetchFlowEnd .flowSequenceEnd
  else if c = '\x7d' then s.fetchFlowEnd .flowMappingEnd
  else if c = ',' then s.fetchFlowEntry
  else if c = '-' && startsGap rest then s.fetchBlockEntry
  else if c = '?' && (s.inFlow || startsGap rest) then s.fetchKey
  else if c = ':' && (s.inFlow || startsGap rest) then s.fetchValue
  else if c = '*' then s.fetchName .alias
  else if c = '&' then s.fetchName .anchor
  else if c = '!' then s.fetchTag
  else if c = '|' && !s.inFlow then s.fetchBlockScalar false
  else if c = '>' && !s.inFlow then s.fetchBlockScalar true
  else if c = '\x27' then s.fetchQuoted '\x27'
  else if c = '"' then s.fetchQuoted '"'
  else if startsPlain s.inFlow c rest then s.fetchPlain
  else none

/-- All tokens up to the end of the text; every one takes a character. -/
def run : Nat → Scanner → Option (List Token)
  | 0, _ => none
  | fuel + 1, s => do
    let s := s.skipToToken (s.cursor.rest.length + 1)
    let s ← s.dropStaleKeys
    let s := s.closeBlocks s.cursor.column
    match s.cursor.rest with
    | [] =>
      let s ← (s.closeBlocks (-1)).dropKey
      some s.tokens.reverse
    | c :: rest =>
      let s ← s.fetch c rest
      run fuel s

end Scanner

def Token.scan (text : List Char) : Option (List Token) :=
  if text.all isAllowed then Scanner.run (text.length + 2) { cursor := { rest := text } } else none

end ModelHub.Yaml
