import ModelHub.Text.Case

namespace ModelHub.Yaml

def isAllowed (c : Char) : Bool :=
  c = '\t' || c = '\n' || c = '\r' || (0x20 ≤ c.toNat && c.toNat ≤ 0x7E) || c.toNat = 0x85
    || (0xA0 ≤ c.toNat && c.toNat ≤ 0xFFFD) || 0x10000 ≤ c.toNat

def isSpaceOrTab (c : Char) : Bool := c = ' ' || c = '\t'

def isBreak (c : Char) : Bool :=
  c = '\n' || c = '\r' || c.toNat = 0x85 || c.toNat = 0x2028 || c.toNat = 0x2029

def isGap (c : Char) : Bool := isSpaceOrTab c || isBreak c

/-- Letters of names: anchors, tag handles and directives. -/
def isWord (c : Char) : Bool := Text.isLetter c || Text.isDigit c || c = '_' || c = '-'

/-- The end of the text counts as a gap. -/
def startsGap : List Char → Bool
  | [] => true
  | c :: _ => isGap c

def startsBreak : List Char → Bool
  | [] => true
  | c :: _ => isBreak c

structure Cursor where
  rest : List Char
  index : Nat := 0
  line : Nat := 0
  column : Nat := 0
  deriving Repr

namespace Cursor

def next (cursor : Cursor) : Cursor :=
  match cursor.rest with
  | [] => cursor
  | _ :: rest => { cursor with rest := rest, index := cursor.index + 1, column := cursor.column + 1 }

def advance (count : Nat) (cursor : Cursor) : Cursor :=
  { cursor with rest := cursor.rest.drop count, index := cursor.index + count
                column := cursor.column + count }

def skipWhile (accept : Char → Bool) (cursor : Cursor) : Cursor :=
  cursor.advance (cursor.rest.takeWhile accept).length

def newLine (cursor : Cursor) (count : Nat) : Cursor :=
  { rest := cursor.rest.drop count, index := cursor.index + count, line := cursor.line + 1,
    column := 0 }

/-- Passes a line break and gives its text: a line feed, or the separator itself if it is a line
or paragraph separator. Elsewhere nothing is passed. -/
def passBreak (cursor : Cursor) : List Char × Cursor :=
  match cursor.rest with
  | '\r' :: '\n' :: _ => (['\n'], cursor.newLine 2)
  | c :: _ =>
    if c.toNat = 0x2028 || c.toNat = 0x2029 then ([c], cursor.newLine 1)
    else if isBreak c then (['\n'], cursor.newLine 1)
    else ([], cursor)
  | [] => ([], cursor)

/-- Three hyphens or three dots that stand alone at the start of a line. -/
def isAtMarker (mark : Char) (cursor : Cursor) : Bool :=
  cursor.column = 0 &&
    match cursor.rest with
    | a :: b :: c :: rest => a = mark && b = mark && c = mark && startsGap rest
    | _ => false

def isAtDocumentEdge (cursor : Cursor) : Bool := cursor.isAtMarker '-' || cursor.isAtMarker '.'

def isAt (c : Char) (cursor : Cursor) : Bool := cursor.rest.head? = some c

def skipComment (cursor : Cursor) : Cursor :=
  if cursor.isAt '#' then cursor.skipWhile fun c => !isBreak c else cursor

/-- Nothing but blanks and a comment may stand on the rest of the line. -/
def closeLine? (cursor : Cursor) : Option Cursor :=
  let cursor := (cursor.skipWhile isSpaceOrTab).skipComment
  if startsBreak cursor.rest then some cursor.passBreak.2 else none

end Cursor

/-- What stands between two words of a scalar that may run over several lines. -/
inductive Gap where
  | blanks (text : List Char)
  /-- The first line break, and all further ones. -/
  | breaks (first more : List Char)
  deriving Repr

namespace Gap

def none : Gap := blanks []

/-- One line break becomes a space, of several the first one is dropped. -/
def fold : Gap → List Char
  | blanks text => text
  | breaks ['\n'] [] => [' ']
  | breaks ['\n'] more => more
  | breaks first more => first ++ more

def isBroken : Gap → Bool
  | blanks _ => false
  | breaks _ _ => true

/-- Reads blanks and line breaks. After a line break, no tab may stand before the least column.
The fuel bounds the number of steps. -/
def read (least : Int) : Nat → Cursor → Gap → Option (Gap × Cursor)
  | 0, cursor, gap => some (gap, cursor)
  | fuel + 1, cursor, gap =>
    match cursor.rest with
    | [] => some (gap, cursor)
    | c :: _ =>
      if isSpaceOrTab c then
        match gap with
        | blanks text => read least fuel cursor.next (.blanks (text ++ [c]))
        | breaks _ _ =>
          if c = '\t' && (cursor.column : Int) < least then Option.none
          else read least fuel cursor.next gap
      else if isBreak c then
        let (text, cursor) := cursor.passBreak
        match gap with
        | blanks _ => read least fuel cursor (.breaks text [])
        | breaks first more => read least fuel cursor (.breaks first (more ++ text))
      else some (gap, cursor)

end Gap

end ModelHub.Yaml
