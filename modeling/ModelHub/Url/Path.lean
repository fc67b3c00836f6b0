import ModelHub.Url.Address
import ModelHub.Text.Split

/-!
Paths of addresses as lists of segments. A segment of one dot is passed over and one of two dots takes
back the segment before it, but nothing leads above the first.
-/

namespace ModelHub.Url.Path

def isSingleDot (segment : String) : Bool :=
  [".", "%2e"].contains (Text.fold segment)

def isDoubleDot (segment : String) : Bool :=
  ["..", ".%2e", "%2e.", "%2e%2e"].contains (Text.fold segment)

/-- A letter and a colon, where a bar may stand for the colon. -/
def isDrive (segment : String) : Bool :=
  match segment.toList with
  | [letter, mark] => Text.isLetter letter && (mark = ':' || mark = '|')
  | _ => false

def driveText (segment : String) : String :=
  String.ofList (segment.toList.map fun c => if c = '|' then ':' else c)

/-- Takes back one segment. In files, a drive that stands alone stays. -/
def shorten (isFile : Bool) : List String → List String
  | [only] => if isFile && isDrive only then [only] else []
  | path => path.dropLast

/-- One segment more, written as it is unless it opens the path of a file with a drive. -/
def append (isFile : Bool) (path : List String) (segment : String) : List String :=
  if isFile && path.all (· = "") && isDrive segment then path ++ [driveText segment]
  else path ++ [segment]

/-- Goes on from a path. Dots at the end leave an empty last segment. -/
def extend (isFile : Bool) (path : List String) : List String → List String
  | [] => path
  | [last] =>
    if isDoubleDot last then shorten isFile path ++ [""]
    else if isSingleDot last then path ++ [""]
    else append isFile path last
  | segment :: rest =>
    if isDoubleDot segment then extend isFile (shorten isFile path) rest
    else if isSingleDot segment then extend isFile path rest
    else extend isFile (append isFile path segment) rest

/-- Cuts text at slashes, and at backslashes where they are as good, and encodes the pieces. -/
def pieces (isSpecial : Bool) (text : List Char) : List String :=
  let text := if isSpecial then text.map fun c => if c = '\\' then '/' else c else text
  (Text.segments '/' text).map fun piece => String.ofList (encode isPathText piece)

/-- Files have no empty segments at the beginning of a longer path. -/
def tidy (isFile : Bool) : List String → List String
  | "" :: next :: rest => if isFile then tidy isFile (next :: rest) else "" :: next :: rest
  | path => path

def extendText (scheme : String) (path : List String) (text : List Char) : List String :=
  let isFile := scheme = fileScheme
  tidy isFile (extend isFile path (pieces (isSpecial scheme) text))

/-- The path that a text behind a host gives. Special schemes have at least one segment. -/
def ofText (scheme : String) (text : List Char) : List String :=
  match text with
  | [] => if isSpecial scheme then [""] else []
  | c :: rest =>
    if c = '/' || (isSpecial scheme && c = '\\') then extendText scheme [] rest
    else extendText scheme [] text

def closed (path : List String) : List String :=
  if path.getLast? = some "" then path else path ++ [""]

end ModelHub.Url.Path
