import ModelHub.Text.Split

/-!
The front matter of a document: the lines between a leading fence and the next one.

A fence is a line of three hyphens, behind which only blanks and one carriage return may stand.
-/

namespace ModelHub.FrontMatter

def byteOrderMark : Char := '\ufeff'

def isFence (line : List Char) : Bool :=
  match Text.dropLead? ['-', '-', '-'] line with
  | none => false
  | some rest =>
    let rest := rest.dropWhile fun c => c = ' ' || c = '\t'
    rest = [] || rest = ['\r']

/-- A byte order mark may stand before the first line. -/
def dropMark : List Char → List Char
  | c :: rest => if c = byteOrderMark then rest else c :: rest
  | [] => []

def closeLine (line : List Char) : List Char := line ++ ['\n']

def untilFence : List (List Char) → Option (List (List Char))
  | [] => none
  | line :: rest => if isFence line then some [] else (untilFence rest).map (line :: ·)

/-- The block without its fences, every line with its line feed. -/
def block? (content : String) : Option String :=
  match Text.segments '\n' (dropMark content.toList) with
  | first :: rest =>
    if isFence first then
      (untilFence rest).map fun lines => String.ofList (lines.flatMap closeLine)
    else none
  | [] => none

end ModelHub.FrontMatter
