import ModelHub.Text.Split

namespace ModelHub.Files

def names (path : String) : List String := (Text.segments '/' path.toList).map String.ofList

def isAbsolute (path : String) : Bool := path.toList.head? = some '/'

/-- A path seen from another one. An absolute path is the same from everywhere. -/
def join (base path : String) : String :=
  if isAbsolute path then path
  else if base = "" || base.toList.getLast? = some '/' then base ++ path
  else base ++ "/" ++ path

/-- The path leads down only, by names. Dots and empty names inside it count for nothing. -/
def isPlain (path : String) : Bool :=
  !isAbsolute path && (names path).head? ≠ some "." && !(names path).contains ".."

def isIdle (name : String) : Bool := name = "" || name = "."

/-- One name more on a way without detours. Nothing is above the root. -/
def settle (fromRoot : Bool) (way : List String) (name : String) : List String :=
  if isIdle name then way
  else if name = ".." then
    if way.getLast? = some ".." || way.isEmpty && !fromRoot then way ++ [name] else way.dropLast
  else way ++ [name]

/-- The names of a path when every pair of dots has taken back the name before it. -/
def way (path : String) : List String := (names path).foldl (settle (isAbsolute path)) []

def rooted (path text : String) : String := if isAbsolute path then "/" ++ text else text

def direct (path : String) : String := rooted path (Text.join "/" (way path))

def dropIdleEnd (names : List String) : List String := (names.reverse.dropWhile isIdle).reverse

/-- The path of the directory that a path is in, as it is written; empty for a lone name. -/
def parent (path : String) : String :=
  rooted path (Text.join "/" (dropIdleEnd (dropIdleEnd ((names path).dropWhile (· = ""))).dropLast))

end ModelHub.Files
