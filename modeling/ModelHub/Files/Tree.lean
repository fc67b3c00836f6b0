import ModelHub.Files.Path

namespace ModelHub

inductive FileFault where
  | absent
  | unreadable (reason : String)
  deriving DecidableEq, Repr

/-- Directories and files by the names that lead to them from the root, which is always there. -/
structure FileTree where
  entries : List (List String × Option ByteArray) := []

namespace FileTree

inductive Entry where
  | directory
  | file (content : ByteArray)

def find? (tree : FileTree) (way : List String) : Option Entry :=
  if way.isEmpty then some .directory
  else (tree.entries.lookup way).map fun
    | none => .directory
    | some content => .file content

def isDirectory (tree : FileTree) (way : List String) : Bool :=
  match tree.find? way with
  | some .directory => true
  | _ => false

def noDirectory : FileFault := .unreadable "not a directory"
def someDirectory : FileFault := .unreadable "is a directory"
def longName : FileFault := .unreadable "name too long"
def nullInName : FileFault := .unreadable "name with a null character"

def nameLimit : Nat := 255
def pathLimit : Nat := 4096

def follow (tree : FileTree) : List String → List String → Except FileFault (List String)
  | here, [] => .ok here
  | here, name :: rest =>
    if !tree.isDirectory here then .error noDirectory
    else if Files.isIdle name then follow tree here rest
    else if name = ".." then follow tree here.dropLast rest
    else if nameLimit < name.utf8ByteSize then .error longName
    else if (tree.find? (here ++ [name])).isSome then follow tree (here ++ [name]) rest
    else .error .absent

def start (here : List String) (path : String) : List String :=
  if Files.isAbsolute path then [] else here

def pathFault? (path : String) : Option FileFault :=
  if path.toList.contains '\x00' then some nullInName
  else if path = "" then some .absent
  else if pathLimit ≤ path.utf8ByteSize then some longName
  else none

def locate (tree : FileTree) (here : List String) (path : String) :
    Except FileFault (List String) :=
  match pathFault? path with
  | some fault => .error fault
  | none => tree.follow (start here path) (Files.names path)

def read (tree : FileTree) (here : List String) (path : String) : Except FileFault ByteArray := do
  match tree.find? (← tree.locate here path) with
  | some (.file content) => .ok content
  | some .directory => .error someDirectory
  | none => .error .absent

def put (tree : FileTree) (way : List String) (entry : Option ByteArray) : FileTree :=
  { entries := (way, entry) :: tree.entries.filter fun other => other.1 ≠ way }

/-- Writes a file where its directory is there and no directory has its name. -/
def write (tree : FileTree) (here : List String) (path : String) (content : ByteArray) :
    Except FileFault FileTree := do
  match (Files.names path).getLast? with
  | none => .error .absent
  | some name =>
    let directory ← tree.follow (start here path) (Files.names path).dropLast
    if !tree.isDirectory directory then .error noDirectory
    else if Files.isIdle name || name = ".." || tree.isDirectory (directory ++ [name]) then
      .error someDirectory
    else if nameLimit < name.utf8ByteSize then .error longName
    else .ok (tree.put (directory ++ [name]) (some content))

def makeWay (tree : FileTree) : List String → List String → Option FileTree
  | here, [] => if tree.isDirectory here then some tree else none
  | here, name :: rest =>
    if !tree.isDirectory here || nameLimit < name.utf8ByteSize then none
    else if Files.isIdle name then makeWay tree here rest
    else if name = ".." then makeWay tree here.dropLast rest
    else
      let next := here ++ [name]
      let tree := if (tree.find? next).isSome then tree else tree.put next none
      makeWay tree next rest

def putFile (tree : FileTree) (way : List String) (content : ByteArray) : FileTree :=
  ((tree.makeWay [] way.dropLast).getD tree).put way (some content)

/-- Makes a directory and those it is in, if nothing else bears one of their names. -/
def makeDirectories (tree : FileTree) (here : List String) (path : String) : Option FileTree :=
  match pathFault? path with
  | some _ => none
  | none => tree.makeWay (start here path) (Files.names path)

end FileTree

end ModelHub
