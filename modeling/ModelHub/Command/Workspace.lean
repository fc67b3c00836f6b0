import ModelHub.Command.Site

/-!
A computer that is a tree of files, with a working directory and a clock that stands still.
-/

namespace ModelHub.Command

structure Workspace where
  tree : FileTree
  here : List String
  now : Instant

namespace Workspace

def write (workspace : Workspace) (path : String) (content : ByteArray) :
    Except FileFault Unit × Workspace :=
  match workspace.tree.write workspace.here path content with
  | .ok tree => (.ok (), { workspace with tree := tree })
  | .error fault => (.error fault, workspace)

def makeDirectories (workspace : Workspace) (path : String) : Bool × Workspace :=
  match workspace.tree.makeDirectories workspace.here path with
  | some tree => (true, { workspace with tree := tree })
  | none => (false, workspace)

def isThere (workspace : Workspace) (path : String) : Bool :=
  match workspace.tree.locate workspace.here path with
  | .ok _ => true
  | .error _ => false

def site : Site (StateM Workspace) where
  read path := fun workspace => (workspace.tree.read workspace.here path, workspace)
  write path content := fun workspace => workspace.write path content
  isThere path := fun workspace => (workspace.isThere path, workspace)
  makeDirectories path := fun workspace => workspace.makeDirectories path
  now := fun workspace => (workspace.now, workspace)

end Workspace

end ModelHub.Command
