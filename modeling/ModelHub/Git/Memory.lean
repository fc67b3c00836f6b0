import ModelHub.Engine.Call
import ModelHub.Failure.Error

/-!
A git server that keeps files in memory, of one revision each, so that the reference does not matter.
-/

namespace ModelHub

structure FileKey where
  repoType : RepoType
  owner : String
  name : String
  path : String
  deriving DecidableEq, Repr

structure MemoryGit where
  files : List (FileKey × String) := []
  failing : List String := []
  /-- Nanoseconds until an answer comes, if it ever does. -/
  delay : Option Nat := some 0
  deriving DecidableEq, Repr

namespace MemoryGit

def remove (git : MemoryGit) (key : FileKey) : MemoryGit :=
  { git with files := git.files.filter fun entry => entry.1 ≠ key }

def put (git : MemoryGit) (key : FileKey) (content : String) : MemoryGit :=
  { git with files := (key, content) :: (git.remove key).files }

def fail (git : MemoryGit) (path : String) : MemoryGit := { git with failing := path :: git.failing }

def outage (path : String) : HubError := .unavailable "memory" ("simulated outage for " ++ path)

def fetch (git : MemoryGit) (request : FileRequest) : Except HubError String :=
  if git.failing.contains request.path then .error (outage request.path)
  else
    match git.files.lookup ⟨request.repoType, request.owner, request.name, request.path⟩ with
    | some content => .ok content
    | none => .error (.manifestMissing request.path request.reference)

end MemoryGit

end ModelHub
