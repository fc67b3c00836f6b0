import ModelHub.Domain.Identity

namespace ModelHub

inductive FileAction where
  | modified | removed | added
  deriving DecidableEq, Repr

namespace FileAction

def order : List FileAction := [modified, removed, added]

def name : FileAction → String
  | modified => "modified"
  | removed => "removed"
  | added => "added"

def ofName? : String → Option FileAction
  | "modified" => some modified
  | "removed" => some removed
  | "added" => some added
  | _ => none

end FileAction

structure Commit where
  added : List String := []
  modified : List String := []
  removed : List String := []
  deriving DecidableEq, Repr, Inhabited

namespace Commit

def files (commit : Commit) : FileAction → List String
  | .modified => commit.modified
  | .removed => commit.removed
  | .added => commit.added

def withFiles (commit : Commit) (action : FileAction) (paths : List String) : Commit :=
  match action with
  | .added => { commit with added := commit.added ++ paths }
  | .modified => { commit with modified := commit.modified ++ paths }
  | .removed => { commit with removed := commit.removed ++ paths }

/-- All files of the commit with their actions, in processing order. -/
def walk (commit : Commit) : List (FileAction × String) :=
  FileAction.order.flatMap fun action => (commit.files action).map fun file => (action, file)

end Commit

structure PushEvent where
  fullName : String
  reference : String
  commits : List Commit := []
  headTimestamp : Option String := none
  deriving DecidableEq, Repr, Inhabited

namespace PushEvent

def withCommit (event : PushEvent) (commit : Commit) : PushEvent :=
  { event with commits := event.commits ++ [commit] }

def identity (event : PushEvent) : Except HubError RepoIdentity :=
  RepoIdentity.parse event.fullName

def walk (event : PushEvent) : List (FileAction × String) := event.commits.flatMap Commit.walk

end PushEvent

end ModelHub
