import ModelHub.Domain.Kind
import ModelHub.Time.Instant

namespace ModelHub

structure Repository where
  id : Int
  repoType : RepoType
  owner : String
  name : String
  /-- Empty when none was ever recorded. -/
  defaultBranch : String
  isMirror : Bool
  updatedAt : Option Instant
  deriving DecidableEq, Repr

namespace Repository

def path (repository : Repository) : String := repository.owner ++ "/" ++ repository.name

/-- The name under which models are looked up in the compatibility catalogue. -/
def modelName (repository : Repository) : String := repository.name

end Repository

structure Tag where
  id : Int
  scope : TagScope
  category : TagCategory
  /-- The front matter key of a declared tag, empty for the other categories. -/
  group : String
  name : String
  deriving DecidableEq, Repr

structure DeclaredTag where
  group : String
  name : String
  deriving DecidableEq, Repr

def DeclaredTag.le (a b : DeclaredTag) : Bool :=
  if a.group = b.group then decide (a.name ≤ b.name) else decide (a.group ≤ b.group)

structure Framework where
  id : Int
  name : String
  tagName : String
  frameworkType : Int
  deriving DecidableEq, Repr

structure Candidate where
  frameworkId : Int
  associationType : Int
  deriving DecidableEq, Repr

structure Association where
  repositoryId : Int
  frameworkId : Int
  associationType : Int
  deriving DecidableEq, Repr

end ModelHub
