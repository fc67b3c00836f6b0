import ModelHub.Failure.Error
import ModelHub.Store.Table
import ModelHub.Time.Rfc3339

namespace ModelHub

/-- A stored time that cannot be read makes the row unreadable. -/
def readTime (text : String) : Except HubError Instant :=
  match Rfc3339.parse? text with
  | some instant => .ok instant
  | none => .error (.database ("invalid timestamp '" ++ text ++ "': " ++ Rfc3339.complaint))

def readTime? : Option String → Except HubError (Option Instant)
  | none => .ok none
  | some text => (readTime text).map some

def RepositoryRow.isAt (repoType : RepoType) (owner name : String) (row : RepositoryRow) : Bool :=
  row.repoType = repoType && row.owner = owner && row.name = name

namespace Store

def mirror? (store : Store) (repositoryId : Int) : Option MirrorRow :=
  store.mirrors.find? fun row => row.repositoryId = repositoryId

def readRepository (store : Store) (row : RepositoryRow) : Except HubError Repository :=
  (readTime? row.updatedAt).map fun updatedAt =>
    { id := row.id, repoType := row.repoType, owner := row.owner, name := row.name
      defaultBranch := row.defaultBranch, isMirror := (store.mirror? row.id).isSome
      updatedAt := updatedAt }

def repositoryRow? (store : Store) (repoType : RepoType) (owner name : String) :
    Option RepositoryRow :=
  store.repositories.find? (RepositoryRow.isAt repoType owner name)

def findRepository (store : Store) (repoType : RepoType) (owner name : String) :
    Except HubError (Option Repository) :=
  match store.repositoryRow? repoType owner name with
  | none => .ok none
  | some row => (store.readRepository row).map some

/-- Adds a repository, or gives the one that is there its default branch. Either way a number is used
up. -/
def upsertRepository (store : Store) (repoType : RepoType) (owner name defaultBranch : String) :
    Store :=
  let id := store.lastRepositoryId + 1
  match store.repositoryRow? repoType owner name with
  | some _ =>
    { store with
      repositories := store.repositories.map fun row =>
        if row.isAt repoType owner name then { row with defaultBranch := defaultBranch } else row
      lastRepositoryId := id }
  | none =>
    { store with
      repositories := store.repositories ++ [{ id, repoType, owner, name, defaultBranch }]
      lastRepositoryId := id }

def markMirror (store : Store) (repositoryId : Int) (source : String) : Store :=
  match store.mirror? repositoryId with
  | some _ =>
    { store with mirrors := store.mirrors.map fun row =>
        if row.repositoryId = repositoryId then { row with source := source } else row }
  | none => { store with mirrors := store.mirrors ++ [{ repositoryId, source }] }

def mirrorUpdatedAt (store : Store) (repositoryId : Int) : Except HubError (Option Instant) :=
  readTime? ((store.mirror? repositoryId).bind MirrorRow.updatedAt)

def writeUpdatedAt (store : Store) (repositoryId : Int) (text : Option String) : Store :=
  { store with repositories := store.repositories.map fun row =>
      if row.id = repositoryId then { row with updatedAt := text } else row }

def setUpdatedAt (store : Store) (repositoryId : Int) (instant : Instant) : Store :=
  store.writeUpdatedAt repositoryId (some (Rfc3339.render instant))

def writeMirrorTime (store : Store) (repositoryId : Int) (text : Option String) : Store :=
  { store with mirrors := store.mirrors.map fun row =>
      if row.repositoryId = repositoryId then { row with updatedAt := text } else row }

def touchMirror (store : Store) (repositoryId : Int) (instant : Instant) : Bool × Store :=
  ((store.mirror? repositoryId).isSome,
    store.writeMirrorTime repositoryId (some (Rfc3339.render instant)))

end Store

end ModelHub
