import ModelHub.Failure.Error
import ModelHub.Files.Tree
import ModelHub.Store.Perform
import ModelHub.Store.Place
import ModelHub.Store.Snapshot

namespace ModelHub.Command

structure Site (m : Type → Type) where
  read : String → m (Except FileFault ByteArray)
  write : String → ByteArray → m (Except FileFault Unit)
  isThere : String → m Bool
  makeDirectories : String → m Bool
  now : m Instant

structure OpenStore where
  store : Store
  file : Option String
  isReadOnly : Bool

namespace OpenStore

def complaint : String := "attempt to write a readonly database"

def readOnly : HubError := .database complaint

/-- A store that must not be written refuses every order. -/
def perform (opened : OpenStore) (call : StoreCall) : Except HubError call.Reply × OpenStore :=
  if opened.isReadOnly && call.isOrder then (.error readOnly, opened)
  else
    let (reply, store) := opened.store.perform call
    (reply, { opened with store := store })

end OpenStore

def complaint : String := "unable to open database file"

def unusable : HubError := .database complaint

def noDirectory (path : String) : HubError :=
  .io ("Failed to create directory " ++ path) (some path)

namespace Site

variable {m : Type → Type} [Monad m]

def makeParent (site : Site m) (path : String) : ExceptT HubError m Unit := do
  let directory := Files.parent path
  if directory ≠ "" then
    unless ← site.isThere directory do
      unless ← site.makeDirectories directory do throw (noDirectory directory)

def save (site : Site m) (opened : OpenStore) : ExceptT HubError m Unit := do
  if let some path := opened.file then
    unless opened.isReadOnly do
      if let .error _ ← site.write path opened.store.toSnapshot then throw unusable

/-- The store in a file. Only some ways of access make a store where there is none. -/
def openFile (site : Site m) (path : String) (access : StoreAccess) :
    ExceptT HubError m OpenStore := do
  match ← site.read path with
  | .ok content =>
    match Store.ofSnapshot? content with
    | none => throw unusable
    | some store => return { store := store, file := some path, isReadOnly := access = .read }
  | .error .absent =>
    if access ≠ .create then throw unusable
    else return { store := {}, file := some path, isReadOnly := false }
  | .error (.unreadable _) => throw unusable

def openStore (site : Site m) (location : String) : ExceptT HubError m OpenStore := do
  site.makeParent location
  match StorePlace.ofText? location with
  | none => throw unusable
  | some .memory => return { store := {}, file := none, isReadOnly := false }
  | some (.file path access) =>
    let opened ← site.openFile path access
    site.save opened
    return opened

end Site

end ModelHub.Command
