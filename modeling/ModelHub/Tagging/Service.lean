import ModelHub.Engine.Program
import ModelHub.Manifest.LibraryTag
import ModelHub.Manifest.MetaTags

namespace ModelHub.Tagging

open Work (askStore)

def missing (repoType : RepoType) (owner name : String) : HubError :=
  .repositoryMissing repoType.name owner name

def findRepository (repoType : RepoType) (owner name : String) : Work Repository := do
  match ← askStore (.findRepository repoType owner name) with
  | some repository => return repository
  | none => throw (missing repoType owner name)

def link (repositoryId : Int) (scope : TagScope) (category : TagCategory) (group name : String) :
    Work Bool := do
  let tag ← askStore (.ensureTag scope category group name)
  askStore (.link repositoryId tag.id)

def unlink (repositoryId : Int) (scope : TagScope) (category : TagCategory) (group name : String) :
    Work Bool := do
  match ← askStore (.findTag scope category group name) with
  | some tag => askStore (.unlink repositoryId tag.id)
  | none => return false

def ensureDeclared (scope : TagScope) (declared : DeclaredTag) : Work Tag :=
  askStore (.ensureTag scope .declared declared.group declared.name)

def applyDeclared (scope : TagScope) (owner name content : String) : Work (List Tag) := do
  let declared ← ExceptT.mk (pure (MetaTags.declared content))
  let repository ← findRepository scope.repoType owner name
  let tags ← declared.mapM (ensureDeclared scope)
  askStore (.replaceTags repository.id .declared tags)
  return tags

def clearDeclared (scope : TagScope) (owner name : String) : Work Nat := do
  let repository ← findRepository scope.repoType owner name
  askStore (.unlinkCategory repository.id .declared)

def tagOf (scope : TagScope) (file : String) : Option String :=
  if file = "" then none else LibraryTag.ofFile? scope file

def switchLibrary (scope : TagScope) (owner name oldFile newFile : String) : Work Unit := do
  let old := tagOf scope oldFile
  let new := tagOf scope newFile
  if old = new then return ()
  let repository ← findRepository scope.repoType owner name
  if let some tag := old then
    let _ ← unlink repository.id scope .library "" tag
  if let some tag := new then
    let _ ← link repository.id scope .library "" tag

/-- Repositories of a type that bears no tags are left alone. -/
def updateLibrary (typeToken owner name oldFile newFile : String) : Work Unit :=
  match TagScope.ofToken? typeToken with
  | none => pure ()
  | some scope => switchLibrary scope owner name oldFile newFile

end ModelHub.Tagging
