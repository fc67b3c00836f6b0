import ModelHub.Domain.Encoding
import ModelHub.Store.Compatibility
import ModelHub.Store.Repositories

namespace ModelHub

structure CatalogueRepository where
  repoType : RepoType
  owner : String
  name : String
  defaultBranch : String
  mirrorOf : Option String
  deriving DecidableEq, Repr

structure CatalogueFramework where
  framework : Framework
  architectures : List String
  /-- The names of models it runs whatever their architecture. -/
  models : List String
  deriving DecidableEq, Repr

structure CatalogueResource where
  name : String
  models : List String
  deriving DecidableEq, Repr

structure Catalogue where
  repositories : List CatalogueRepository := []
  frameworks : List CatalogueFramework := []
  resources : List CatalogueResource := []
  retired : List Int := []
  deriving DecidableEq, Repr

open Json (fields required withDefault nullable asText asInt64 asInt32 asList)

def CatalogueRepository.ofJson? (value : Json) : Option CatalogueRepository := do
  let [repoType, owner, name, defaultBranch, mirrorOf] ←
    fields ["type", "namespace", "name", "default_branch", "mirror_of"] value | none
  some { repoType := ← required RepoType.ofJson? repoType
         owner := ← required asText owner
         name := ← required asText name
         defaultBranch := ← withDefault "" asText defaultBranch
         mirrorOf := ← withDefault none (nullable asText) mirrorOf }

def CatalogueFramework.ofJson? (value : Json) : Option CatalogueFramework := do
  let [id, name, tagName, frameworkType, architectures, models] ←
    fields ["id", "name", "tag_name", "framework_type", "architectures", "models"] value | none
  let framework : Framework :=
    { id := ← required asInt64 id
      name := ← required asText name
      tagName := ← required asText tagName
      frameworkType := ← withDefault 1 asInt32 frameworkType }
  some { framework := framework
         architectures := ← withDefault [] (asList asText) architectures
         models := ← withDefault [] (asList asText) models }

def CatalogueResource.ofJson? (value : Json) : Option CatalogueResource := do
  let [name, models] ← fields ["name", "models"] value | none
  some { name := ← required asText name, models := ← required (asList asText) models }

namespace Catalogue

def ofJson? (value : Json) : Option Catalogue := do
  let [repositories, frameworks, resources, retired] ←
    fields ["repositories", "frameworks", "resources", "retired_frameworks"] value | none
  some { repositories := ← withDefault [] (asList CatalogueRepository.ofJson?) repositories
         frameworks := ← withDefault [] (asList CatalogueFramework.ofJson?) frameworks
         resources := ← withDefault [] (asList CatalogueResource.ofJson?) resources
         retired := ← withDefault [] (asList asInt64) retired }

end Catalogue

namespace Store

def vanished (owner name : String) : HubError :=
  .database ("repository " ++ owner ++ "/" ++ name ++ " vanished")

/-- Adds or updates a repository and reads it back, which fails if its time is unreadable. -/
def putRepository (store : Store) (repoType : RepoType) (owner name defaultBranch : String) :
    Except HubError Repository × Store :=
  let store := store.upsertRepository repoType owner name defaultBranch
  match store.findRepository repoType owner name with
  | .ok (some repository) => (.ok repository, store)
  | .ok none => (.error (vanished owner name), store)
  | .error e => (.error e, store)

def loadRepository (store : Store) (entry : CatalogueRepository) : Except HubError Unit × Store :=
  match store.putRepository entry.repoType entry.owner entry.name entry.defaultBranch with
  | (.error e, store) => (.error e, store)
  | (.ok repository, store) =>
    match entry.mirrorOf with
    | none => (.ok (), store)
    | some source => (.ok (), store.markMirror repository.id source)

def loadRepositories : List CatalogueRepository → Store → Except HubError Unit × Store
  | [], store => (.ok (), store)
  | entry :: rest, store =>
    match store.loadRepository entry with
    | (.error e, store) => (.error e, store)
    | (.ok _, store) => loadRepositories rest store

def loadFramework (store : Store) (entry : CatalogueFramework) : Store :=
  let id := entry.framework.id
  let store := store.upsertFramework entry.framework
  let store := entry.architectures.foldl (fun store name => store.addArchitecture id name) store
  entry.models.foldl (fun store name => store.addModel id name) store

def loadResource (store : Store) (entry : CatalogueResource) : Store :=
  entry.models.foldl (fun store model => store.addResource entry.name model) store

def retire (store : Store) (id : Int) : Store := (store.removeFramework id).2

/-- Loads repositories, then frameworks, then retires frameworks, then loads resources. -/
def load (store : Store) (catalogue : Catalogue) : Except HubError Unit × Store :=
  match loadRepositories catalogue.repositories store with
  | (.error e, store) => (.error e, store)
  | (.ok _, store) =>
    let store := catalogue.frameworks.foldl loadFramework store
    let store := catalogue.retired.foldl retire store
    (.ok (), catalogue.resources.foldl loadResource store)

end Store

end ModelHub
