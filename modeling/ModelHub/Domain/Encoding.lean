import ModelHub.Domain.Identity
import ModelHub.Domain.Record
import ModelHub.Json.Decoder
import ModelHub.Time.Rfc3339

namespace ModelHub

open Json (fields required optional nullable asText asBool asInt64 asInt32 asName)

def RepoType.toJson (t : RepoType) : Json := .text t.name
def RepoType.ofJson? : Json → Option RepoType := asName RepoType.ofName?

def TagScope.toJson (scope : TagScope) : Json := .text scope.name
def TagScope.ofJson? : Json → Option TagScope := asName TagScope.ofName?

def TagCategory.toJson (category : TagCategory) : Json := .text category.name
def TagCategory.ofJson? : Json → Option TagCategory := asName TagCategory.ofName?

def Instant.toJson (instant : Instant) : Json := .text (Rfc3339.renderZulu instant)

def Instant.ofJson? (value : Json) : Option Instant := do
  let text ← asText value
  Rfc3339.parseLenient? text

namespace RepoIdentity

def toJson (identity : RepoIdentity) : Json :=
  .object [("type_token", .text identity.typeToken),
    ("repo_type", .ofOption RepoType.toJson identity.repoType),
    ("namespace", .text identity.owner), ("name", .text identity.name)]

def ofJson? (value : Json) : Option RepoIdentity := do
  let [typeToken, repoType, owner, name] ←
    fields ["type_token", "repo_type", "namespace", "name"] value | none
  some { typeToken := ← required asText typeToken
         repoType := ← optional RepoType.ofJson? repoType
         owner := ← required asText owner
         name := ← required asText name }

end RepoIdentity

namespace Repository

def toJson (repository : Repository) : Json :=
  .object [("id", .int repository.id), ("repo_type", repository.repoType.toJson),
    ("namespace", .text repository.owner), ("name", .text repository.name),
    ("default_branch", .text repository.defaultBranch), ("mirror", .bool repository.isMirror),
    ("updated_at", .ofOption Instant.toJson repository.updatedAt)]

def ofJson? (value : Json) : Option Repository := do
  let [id, repoType, owner, name, defaultBranch, isMirror, updatedAt] ←
    fields ["id", "repo_type", "namespace", "name", "default_branch", "mirror", "updated_at"] value
    | none
  some { id := ← required asInt64 id
         repoType := ← required RepoType.ofJson? repoType
         owner := ← required asText owner
         name := ← required asText name
         defaultBranch := ← required asText defaultBranch
         isMirror := ← required asBool isMirror
         updatedAt := ← optional Instant.ofJson? updatedAt }

end Repository

namespace Tag

def toJson (tag : Tag) : Json :=
  .object [("id", .int tag.id), ("scope", tag.scope.toJson), ("category", tag.category.toJson),
    ("group", .text tag.group), ("name", .text tag.name)]

def ofJson? (value : Json) : Option Tag := do
  let [id, scope, category, group, name] ←
    fields ["id", "scope", "category", "group", "name"] value | none
  some { id := ← required asInt64 id
         scope := ← required TagScope.ofJson? scope
         category := ← required TagCategory.ofJson? category
         group := ← required asText group
         name := ← required asText name }

end Tag

namespace DeclaredTag

def toJson (tag : DeclaredTag) : Json :=
  .object [("group", .text tag.group), ("name", .text tag.name)]

def ofJson? (value : Json) : Option DeclaredTag := do
  let [group, name] ← fields ["group", "name"] value | none
  some { group := ← required asText group, name := ← required asText name }

end DeclaredTag

namespace Framework

def toJson (framework : Framework) : Json :=
  .object [("id", .int framework.id), ("name", .text framework.name),
    ("tag_name", .text framework.tagName), ("framework_type", .int framework.frameworkType)]

def ofJson? (value : Json) : Option Framework := do
  let [id, name, tagName, frameworkType] ←
    fields ["id", "name", "tag_name", "framework_type"] value | none
  some { id := ← required asInt64 id
         name := ← required asText name
         tagName := ← required asText tagName
         frameworkType := ← required asInt32 frameworkType }

end Framework

namespace Candidate

def toJson (candidate : Candidate) : Json :=
  .object [("runtime_framework_id", .int candidate.frameworkId),
    ("association_type", .int candidate.associationType)]

def ofJson? (value : Json) : Option Candidate := do
  let [frameworkId, associationType] ← fields ["runtime_framework_id", "association_type"] value
    | none
  some { frameworkId := ← required asInt64 frameworkId
         associationType := ← required asInt32 associationType }

end Candidate

namespace Association

def toJson (association : Association) : Json :=
  .object [("repository_id", .int association.repositoryId),
    ("runtime_framework_id", .int association.frameworkId),
    ("association_type", .int association.associationType)]

def ofJson? (value : Json) : Option Association := do
  let [repositoryId, frameworkId, associationType] ←
    fields ["repository_id", "runtime_framework_id", "association_type"] value | none
  some { repositoryId := ← required asInt64 repositoryId
         frameworkId := ← required asInt64 frameworkId
         associationType := ← required asInt32 associationType }

end Association

end ModelHub
