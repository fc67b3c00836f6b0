import ModelHub.Domain.Encoding
import ModelHub.Json.Reader
import ModelHub.Json.Writer
import ModelHub.Store.Table

/-!
A store as a file: a byte that no text has, then a document with all rows of all tables, each row an
array of its fields.
-/

namespace ModelHub

open Json (asText asBool asInt64 asList nullable)

def RepositoryRow.toJson (row : RepositoryRow) : Json :=
  .arr [.int row.id, row.repoType.toJson, .text row.owner, .text row.name, .text row.defaultBranch,
    .ofOption .text row.updatedAt]

def RepositoryRow.ofJson? : Json → Option RepositoryRow
  | .arr [id, repoType, owner, name, defaultBranch, updatedAt] => do
    some { id := ← asInt64 id, repoType := ← RepoType.ofJson? repoType, owner := ← asText owner
           name := ← asText name, defaultBranch := ← asText defaultBranch
           updatedAt := ← nullable asText updatedAt }
  | _ => none

def MirrorRow.toJson (row : MirrorRow) : Json :=
  .arr [.int row.repositoryId, .text row.source, .ofOption .text row.updatedAt]

def MirrorRow.ofJson? : Json → Option MirrorRow
  | .arr [repositoryId, source, updatedAt] => do
    some { repositoryId := ← asInt64 repositoryId, source := ← asText source
           updatedAt := ← nullable asText updatedAt }
  | _ => none

def TagRow.toJson (row : TagRow) : Json :=
  .arr [.int row.id, .text row.scope, .text row.category, .text row.group, .text row.name]

def TagRow.ofJson? : Json → Option TagRow
  | .arr [id, scope, category, group, name] => do
    some { id := ← asInt64 id, scope := ← asText scope, category := ← asText category
           group := ← asText group, name := ← asText name }
  | _ => none

def TagLink.toJson (link : TagLink) : Json := .arr [.int link.repositoryId, .int link.tagId]

def TagLink.ofJson? : Json → Option TagLink
  | .arr [repositoryId, tagId] => do
    some { repositoryId := ← asInt64 repositoryId, tagId := ← asInt64 tagId }
  | _ => none

def CompatibilityRow.toJson (row : CompatibilityRow) : Json :=
  .arr [.int row.frameworkId, .text row.architecture, .text row.model]

def CompatibilityRow.ofJson? : Json → Option CompatibilityRow
  | .arr [frameworkId, architecture, model] => do
    some { frameworkId := ← asInt64 frameworkId, architecture := ← asText architecture
           model := ← asText model }
  | _ => none

def ResourceRow.toJson (row : ResourceRow) : Json := .arr [.text row.resource, .text row.model]

def ResourceRow.ofJson? : Json → Option ResourceRow
  | .arr [resource, model] => do some { resource := ← asText resource, model := ← asText model }
  | _ => none

namespace Store

def toJson (store : Store) : Json :=
  .arr [.arr (store.repositories.map RepositoryRow.toJson),
    .arr (store.mirrors.map MirrorRow.toJson), .arr (store.tags.map TagRow.toJson),
    .arr (store.links.map TagLink.toJson), .arr (store.frameworks.map Framework.toJson),
    .arr (store.compatibilities.map CompatibilityRow.toJson),
    .arr (store.resources.map ResourceRow.toJson),
    .arr (store.associations.map Association.toJson),
    .int store.lastRepositoryId, .int store.lastTagId]

def ofJson? : Json → Option Store
  | .arr [repositories, mirrors, tags, links, frameworks, compatibilities, resources, associations,
      lastRepositoryId, lastTagId] => do
    some { repositories := ← asList RepositoryRow.ofJson? repositories
           mirrors := ← asList MirrorRow.ofJson? mirrors
           tags := ← asList TagRow.ofJson? tags
           links := ← asList TagLink.ofJson? links
           frameworks := ← asList Framework.ofJson? frameworks
           compatibilities := ← asList CompatibilityRow.ofJson? compatibilities
           resources := ← asList ResourceRow.ofJson? resources
           associations := ← asList Association.ofJson? associations
           lastRepositoryId := ← asInt64 lastRepositoryId
           lastTagId := ← asInt64 lastTagId }
  | _ => none

def snapshotMark : UInt8 := 255

def toSnapshot (store : Store) : ByteArray :=
  ⟨#[snapshotMark]⟩ ++ store.toJson.compact.toUTF8

def ofSnapshot? (content : ByteArray) : Option Store :=
  if content.isEmpty then some {}
  else if content.get! 0 = snapshotMark then do
    let text ← String.fromUTF8? (content.extract 1 content.size)
    ofJson? (← Json.parse? text)
  else none

end Store

end ModelHub
