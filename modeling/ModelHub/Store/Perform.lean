import ModelHub.Engine.Call
import ModelHub.Store.Associations
import ModelHub.Store.Compatibility
import ModelHub.Store.Repositories
import ModelHub.Store.Tags

namespace ModelHub.Store

/-- A call that fails leaves the store as it was. -/
def perform (store : Store) : (call : StoreCall) → Except HubError call.Reply × Store
  | .findRepository repoType owner name => (store.findRepository repoType owner name, store)
  | .setUpdatedAt repositoryId instant => (.ok (), store.setUpdatedAt repositoryId instant)
  | .touchMirror repositoryId instant =>
    let (present, store) := store.touchMirror repositoryId instant
    (.ok present, store)
  | .ensureTag scope category group name =>
    let (tag, store) := store.ensureTag scope category group name
    (.ok tag, store)
  | .findTag scope category group name => (.ok (store.findTag? scope category group name), store)
  | .listTags repositoryId category => (store.tagsOf repositoryId category, store)
  | .link repositoryId tagId =>
    let (isNew, store) := store.link repositoryId tagId
    (.ok isNew, store)
  | .unlink repositoryId tagId =>
    let (present, store) := store.unlink repositoryId tagId
    (.ok present, store)
  | .replaceTags repositoryId category tags =>
    match store.replaceTags repositoryId category tags with
    | .ok store => (.ok (), store)
    | .error e => (.error e, store)
  | .unlinkCategory repositoryId category =>
    let (count, store) := store.unlinkCategory repositoryId category
    (.ok count, store)
  | .listCandidates architecture model => (.ok (store.candidates architecture model), store)
  | .findFramework id => (.ok (store.framework? id), store)
  | .listResources model => (.ok (store.resourceNames model), store)
  | .listAssociations repositoryId => (.ok (store.associationsOf repositoryId), store)
  | .associate association =>
    let (isNew, store) := store.associate association
    (.ok isNew, store)
  | .dissociate association =>
    let (present, store) := store.dissociate association
    (.ok present, store)
  | .dissociateAll repositoryId =>
    let (count, store) := store.dissociateAll repositoryId
    (.ok count, store)

end ModelHub.Store
