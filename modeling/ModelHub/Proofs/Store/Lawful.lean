import Mathlib.Data.List.Nodup
import ModelHub.Store.Catalogue
import ModelHub.Store.Perform

namespace ModelHub

structure TagKey where
  scope : String
  category : String
  group : String
  name : String
  deriving DecidableEq, Repr

def TagRow.key (row : TagRow) : TagKey :=
  { scope := row.scope, category := row.category, group := row.group, name := row.name }

def TagKey.of (scope : TagScope) (category : TagCategory) (group name : String) : TagKey :=
  { scope := scope.name, category := category.name, group := group, name := name }

theorem TagRow.isFor_iff {scope : TagScope} {category : TagCategory} {group name : String}
    {row : TagRow} : row.isFor scope category group name = true ↔
      row.key = TagKey.of scope category group name := by
  simp only [TagRow.isFor, TagRow.key, TagKey.of, Bool.and_eq_true, decide_eq_true_eq,
    TagKey.mk.injEq, and_assoc]

/-- What stays of a repository while it is pushed to: all but its time. -/
structure RepositoryPlace where
  id : Int
  repoType : RepoType
  owner : String
  name : String
  defaultBranch : String
  deriving DecidableEq, Repr

def RepositoryRow.place (row : RepositoryRow) : RepositoryPlace :=
  { id := row.id, repoType := row.repoType, owner := row.owner, name := row.name
    defaultBranch := row.defaultBranch }

def RepositoryRow.address (row : RepositoryRow) : RepoType × String × String :=
  (row.repoType, row.owner, row.name)

theorem RepositoryRow.isAt_iff {repoType : RepoType} {owner name : String} {row : RepositoryRow} :
    row.isAt repoType owner name = true ↔ row.address = (repoType, owner, name) := by
  simp only [RepositoryRow.isAt, RepositoryRow.address, Bool.and_eq_true, decide_eq_true_eq,
    Prod.mk.injEq, and_assoc]

theorem nodup_insertNew {α : Type} [DecidableEq α] {row : α} {table : List α}
    (unique : table.Nodup) : (insertNew row table).Nodup := by
  unfold insertNew
  split
  · exact unique
  · next absent =>
    rw [List.nodup_append]
    refine ⟨unique, List.nodup_singleton row, ?_⟩
    intro a member b single same
    rw [List.mem_singleton] at single
    exact absent (single ▸ same ▸ member)

theorem nodup_insertAll {α : Type} [DecidableEq α] {rows table : List α} (unique : table.Nodup) :
    (insertAll rows table).Nodup := by
  induction rows generalizing table with
  | nil => exact unique
  | cons row rest ih => exact ih (nodup_insertNew unique)

theorem nodup_map_append {α β : Type} {view : α → β} {table : List α} {row : α}
    (unique : (table.map view).Nodup) (fresh : ∀ other ∈ table, view other ≠ view row) :
    ((table ++ [row]).map view).Nodup := by
  rw [List.map_append, List.map_singleton, List.nodup_append]
  refine ⟨unique, List.nodup_singleton _, ?_⟩
  intro image member other single same
  obtain ⟨old, oldMember, rfl⟩ := List.mem_map.mp member
  exact fresh old oldMember (same.trans (List.mem_singleton.mp single))

theorem map_edit {α β : Type} (view : α → β) (edit : α → α) (table : List α)
    (kept : ∀ row, view (edit row) = view row) : (table.map edit).map view = table.map view := by
  rw [List.map_map]
  exact List.map_congr_left fun row _ => kept row

namespace Store

structure Lawful (store : Store) : Prop where
  repositoryIds : (store.repositories.map RepositoryRow.id).Nodup
  addresses : (store.repositories.map RepositoryRow.address).Nodup
  repositoryNumbers : ∀ row ∈ store.repositories, row.id ≤ store.lastRepositoryId
  mirrorIds : (store.mirrors.map MirrorRow.repositoryId).Nodup
  tagIds : (store.tags.map TagRow.id).Nodup
  tagKeys : (store.tags.map TagRow.key).Nodup
  tagNumbers : ∀ row ∈ store.tags, row.id ≤ store.lastTagId
  links : store.links.Nodup
  frameworkIds : (store.frameworks.map Framework.id).Nodup
  compatibilities : store.compatibilities.Nodup
  resources : store.resources.Nodup
  associations : store.associations.Nodup

theorem lawful_empty : ({} : Store).Lawful := by
  constructor <;> simp

namespace Lawful

variable {store : Store}

theorem tag_of_key (lawful : store.Lawful) {row other : TagRow} (member : row ∈ store.tags)
    (otherMember : other ∈ store.tags) (same : row.key = other.key) : row = other :=
  List.inj_on_of_nodup_map lawful.tagKeys member otherMember same

theorem tag_of_id (lawful : store.Lawful) {row other : TagRow} (member : row ∈ store.tags)
    (otherMember : other ∈ store.tags) (same : row.id = other.id) : row = other :=
  List.inj_on_of_nodup_map lawful.tagIds member otherMember same

theorem place_of_id (lawful : store.Lawful) {place other : RepositoryPlace}
    (member : place ∈ store.repositories.map RepositoryRow.place)
    (otherMember : other ∈ store.repositories.map RepositoryRow.place) (same : place.id = other.id) :
    place = other := by
  obtain ⟨row, rowMember, rfl⟩ := List.mem_map.mp member
  obtain ⟨otherRow, otherRowMember, rfl⟩ := List.mem_map.mp otherMember
  rw [List.inj_on_of_nodup_map lawful.repositoryIds rowMember otherRowMember same]

theorem framework_of_id (lawful : store.Lawful) {framework other : Framework}
    (member : framework ∈ store.frameworks) (otherMember : other ∈ store.frameworks)
    (same : framework.id = other.id) : framework = other :=
  List.inj_on_of_nodup_map lawful.frameworkIds member otherMember same

theorem framework?_eq (lawful : store.Lawful) {framework : Framework}
    (member : framework ∈ store.frameworks) : store.framework? framework.id = some framework := by
  unfold Store.framework?
  cases found : store.frameworks.find? fun other => other.id = framework.id with
  | none =>
    have absent := List.find?_eq_none.mp found framework member
    simp at absent
  | some other =>
    have same : other.id = framework.id := by simpa using List.find?_some found
    rw [lawful.framework_of_id (List.mem_of_find?_eq_some found) member same]

theorem writeUpdatedAt (lawful : store.Lawful) (repositoryId : Int) (text : Option String) :
    (store.writeUpdatedAt repositoryId text).Lawful where
  __ := lawful
  repositoryIds := by
    unfold Store.writeUpdatedAt
    rw [map_edit RepositoryRow.id _ _ fun row => by split <;> rfl]
    exact lawful.repositoryIds
  addresses := by
    unfold Store.writeUpdatedAt
    rw [map_edit RepositoryRow.address _ _ fun row => by split <;> rfl]
    exact lawful.addresses
  repositoryNumbers := by
    intro row member
    obtain ⟨old, oldMember, rfl⟩ := List.mem_map.mp member
    have kept :
        (if old.id = repositoryId then { old with updatedAt := text } else old).id = old.id := by
      split <;> rfl
    rw [kept]
    exact lawful.repositoryNumbers old oldMember

theorem writeMirrorTime (lawful : store.Lawful) (repositoryId : Int) (text : Option String) :
    (store.writeMirrorTime repositoryId text).Lawful where
  __ := lawful
  mirrorIds := by
    unfold Store.writeMirrorTime
    rw [map_edit MirrorRow.repositoryId _ _ fun row => by split <;> rfl]
    exact lawful.mirrorIds

theorem ensureTag (lawful : store.Lawful) (scope : TagScope) (category : TagCategory)
    (group name : String) : (store.ensureTag scope category group name).2.Lawful := by
  unfold Store.ensureTag
  split
  · exact { lawful with
      tagNumbers := fun row member => by
        have bound := lawful.tagNumbers row member
        show row.id ≤ store.lastTagId + 1
        omega }
  · next absent =>
    have fresh : ∀ row ∈ store.tags, row.key ≠ TagKey.of scope category group name := by
      intro row member same
      simp only [findTag?, Option.map_eq_none_iff, List.find?_eq_none] at absent
      exact absent row member (TagRow.isFor_iff.mpr same)
    refine { lawful with tagIds := ?_, tagKeys := ?_, tagNumbers := ?_ }
    · refine nodup_map_append lawful.tagIds ?_
      intro row member same
      have bound := lawful.tagNumbers row member
      have new : row.id = store.lastTagId + 1 := same
      omega
    · exact nodup_map_append lawful.tagKeys fresh
    · intro row member
      rcases List.mem_append.mp member with old | new
      · have bound := lawful.tagNumbers row old
        show row.id ≤ store.lastTagId + 1
        omega
      · exact Int.le_of_eq (congrArg TagRow.id (List.mem_singleton.mp new))

theorem link (lawful : store.Lawful) (repositoryId tagId : Int) :
    (store.link repositoryId tagId).2.Lawful :=
  { lawful with links := nodup_insertNew lawful.links }

theorem unlink (lawful : store.Lawful) (repositoryId tagId : Int) :
    (store.unlink repositoryId tagId).2.Lawful :=
  { lawful with links := lawful.links.filter _ }

theorem unlinkCategory (lawful : store.Lawful) (repositoryId : Int) (category : TagCategory) :
    (store.unlinkCategory repositoryId category).2.Lawful :=
  { lawful with links := lawful.links.filter _ }

theorem linkAll (lawful : store.Lawful) (repositoryId : Int) (tags : List Tag) :
    (store.linkAll repositoryId tags).Lawful := by
  induction tags generalizing store with
  | nil => exact lawful
  | cons tag rest ih => exact ih (lawful.link repositoryId tag.id)

theorem replaceTags (lawful : store.Lawful) {repositoryId : Int} {category : TagCategory}
    {tags : List Tag} {after : Store}
    (replaced : store.replaceTags repositoryId category tags = .ok after) : after.Lawful := by
  unfold Store.replaceTags at replaced
  split at replaced
  · cases replaced
  · obtain rfl := Except.ok.inj replaced
    exact (lawful.unlinkCategory repositoryId category).linkAll repositoryId tags

theorem associate (lawful : store.Lawful) (association : Association) :
    (store.associate association).2.Lawful :=
  { lawful with associations := nodup_insertNew lawful.associations }

theorem dissociate (lawful : store.Lawful) (association : Association) :
    (store.dissociate association).2.Lawful :=
  { lawful with associations := lawful.associations.filter _ }

theorem dissociateAll (lawful : store.Lawful) (repositoryId : Int) :
    (store.dissociateAll repositoryId).2.Lawful :=
  { lawful with associations := lawful.associations.filter _ }

theorem perform (lawful : store.Lawful) (call : StoreCall) : (store.perform call).2.Lawful := by
  cases call with
  | setUpdatedAt repositoryId instant => exact lawful.writeUpdatedAt repositoryId _
  | touchMirror repositoryId instant => exact lawful.writeMirrorTime repositoryId _
  | ensureTag scope category group name => exact lawful.ensureTag scope category group name
  | link repositoryId tagId => exact lawful.link repositoryId tagId
  | unlink repositoryId tagId => exact lawful.unlink repositoryId tagId
  | replaceTags repositoryId category tags =>
    simp only [Store.perform]
    split
    · next after replaced => exact lawful.replaceTags replaced
    · exact lawful
  | unlinkCategory repositoryId category => exact lawful.unlinkCategory repositoryId category
  | associate association => exact lawful.associate association
  | dissociate association => exact lawful.dissociate association
  | dissociateAll repositoryId => exact lawful.dissociateAll repositoryId
  | _ => exact lawful

theorem upsertRepository (lawful : store.Lawful) (repoType : RepoType)
    (owner name defaultBranch : String) :
    (store.upsertRepository repoType owner name defaultBranch).Lawful := by
  unfold Store.upsertRepository
  split
  · refine { lawful with repositoryIds := ?_, addresses := ?_, repositoryNumbers := ?_ }
    · rw [map_edit RepositoryRow.id _ _ fun row => by split <;> rfl]
      exact lawful.repositoryIds
    · rw [map_edit RepositoryRow.address _ _ fun row => by split <;> rfl]
      exact lawful.addresses
    · intro row member
      obtain ⟨old, oldMember, rfl⟩ := List.mem_map.mp member
      have bound := lawful.repositoryNumbers old oldMember
      show (if old.isAt repoType owner name then
        { old with defaultBranch := defaultBranch } else old).id ≤ store.lastRepositoryId + 1
      split
      · show old.id ≤ store.lastRepositoryId + 1
        omega
      · omega
  · next absent =>
    refine { lawful with repositoryIds := ?_, addresses := ?_, repositoryNumbers := ?_ }
    · refine nodup_map_append lawful.repositoryIds ?_
      intro row member same
      have bound := lawful.repositoryNumbers row member
      have new : row.id = store.lastRepositoryId + 1 := same
      omega
    · refine nodup_map_append lawful.addresses ?_
      intro row member same
      exact List.find?_eq_none.mp absent row member (RepositoryRow.isAt_iff.mpr same)
    · intro row member
      rcases List.mem_append.mp member with old | new
      · have bound := lawful.repositoryNumbers row old
        show row.id ≤ store.lastRepositoryId + 1
        omega
      · exact Int.le_of_eq (congrArg RepositoryRow.id (List.mem_singleton.mp new))

theorem upsertFramework (lawful : store.Lawful) (framework : Framework) :
    (store.upsertFramework framework).Lawful := by
  unfold Store.upsertFramework
  split
  · refine { lawful with frameworkIds := ?_ }
    have kept : ∀ row : Framework,
        (if row.id = framework.id then framework else row).id = row.id := by
      intro row
      split
      · next same => exact same.symm
      · rfl
    rw [map_edit Framework.id _ _ kept]
    exact lawful.frameworkIds
  · next absent =>
    refine { lawful with frameworkIds := nodup_map_append lawful.frameworkIds ?_ }
    intro row member same
    have other := List.find?_eq_none.mp absent row member
    exact other (decide_eq_true same)

theorem removeFramework (lawful : store.Lawful) (id : Int) :
    (store.removeFramework id).2.Lawful :=
  { lawful with
    frameworkIds := lawful.frameworkIds.sublist ((List.filter_sublist).map _)
    compatibilities := lawful.compatibilities.filter _ }

theorem addCompatibility (lawful : store.Lawful) (row : CompatibilityRow) :
    (store.addCompatibility row).Lawful :=
  { lawful with compatibilities := nodup_insertNew lawful.compatibilities }

theorem addResource (lawful : store.Lawful) (resource model : String) :
    (store.addResource resource model).Lawful :=
  { lawful with resources := nodup_insertNew lawful.resources }

theorem markMirror (lawful : store.Lawful) (repositoryId : Int) (source : String) :
    (store.markMirror repositoryId source).Lawful := by
  unfold Store.markMirror
  split
  · refine { lawful with mirrorIds := ?_ }
    rw [map_edit MirrorRow.repositoryId _ _ fun row => by split <;> rfl]
    exact lawful.mirrorIds
  · next absent =>
    refine { lawful with mirrorIds := nodup_map_append lawful.mirrorIds ?_ }
    intro row member same
    exact List.find?_eq_none.mp absent row member (decide_eq_true same)

end Lawful

end Store

end ModelHub
