import ModelHub.Manifest.MetaTags
import ModelHub.Proofs.Store.Profile

/-! The well-formedness of what the hub derives: tags are shaped as their category asks, links and
associations stand between rows that are there and fit each other. No table demands any of this, so
it rests on what the orders are given. -/

namespace ModelHub

def TagCategory.Admits (category : TagCategory) (scope : TagScope) (group name : String) : Prop :=
  match category with
  | library => group = ""
  | declared => group ∈ MetaTags.groups ∧ name ≠ ""
  | runtimeFramework => group = "" ∧ scope = .model
  | resource => group = "" ∧ scope = .model

/-- The place of an association: there is to be at most one in it. -/
def Association.slot (row : Association) : Int × Int := (row.repositoryId, row.frameworkId)

namespace Store

def Houses (store : Store) (repositoryId : Int) (repoType : RepoType) : Prop :=
  ∃ row ∈ store.repositories, row.id = repositoryId ∧ row.repoType = repoType

structure WellFormed (store : Store) : Prop where
  tags : ∀ row ∈ store.tags, ∃ tag : Tag, row.id = tag.id ∧ row.key = tag.key ∧
    tag.category.Admits tag.scope tag.group tag.name
  links : ∀ link ∈ store.links, ∃ tag, store.Lists tag ∧ tag.id = link.tagId ∧
    store.Houses link.repositoryId tag.scope.repoType
  associations : ∀ row ∈ store.associations, store.Houses row.repositoryId .model
  slots : (store.associations.map Association.slot).Nodup

theorem wellFormed_empty : ({} : Store).WellFormed := by
  constructor <;> simp

variable {store after : Store} {repositoryId : Int} {repoType : RepoType}

theorem houses_iff : store.Houses repositoryId repoType ↔
    ∃ place ∈ store.repositories.map RepositoryRow.place,
      place.id = repositoryId ∧ place.repoType = repoType := by
  simp only [Houses, List.mem_map, exists_exists_and_eq_and]
  exact Iff.rfl

theorem houses_congr (places : after.repositories.map RepositoryRow.place =
      store.repositories.map RepositoryRow.place) :
    after.Houses repositoryId repoType ↔ store.Houses repositoryId repoType := by
  rw [houses_iff, houses_iff, places]

theorem Houses.upsertRepository (houses : store.Houses repositoryId repoType) (otherType : RepoType)
    (owner name defaultBranch : String) :
    (store.upsertRepository otherType owner name defaultBranch).Houses repositoryId repoType := by
  obtain ⟨row, member, rfl, rfl⟩ := houses
  unfold Store.upsertRepository
  split
  · refine ⟨_, List.mem_map_of_mem member, ?_⟩
    split <;> exact ⟨rfl, rfl⟩
  · exact ⟨row, List.mem_append_left _ member, rfl, rfl⟩

theorem Lists.mono {tag : Tag} (listed : store.Lists tag) (tags : store.tags ⊆ after.tags) :
    after.Lists tag := by
  obtain ⟨row, member, same⟩ := listed
  exact ⟨row, tags member, same⟩

end Store

theorem TagScope.name_injective {scope other : TagScope} (same : scope.name = other.name) :
    scope = other := by
  have := congrArg ofName? same
  simpa using this

theorem Tag.parts_of_key {tag other : Tag} (same : tag.key = other.key) :
    tag.scope = other.scope ∧ tag.category = other.category ∧ tag.group = other.group ∧
      tag.name = other.name := by
  simp only [Tag.key, TagKey.of, TagKey.mk.injEq] at same
  exact ⟨TagScope.name_injective same.1, TagCategory.name_injective same.2.1, same.2.2⟩

namespace Store

namespace WellFormed

variable {store after : Store} {repositoryId : Int}

theorem admits (wellFormed : store.WellFormed) {tag : Tag} (listed : store.Lists tag) :
    tag.category.Admits tag.scope tag.group tag.name := by
  obtain ⟨row, member, -, key⟩ := listed
  obtain ⟨other, -, otherKey, admitted⟩ := wellFormed.tags row member
  obtain ⟨scope, category, group, name⟩ := Tag.parts_of_key (key.symm.trans otherKey)
  rw [scope, category, group, name]
  exact admitted

theorem of_less (wellFormed : store.WellFormed)
    (houses : ∀ id repoType, store.Houses id repoType → after.Houses id repoType)
    (tags : after.tags = store.tags) (links : after.links ⊆ store.links)
    (associations : after.associations.Sublist store.associations) : after.WellFormed where
  tags := tags ▸ wellFormed.tags
  links := by
    intro link member
    obtain ⟨tag, listed, same, housed⟩ := wellFormed.links link (links member)
    exact ⟨tag, listed.mono (tags ▸ List.Subset.refl _), same, houses _ _ housed⟩
  associations row member := houses _ _ (wellFormed.associations row (associations.subset member))
  slots := wellFormed.slots.sublist (associations.map _)

theorem ensureTag (wellFormed : store.WellFormed) {scope : TagScope} {category : TagCategory}
    {group name : String} (admitted : category.Admits scope group name) :
    (store.ensureTag scope category group name).2.WellFormed := by
  unfold Store.ensureTag
  split
  · exact wellFormed.of_less (fun _ _ => id) rfl (List.Subset.refl _) (List.Sublist.refl _)
  · refine ⟨?_, ?_, wellFormed.associations, wellFormed.slots⟩
    · intro row member
      rcases List.mem_append.mp member with old | new
      · exact wellFormed.tags row old
      · obtain rfl := List.mem_singleton.mp new
        exact ⟨⟨_, scope, category, group, name⟩, rfl, rfl, admitted⟩
    · intro link member
      obtain ⟨tag, listed, same, housed⟩ := wellFormed.links link member
      exact ⟨tag, listed.mono (List.subset_append_left _ _), same, housed⟩

theorem link (wellFormed : store.WellFormed) {tag : Tag} (listed : store.Lists tag)
    (housed : store.Houses repositoryId tag.scope.repoType) :
    (store.link repositoryId tag.id).2.WellFormed where
  tags := wellFormed.tags
  links := by
    intro link member
    rcases mem_insertNew.mp member with rfl | old
    · exact ⟨tag, listed, rfl, housed⟩
    · exact wellFormed.links link old
  associations := wellFormed.associations
  slots := wellFormed.slots

theorem unlinkCategory (wellFormed : store.WellFormed) (category : TagCategory) :
    (store.unlinkCategory repositoryId category).2.WellFormed :=
  wellFormed.of_less (fun _ _ => id) rfl (List.filter_subset_self _) (List.Sublist.refl _)

theorem associate (wellFormed : store.WellFormed) {association : Association}
    (housed : store.Houses association.repositoryId .model)
    (free : association.slot ∉ store.associations.map Association.slot) :
    (store.associate association).2.WellFormed where
  tags := wellFormed.tags
  links := wellFormed.links
  associations := by
    intro row member
    rcases mem_insertNew.mp member with rfl | old
    · exact housed
    · exact wellFormed.associations row old
  slots := by
    show ((insertNew association store.associations).map Association.slot).Nodup
    unfold insertNew
    split
    · exact wellFormed.slots
    · refine nodup_map_append wellFormed.slots fun other member same => free ?_
      exact same ▸ List.mem_map_of_mem member

end WellFormed

end Store

end ModelHub
