import Mathlib.Order.BooleanAlgebra.Set
import ModelHub.Proofs.Store.Lawful

/-! The profile of a repository: what the hub has derived about it. Each order of the store changes
profiles in a simple way; a link to a number that no tag has is part of none. -/

namespace ModelHub

def Tag.key (tag : Tag) : TagKey := .of tag.scope tag.category tag.group tag.name

@[ext] structure Profile where
  associations : Set Association
  tags : Set TagKey

namespace Profile

variable (profile : Profile)

def tagged (key : TagKey) : Profile := { profile with tags := insert key profile.tags }

def untagged (key : TagKey) : Profile := { profile with tags := profile.tags \ {key} }

def retagged (category : TagCategory) (keys : Set TagKey) : Profile :=
  { profile with tags := {key | key ∈ profile.tags ∧ key.category ≠ category.name} ∪ keys }

def associated (association : Association) : Profile :=
  { profile with associations := insert association profile.associations }

def dissociated (association : Association) : Profile :=
  { profile with associations := profile.associations \ {association} }

def unassociated : Profile := { profile with associations := ∅ }

theorem tagged_tagged (key : TagKey) : (profile.tagged key).tagged key = profile.tagged key := by
  simp only [tagged, Set.insert_eq_of_mem (Set.mem_insert key profile.tags)]

end Profile

namespace Store

def Bears (store : Store) (repositoryId : Int) (key : TagKey) : Prop :=
  ∃ row ∈ store.tags, row.key = key ∧ ({ repositoryId, tagId := row.id } : TagLink) ∈ store.links

def profile (store : Store) (repositoryId : Int) : Profile where
  associations := {row | row ∈ store.associations ∧ row.repositoryId = repositoryId}
  tags := {key | store.Bears repositoryId key}

def Lists (store : Store) (tag : Tag) : Prop :=
  ∃ row ∈ store.tags, row.id = tag.id ∧ row.key = tag.key

variable {store : Store}

theorem profile_congr {after : Store} {repositoryId : Int} (tags : after.tags = store.tags)
    (links : after.links = store.links) (associations : after.associations = store.associations) :
    after.profile repositoryId = store.profile repositoryId := by
  simp only [profile, Bears, tags, links, associations]

theorem findTag?_eq_some {scope : TagScope} {category : TagCategory} {group name : String}
    {tag : Tag} (found : store.findTag? scope category group name = some tag) :
    store.Lists tag ∧ tag.key = TagKey.of scope category group name := by
  obtain ⟨row, isFirst, rfl⟩ := Option.map_eq_some_iff.mp found
  have key := TagRow.isFor_iff.mp (List.find?_some isFirst)
  exact ⟨⟨row, List.mem_of_find?_eq_some isFirst, rfl, key⟩, rfl⟩

theorem findTag?_eq_none {scope : TagScope} {category : TagCategory} {group name : String}
    (absent : store.findTag? scope category group name = none) :
    ∀ row ∈ store.tags, row.key ≠ TagKey.of scope category group name := by
  intro row member same
  rw [findTag?, Option.map_eq_none_iff, List.find?_eq_none] at absent
  exact absent row member (TagRow.isFor_iff.mpr same)

theorem ensureTag_cases (scope : TagScope) (category : TagCategory) (group name : String) :
    (store.ensureTag scope category group name).2.tags = store.tags ∨
      ∃ row, (store.ensureTag scope category group name).2.tags = store.tags ++ [row] ∧
        row.key = TagKey.of scope category group name ∧ row.id = store.lastTagId + 1 := by
  unfold ensureTag
  split
  · exact Or.inl rfl
  · exact Or.inr ⟨_, rfl, rfl, rfl⟩

theorem ensureTag_lists (scope : TagScope) (category : TagCategory) (group name : String) :
    (store.ensureTag scope category group name).2.Lists
        (store.ensureTag scope category group name).1 ∧
      (store.ensureTag scope category group name).1.key = TagKey.of scope category group name := by
  unfold ensureTag
  split
  · next tag found => exact findTag?_eq_some found
  · exact ⟨⟨_, List.mem_append_right _ (List.mem_singleton.mpr rfl), rfl, rfl⟩, rfl⟩

theorem ensureTag_links (scope : TagScope) (category : TagCategory) (group name : String) :
    (store.ensureTag scope category group name).2.links = store.links := by
  unfold ensureTag
  split <;> rfl

theorem ensureTag_associations (scope : TagScope) (category : TagCategory) (group name : String) :
    (store.ensureTag scope category group name).2.associations = store.associations := by
  unfold ensureTag
  split <;> rfl

/-- A new tag may take the number of a link that was there before it. -/
theorem profile_ensureTag (repositoryId : Int) (scope : TagScope) (category : TagCategory)
    (group name : String) :
    (store.ensureTag scope category group name).2.profile repositoryId =
        store.profile repositoryId ∨
      (store.ensureTag scope category group name).2.profile repositoryId =
        (store.profile repositoryId).tagged (.of scope category group name) := by
  have links := store.ensureTag_links scope category group name
  have associations := store.ensureTag_associations scope category group name
  rcases store.ensureTag_cases scope category group name with same | ⟨row, added, key, -⟩
  · exact Or.inl (profile_congr same links associations)
  · by_cases linked : ({ repositoryId, tagId := row.id } : TagLink) ∈ store.links
    · right
      apply Profile.ext
      · simp only [profile, Profile.tagged, associations]
      · ext other
        simp only [profile, Profile.tagged, Bears, added, links, Set.mem_insert_iff,
          Set.mem_ofPred_eq, List.mem_append, List.mem_singleton]
        constructor
        · rintro ⟨found, member | rfl, rfl, isLinked⟩
          · exact Or.inr ⟨found, member, rfl, isLinked⟩
          · exact Or.inl key
        · rintro (rfl | ⟨found, member, same, isLinked⟩)
          · exact ⟨row, Or.inr rfl, key, linked⟩
          · exact ⟨found, Or.inl member, same, isLinked⟩
    · left
      apply Profile.ext
      · simp only [profile, associations]
      · ext other
        simp only [profile, Bears, added, links, Set.mem_ofPred_eq, List.mem_append,
          List.mem_singleton]
        constructor
        · rintro ⟨found, member | rfl, same, isLinked⟩
          · exact ⟨found, member, same, isLinked⟩
          · exact absurd isLinked linked
        · rintro ⟨found, member, same, isLinked⟩
          exact ⟨found, Or.inl member, same, isLinked⟩

theorem bears_link (lawful : store.Lawful) {row : TagRow} (member : row ∈ store.tags)
    (repositoryId other : Int) (key : TagKey) :
    (store.link repositoryId row.id).2.Bears other key ↔
      store.Bears other key ∨ other = repositoryId ∧ key = row.key := by
  simp only [Bears, link, mem_insertNew, TagLink.mk.injEq]
  constructor
  · rintro ⟨found, foundMember, rfl, ⟨rfl, same⟩ | linked⟩
    · rw [lawful.tag_of_id foundMember member same]
      exact Or.inr ⟨rfl, rfl⟩
    · exact Or.inl ⟨found, foundMember, rfl, linked⟩
  · rintro (⟨found, foundMember, same, linked⟩ | ⟨rfl, rfl⟩)
    · exact ⟨found, foundMember, same, Or.inr linked⟩
    · exact ⟨row, member, rfl, Or.inl ⟨rfl, rfl⟩⟩

theorem bears_unlink (lawful : store.Lawful) {row : TagRow} (member : row ∈ store.tags)
    (repositoryId other : Int) (key : TagKey) :
    (store.unlink repositoryId row.id).2.Bears other key ↔
      store.Bears other key ∧ ¬(other = repositoryId ∧ key = row.key) := by
  simp only [Bears, unlink, mem_deleteRow, ne_eq, TagLink.mk.injEq]
  constructor
  · rintro ⟨found, foundMember, rfl, differs, linked⟩
    refine ⟨⟨found, foundMember, rfl, linked⟩, ?_⟩
    rintro ⟨rfl, same⟩
    exact differs ⟨rfl, congrArg TagRow.id (lawful.tag_of_key foundMember member same)⟩
  · rintro ⟨⟨found, foundMember, rfl, linked⟩, differs⟩
    refine ⟨found, foundMember, rfl, ?_, linked⟩
    rintro ⟨rfl, same⟩
    exact differs ⟨rfl, congrArg TagRow.key (lawful.tag_of_id foundMember member same)⟩

theorem hasCategory_iff (lawful : store.Lawful) {row : TagRow} (member : row ∈ store.tags)
    (category : TagCategory) :
    store.hasCategory category row.id = true ↔ row.category = category.name := by
  simp only [hasCategory, List.any_eq_true, Bool.and_eq_true, decide_eq_true_eq]
  constructor
  · rintro ⟨found, foundMember, same, isOf⟩
    rwa [← lawful.tag_of_id foundMember member same]
  · intro isOf
    exact ⟨row, member, rfl, isOf⟩

theorem bears_unlinkCategory (lawful : store.Lawful) (repositoryId other : Int)
    (category : TagCategory) (key : TagKey) :
    (store.unlinkCategory repositoryId category).2.Bears other key ↔
      store.Bears other key ∧ ¬(other = repositoryId ∧ key.category = category.name) := by
  have kept : ∀ row ∈ store.tags,
      (({ repositoryId := other, tagId := row.id } : TagLink) ∈
          (store.unlinkCategory repositoryId category).2.links ↔
        ({ repositoryId := other, tagId := row.id } : TagLink) ∈ store.links ∧
          ¬(other = repositoryId ∧ row.category = category.name)) := by
    intro row member
    simp only [unlinkCategory, deleteWhere, List.mem_filter, Bool.not_eq_true',
      Bool.and_eq_false_imp, decide_eq_true_eq, not_and]
    rw [← hasCategory_iff lawful member category, Bool.not_eq_true]
  constructor
  · rintro ⟨row, member, rfl, linked⟩
    obtain ⟨before, outside⟩ := (kept row member).mp linked
    exact ⟨⟨row, member, rfl, before⟩, outside⟩
  · rintro ⟨⟨row, member, rfl, before⟩, outside⟩
    exact ⟨row, member, rfl, (kept row member).mpr ⟨before, outside⟩⟩

theorem profile_link (lawful : store.Lawful) {tag : Tag} (listed : store.Lists tag)
    (repositoryId : Int) :
    (store.link repositoryId tag.id).2.profile repositoryId =
      (store.profile repositoryId).tagged tag.key := by
  obtain ⟨row, member, id, key⟩ := listed
  apply Profile.ext
  · rfl
  · ext other
    rw [← id, ← key]
    show (store.link repositoryId row.id).2.Bears repositoryId other ↔ _
    rw [bears_link lawful member, Profile.tagged, Set.mem_insert_iff]
    simp only [true_and]
    exact or_comm

theorem profile_unlink (lawful : store.Lawful) {tag : Tag} (listed : store.Lists tag)
    (repositoryId : Int) :
    (store.unlink repositoryId tag.id).2.profile repositoryId =
      (store.profile repositoryId).untagged tag.key := by
  obtain ⟨row, member, id, key⟩ := listed
  apply Profile.ext
  · rfl
  · ext other
    rw [← id, ← key]
    show (store.unlink repositoryId row.id).2.Bears repositoryId other ↔ _
    rw [bears_unlink lawful member, Profile.untagged, Set.mem_sdiff, Set.mem_singleton_iff]
    simp only [true_and]
    exact Iff.rfl

theorem untagged_of_absent {repositoryId : Int} {key : TagKey}
    (absent : ∀ row ∈ store.tags, row.key ≠ key) :
    (store.profile repositoryId).untagged key = store.profile repositoryId := by
  apply Profile.ext
  · rfl
  · refine Set.sdiff_singleton_eq_self ?_
    rintro ⟨row, member, same, -⟩
    exact absent row member same

theorem profile_unlinkCategory (lawful : store.Lawful) (repositoryId : Int)
    (category : TagCategory) :
    (store.unlinkCategory repositoryId category).2.profile repositoryId =
      (store.profile repositoryId).retagged category ∅ := by
  apply Profile.ext
  · rfl
  · ext key
    show (store.unlinkCategory repositoryId category).2.Bears repositoryId key ↔ _
    rw [bears_unlinkCategory lawful, Profile.retagged, Set.union_empty]
    simp only [true_and]
    exact Iff.rfl

theorem profile_linkAll (lawful : store.Lawful) (repositoryId : Int) {tags : List Tag}
    (listed : ∀ tag ∈ tags, store.Lists tag) :
    (store.linkAll repositoryId tags).profile repositoryId =
      { store.profile repositoryId with
        tags := (store.profile repositoryId).tags ∪ {key | ∃ tag ∈ tags, tag.key = key} } := by
  induction tags generalizing store with
  | nil =>
    apply Profile.ext
    · rfl
    · ext key
      simp [linkAll]
  | cons tag rest ih =>
    show ((store.link repositoryId tag.id).2.linkAll repositoryId rest).profile repositoryId = _
    rw [ih (lawful.link repositoryId tag.id) fun other member =>
        listed other (List.mem_cons_of_mem tag member),
      profile_link lawful (listed tag List.mem_cons_self)]
    apply Profile.ext
    · rfl
    · ext key
      simp only [Profile.tagged, List.mem_cons, exists_eq_or_imp, Set.mem_union, Set.mem_insert_iff,
        Set.mem_ofPred_eq, eq_comm (a := tag.key)]
      tauto

theorem profile_replaceTags (lawful : store.Lawful) {repositoryId : Int} {category : TagCategory}
    {tags : List Tag} {after : Store} (listed : ∀ tag ∈ tags, store.Lists tag)
    (replaced : store.replaceTags repositoryId category tags = .ok after) :
    after.profile repositoryId =
      (store.profile repositoryId).retagged category {key | ∃ tag ∈ tags, tag.key = key} := by
  unfold replaceTags at replaced
  split at replaced
  · cases replaced
  · obtain rfl := Except.ok.inj replaced
    rw [profile_linkAll (lawful.unlinkCategory repositoryId category) repositoryId listed,
      profile_unlinkCategory lawful]
    simp only [Profile.retagged, Set.union_empty]

theorem profile_associate {association : Association} {repositoryId : Int}
    (isOf : association.repositoryId = repositoryId) :
    (store.associate association).2.profile repositoryId =
      (store.profile repositoryId).associated association := by
  apply Profile.ext
  · ext row
    simp only [profile, associate, Profile.associated, mem_insertNew, Set.mem_insert_iff,
      Set.mem_ofPred_eq]
    constructor
    · rintro ⟨rfl | member, here⟩
      · exact Or.inl rfl
      · exact Or.inr ⟨member, here⟩
    · rintro (rfl | ⟨member, here⟩)
      · exact ⟨Or.inl rfl, isOf⟩
      · exact ⟨Or.inr member, here⟩
  · rfl

theorem profile_dissociate (association : Association) (repositoryId : Int) :
    (store.dissociate association).2.profile repositoryId =
      (store.profile repositoryId).dissociated association := by
  apply Profile.ext
  · ext row
    simp only [profile, dissociate, Profile.dissociated, mem_deleteRow, Set.mem_sdiff,
      Set.mem_singleton_iff, Set.mem_ofPred_eq]
    tauto
  · rfl

theorem profile_dissociateAll (repositoryId : Int) :
    (store.dissociateAll repositoryId).2.profile repositoryId =
      (store.profile repositoryId).unassociated := by
  apply Profile.ext
  · ext row
    simp [profile, dissociateAll, deleteWhere, Profile.unassociated]
  · rfl

theorem mem_associationsOf {repositoryId : Int} {row : Association} :
    row ∈ store.associationsOf repositoryId ↔ row ∈ (store.profile repositoryId).associations := by
  simp [associationsOf, profile]

end Store

end ModelHub
