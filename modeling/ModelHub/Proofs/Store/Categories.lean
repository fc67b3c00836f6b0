import ModelHub.Proofs.Store.Profile

namespace ModelHub

namespace Store

def linksOf (store : Store) (category : TagCategory) : List TagLink :=
  store.links.filter fun link => store.hasCategory category link.tagId

def isLinkOf (store : Store) (repositoryId : Int) (category : TagCategory) (link : TagLink) : Bool :=
  link.repositoryId = repositoryId && store.hasCategory category link.tagId

variable {store : Store} {category other : TagCategory}

theorem linksOf_congr {after : Store} (tags : after.tags = store.tags)
    (links : after.links = store.links) (category : TagCategory) :
    after.linksOf category = store.linksOf category := by
  simp only [linksOf, hasCategory, tags, links]

theorem hasCategory_eq_true {tagId : Int} :
    store.hasCategory category tagId = true ↔
      ∃ row ∈ store.tags, row.id = tagId ∧ row.category = category.name := by
  simp only [hasCategory, List.any_eq_true, Bool.and_eq_true, decide_eq_true_eq]

theorem findTag?_parts {scope : TagScope} {group name : String} {tag : Tag}
    (found : store.findTag? scope category group name = some tag) :
    tag.scope = scope ∧ tag.category = category := by
  obtain ⟨row, -, rfl⟩ := Option.map_eq_some_iff.mp found
  exact ⟨rfl, rfl⟩

theorem ensureTag_parts (scope : TagScope) (category : TagCategory) (group name : String) :
    (store.ensureTag scope category group name).1.scope = scope ∧
      (store.ensureTag scope category group name).1.category = category := by
  unfold ensureTag
  split
  · next tag found => exact findTag?_parts found
  · exact ⟨rfl, rfl⟩

theorem Lists.hasCategory {tag : Tag} (listed : store.Lists tag) :
    store.hasCategory tag.category tag.id = true := by
  obtain ⟨row, member, id, key⟩ := listed
  exact hasCategory_eq_true.mpr ⟨row, member, id, congrArg TagKey.category key⟩

theorem Lawful.hasCategory_unique (lawful : store.Lawful) {tagId : Int}
    (isOf : store.hasCategory category tagId = true)
    (isOfOther : store.hasCategory other tagId = true) : category = other := by
  obtain ⟨row, member, id, named⟩ := hasCategory_eq_true.mp isOf
  obtain ⟨otherRow, otherMember, otherId, otherNamed⟩ := hasCategory_eq_true.mp isOfOther
  have same := lawful.tag_of_id member otherMember (id.trans otherId.symm)
  apply TagCategory.name_injective
  rw [← named, ← otherNamed, same]

theorem Lawful.hasCategory_of_ne (lawful : store.Lawful) {tagId : Int}
    (isOf : store.hasCategory category tagId = true) (differs : other ≠ category) :
    store.hasCategory other tagId = false := by
  rw [← Bool.not_eq_true]
  intro isOfOther
  exact differs (lawful.hasCategory_unique isOfOther isOf)

theorem linksOf_ensureTag (scope : TagScope) (group name : String) (differs : other ≠ category) :
    (store.ensureTag scope category group name).2.linksOf other = store.linksOf other := by
  have links := store.ensureTag_links scope category group name
  rcases store.ensureTag_cases scope category group name with same | ⟨row, added, key, -⟩
  · exact linksOf_congr same links other
  · have isOther : row.category ≠ other.name := by
      intro same
      have named : row.category = category.name := congrArg TagKey.category key
      exact differs (TagCategory.name_injective (same.symm.trans named))
    simp [linksOf, hasCategory, added, links, isOther]

theorem linksOf_link (lawful : store.Lawful) {tag : Tag} (listed : store.Lists tag)
    (repositoryId : Int) (differs : other ≠ tag.category) :
    (store.link repositoryId tag.id).2.linksOf other = store.linksOf other := by
  have isOther := lawful.hasCategory_of_ne listed.hasCategory differs
  show (insertNew _ store.links).filter (fun link => store.hasCategory other link.tagId) = _
  unfold insertNew
  split
  · rfl
  · rw [List.filter_append, List.filter_singleton, isOther]
    exact List.append_nil _

theorem linksOf_filter {keep : TagLink → Bool}
    (kept : ∀ link, store.hasCategory other link.tagId = true → keep link = true) :
    linksOf { store with links := store.links.filter keep } other = store.linksOf other := by
  show (store.links.filter keep).filter (fun link => store.hasCategory other link.tagId) = _
  rw [List.filter_filter]
  refine List.filter_congr fun link _ => ?_
  cases isOf : store.hasCategory other link.tagId with
  | false => rfl
  | true => exact kept link isOf

theorem linksOf_unlink (lawful : store.Lawful) {tag : Tag} (listed : store.Lists tag)
    (repositoryId : Int) (differs : other ≠ tag.category) :
    (store.unlink repositoryId tag.id).2.linksOf other = store.linksOf other := by
  refine linksOf_filter fun link isOf => decide_eq_true ?_
  rintro rfl
  exact differs (lawful.hasCategory_unique isOf listed.hasCategory)

theorem linksOf_unlinkCategory (lawful : store.Lawful) (repositoryId : Int)
    (differs : other ≠ category) :
    (store.unlinkCategory repositoryId category).2.linksOf other = store.linksOf other := by
  refine linksOf_filter fun link isOf => ?_
  simp [lawful.hasCategory_of_ne isOf differs.symm]

end Store

end ModelHub
