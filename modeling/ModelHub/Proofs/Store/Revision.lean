import ModelHub.Proofs.Store.Profile

namespace ModelHub

/-- Orders are for one repository; questions and the catalogue of tags are for all. -/
def StoreCall.Concerns (repositoryId : Int) : StoreCall → Prop
  | setUpdatedAt id _ => id = repositoryId
  | touchMirror id _ => id = repositoryId
  | link id _ => id = repositoryId
  | unlink id _ => id = repositoryId
  | replaceTags id _ _ => id = repositoryId
  | unlinkCategory id _ => id = repositoryId
  | dissociateAll id => id = repositoryId
  | associate association => association.repositoryId = repositoryId
  | dissociate association => association.repositoryId = repositoryId
  | ensureTag .. | findRepository .. | findTag .. | listTags .. | listCandidates .. => True
  | findFramework _ | listResources _ | listAssociations _ => True

def Store.HasTag (store : Store) (id : Int) : Prop := ∃ row ∈ store.tags, row.id = id

theorem Store.Lists.hasTag {store : Store} {tag : Tag} (listed : store.Lists tag) :
    store.HasTag tag.id := by
  obtain ⟨row, member, id, -⟩ := listed
  exact ⟨row, member, id⟩

def StoreCall.Names (store : Store) : StoreCall → Prop
  | link _ tagId => store.HasTag tagId
  | unlink _ tagId => store.HasTag tagId
  | replaceTags _ _ tags => ∀ tag ∈ tags, store.HasTag tag.id
  | findRepository .. | setUpdatedAt .. | touchMirror .. | ensureTag .. | findTag .. => True
  | listTags .. | unlinkCategory .. | listCandidates .. | findFramework _ | listResources _ => True
  | listAssociations _ | associate _ | dissociate _ | dissociateAll _ => True

structure Estate where
  repositories : Set RepositoryRow
  mirrors : Set MirrorRow
  links : Set TagLink
  associations : Set Association

def MirrorRow.origin (row : MirrorRow) : Int × String := (row.repositoryId, row.source)

namespace Store

def estate (store : Store) (repositoryId : Int) : Estate where
  repositories := {row | row ∈ store.repositories ∧ row.id = repositoryId}
  mirrors := {row | row ∈ store.mirrors ∧ row.repositoryId = repositoryId}
  links := {link | link ∈ store.links ∧ link.repositoryId = repositoryId}
  associations := {row | row ∈ store.associations ∧ row.repositoryId = repositoryId}

structure Revises (repositoryId : Int) (before after : Store) : Prop where
  places : after.repositories.map RepositoryRow.place = before.repositories.map RepositoryRow.place
  repositories : ∀ row : RepositoryRow, row.id ≠ repositoryId →
    (row ∈ after.repositories ↔ row ∈ before.repositories)
  origins : after.mirrors.map MirrorRow.origin = before.mirrors.map MirrorRow.origin
  mirrors : ∀ row : MirrorRow, row.repositoryId ≠ repositoryId →
    (row ∈ after.mirrors ↔ row ∈ before.mirrors)
  tags : before.tags <+: after.tags
  newTags : ∀ row ∈ after.tags, row ∈ before.tags ∨ before.lastTagId < row.id
  tagNumbers : before.lastTagId ≤ after.lastTagId
  links : ∀ link : TagLink, link.repositoryId ≠ repositoryId →
    (link ∈ after.links ↔ link ∈ before.links)
  /-- Links to numbers that no tag has. -/
  strays : ∀ link : TagLink, ¬after.HasTag link.tagId → (link ∈ after.links ↔ link ∈ before.links)
  associations : ∀ row : Association, row.repositoryId ≠ repositoryId →
    (row ∈ after.associations ↔ row ∈ before.associations)
  frameworks : after.frameworks = before.frameworks
  compatibilities : after.compatibilities = before.compatibilities
  resources : after.resources = before.resources
  lawful : before.Lawful → after.Lawful

namespace Revises

variable {repositoryId : Int} {before middle after : Store}

theorem refl (repositoryId : Int) (store : Store) : Revises repositoryId store store where
  places := rfl
  repositories _ _ := Iff.rfl
  origins := rfl
  mirrors _ _ := Iff.rfl
  tags := List.prefix_rfl
  newTags _ member := Or.inl member
  tagNumbers := Int.le_refl _
  links _ _ := Iff.rfl
  strays _ _ := Iff.rfl
  associations _ _ := Iff.rfl
  frameworks := rfl
  compatibilities := rfl
  resources := rfl
  lawful := id

theorem trans (first : Revises repositoryId before middle)
    (second : Revises repositoryId middle after) : Revises repositoryId before after where
  places := second.places.trans first.places
  repositories row other := (second.repositories row other).trans (first.repositories row other)
  origins := second.origins.trans first.origins
  mirrors row other := (second.mirrors row other).trans (first.mirrors row other)
  tags := first.tags.trans second.tags
  newTags row member := by
    rcases second.newTags row member with old | new
    · exact first.newTags row old
    · exact Or.inr (Int.lt_of_le_of_lt first.tagNumbers new)
  tagNumbers := Int.le_trans first.tagNumbers second.tagNumbers
  links link other := (second.links link other).trans (first.links link other)
  strays link absent := by
    have absentBefore : ¬middle.HasTag link.tagId := by
      intro present
      obtain ⟨row, member, same⟩ := present
      exact absent ⟨row, second.tags.mem member, same⟩
    exact (second.strays link absent).trans (first.strays link absentBefore)
  associations row other := (second.associations row other).trans (first.associations row other)
  frameworks := second.frameworks.trans first.frameworks
  compatibilities := second.compatibilities.trans first.compatibilities
  resources := second.resources.trans first.resources
  lawful := second.lawful ∘ first.lawful

theorem estate {other : Int} (revises : Revises repositoryId before after)
    (differs : other ≠ repositoryId) : after.estate other = before.estate other := by
  have restrict : ∀ {α : Type} (rowsBefore rowsAfter : List α) (f : α → Int),
      (∀ row, f row ≠ repositoryId → (row ∈ rowsAfter ↔ row ∈ rowsBefore)) →
        {row | row ∈ rowsAfter ∧ f row = other} = {row | row ∈ rowsBefore ∧ f row = other} := by
    intro α rowsBefore rowsAfter f kept
    ext row
    exact and_congr_left fun here => kept row (here ▸ differs)
  simp only [Store.estate, restrict _ _ _ revises.repositories, restrict _ _ _ revises.mirrors,
    restrict _ _ _ revises.links, restrict _ _ _ revises.associations]

theorem framework? (revises : Revises repositoryId before after) (id : Int) :
    after.framework? id = before.framework? id := by
  simp only [Store.framework?, revises.frameworks]

theorem candidates (revises : Revises repositoryId before after) (architecture model : String) :
    after.candidates architecture model = before.candidates architecture model := by
  simp only [Store.candidates, Store.joined, revises.frameworks, revises.compatibilities]

theorem resourceNames (revises : Revises repositoryId before after) (model : String) :
    after.resourceNames model = before.resourceNames model := by
  simp only [Store.resourceNames, revises.resources]

theorem lists (revises : Revises repositoryId before after) {tag : Tag}
    (listed : before.Lists tag) : after.Lists tag := by
  obtain ⟨row, member, id, key⟩ := listed
  exact ⟨row, revises.tags.mem member, id, key⟩

end Revises

variable {store : Store} {repositoryId : Int}

theorem mem_edit {α : Type} {table : List α} {f : α → Int} {edit : α → α} {id : Int} {row : α}
    (kept : ∀ other, f (edit other) = f other) (elsewhere : f row ≠ id) :
    (row ∈ table.map fun other => if f other = id then edit other else other) ↔
      row ∈ table := by
  constructor
  · intro member
    obtain ⟨old, oldMember, same⟩ := List.mem_map.mp member
    by_cases here : f old = id
    · rw [if_pos here] at same
      exact absurd ((congrArg f same.symm).trans ((kept old).trans here)) elsewhere
    · rw [if_neg here] at same
      exact same ▸ oldMember
  · intro member
    exact List.mem_map.mpr ⟨row, member, if_neg elsewhere⟩

theorem revises_writeUpdatedAt (text : Option String) :
    Revises repositoryId store (store.writeUpdatedAt repositoryId text) where
  __ := Revises.refl repositoryId store
  places := map_edit RepositoryRow.place _ _ fun row => by split <;> rfl
  repositories row other := by
    unfold writeUpdatedAt
    exact mem_edit (f := RepositoryRow.id) (fun _ => rfl) other
  lawful lawful := lawful.writeUpdatedAt repositoryId text

theorem revises_writeMirrorTime (text : Option String) :
    Revises repositoryId store (store.writeMirrorTime repositoryId text) where
  __ := Revises.refl repositoryId store
  origins := map_edit MirrorRow.origin _ _ fun row => by split <;> rfl
  mirrors row other := by
    unfold writeMirrorTime
    exact mem_edit (f := MirrorRow.repositoryId) (fun _ => rfl) other
  lawful lawful := lawful.writeMirrorTime repositoryId text

theorem revises_ensureTag (scope : TagScope) (category : TagCategory) (group name : String) :
    Revises repositoryId store (store.ensureTag scope category group name).2 := by
  have lawful := fun lawful : store.Lawful => lawful.ensureTag scope category group name
  revert lawful
  unfold ensureTag
  split
  · intro lawful
    exact { Revises.refl repositoryId store with
      tagNumbers := Int.le_add_of_nonneg_right (by decide)
      lawful := lawful }
  · intro lawful
    exact { Revises.refl repositoryId store with
      tags := List.prefix_append _ _
      newTags := fun row member => by
        rcases List.mem_append.mp member with old | new
        · exact Or.inl old
        · rw [List.mem_singleton.mp new]
          exact Or.inr (Int.lt_succ store.lastTagId)
      strays := fun _ _ => Iff.rfl
      tagNumbers := Int.le_add_of_nonneg_right (by decide)
      lawful := lawful }

theorem revises_link {tagId : Int} (present : store.HasTag tagId) :
    Revises repositoryId store (store.link repositoryId tagId).2 where
  __ := Revises.refl repositoryId store
  links link other := by
    simp only [Store.link, mem_insertNew]
    constructor
    · rintro (rfl | member)
      · exact absurd rfl other
      · exact member
    · exact Or.inr
  strays link absent := by
    simp only [Store.link, mem_insertNew]
    constructor
    · rintro (rfl | member)
      · exact absurd present absent
      · exact member
    · exact Or.inr
  lawful lawful := lawful.link repositoryId tagId

theorem revises_unlink {tagId : Int} (present : store.HasTag tagId) :
    Revises repositoryId store (store.unlink repositoryId tagId).2 where
  __ := Revises.refl repositoryId store
  links link other := by
    simp only [Store.unlink, mem_deleteRow]
    constructor
    · exact And.right
    · intro member
      refine ⟨?_, member⟩
      rintro rfl
      exact other rfl
  strays link absent := by
    simp only [Store.unlink, mem_deleteRow]
    constructor
    · exact And.right
    · intro member
      refine ⟨?_, member⟩
      rintro rfl
      exact absent present
  lawful lawful := lawful.unlink repositoryId tagId

theorem hasCategory_hasTag {category : TagCategory} {tagId : Int}
    (isOf : store.hasCategory category tagId = true) : store.HasTag tagId := by
  simp only [hasCategory, List.any_eq_true, Bool.and_eq_true, decide_eq_true_eq] at isOf
  obtain ⟨row, member, same, -⟩ := isOf
  exact ⟨row, member, same⟩

theorem revises_unlinkCategory (category : TagCategory) :
    Revises repositoryId store (store.unlinkCategory repositoryId category).2 where
  __ := Revises.refl repositoryId store
  links link other := by
    simp [Store.unlinkCategory, deleteWhere, other]
  strays link absent := by
    have uncategorised : store.hasCategory category link.tagId = false :=
      Bool.eq_false_iff.mpr fun isOf => absent (hasCategory_hasTag isOf)
    simp [Store.unlinkCategory, deleteWhere, uncategorised]
  lawful lawful := lawful.unlinkCategory repositoryId category

theorem revises_linkAll {tags : List Tag} (present : ∀ tag ∈ tags, store.HasTag tag.id) :
    Revises repositoryId store (store.linkAll repositoryId tags) := by
  induction tags generalizing store with
  | nil => exact Revises.refl repositoryId store
  | cons tag rest ih =>
    have first : Revises repositoryId store (store.link repositoryId tag.id).2 :=
      revises_link (present tag List.mem_cons_self)
    exact first.trans (ih fun other member => present other (List.mem_cons_of_mem tag member))

theorem revises_replaceTags {category : TagCategory} {tags : List Tag} {after : Store}
    (present : ∀ tag ∈ tags, store.HasTag tag.id)
    (replaced : store.replaceTags repositoryId category tags = .ok after) :
    Revises repositoryId store after := by
  unfold Store.replaceTags at replaced
  split at replaced
  · cases replaced
  · obtain rfl := Except.ok.inj replaced
    exact (revises_unlinkCategory category).trans (revises_linkAll present)

theorem revises_associate {association : Association}
    (isOf : association.repositoryId = repositoryId) :
    Revises repositoryId store (store.associate association).2 where
  __ := Revises.refl repositoryId store
  associations row other := by
    simp only [Store.associate, mem_insertNew]
    constructor
    · rintro (rfl | member)
      · exact absurd isOf other
      · exact member
    · exact Or.inr
  lawful lawful := lawful.associate association

theorem revises_dissociate {association : Association}
    (isOf : association.repositoryId = repositoryId) :
    Revises repositoryId store (store.dissociate association).2 where
  __ := Revises.refl repositoryId store
  associations row other := by
    simp only [Store.dissociate, mem_deleteRow]
    constructor
    · exact And.right
    · intro member
      refine ⟨?_, member⟩
      rintro rfl
      exact other isOf
  lawful lawful := lawful.dissociate association

theorem revises_dissociateAll :
    Revises repositoryId store (store.dissociateAll repositoryId).2 where
  __ := Revises.refl repositoryId store
  associations row other := by
    simp [Store.dissociateAll, deleteWhere, other]
  lawful lawful := lawful.dissociateAll repositoryId

theorem revises_perform {call : StoreCall} (concerns : call.Concerns repositoryId)
    (names : call.Names store) : Revises repositoryId store (store.perform call).2 := by
  cases call with
  | setUpdatedAt id instant =>
    obtain rfl : id = repositoryId := concerns
    exact revises_writeUpdatedAt _
  | touchMirror id instant =>
    obtain rfl : id = repositoryId := concerns
    exact revises_writeMirrorTime _
  | ensureTag scope category group name => exact revises_ensureTag scope category group name
  | link id tagId =>
    obtain rfl : id = repositoryId := concerns
    exact revises_link names
  | unlink id tagId =>
    obtain rfl : id = repositoryId := concerns
    exact revises_unlink names
  | replaceTags id category tags =>
    obtain rfl : id = repositoryId := concerns
    simp only [perform]
    split
    · next after replaced => exact revises_replaceTags names replaced
    · exact Revises.refl id store
  | unlinkCategory id category =>
    obtain rfl : id = repositoryId := concerns
    exact revises_unlinkCategory category
  | associate association => exact revises_associate concerns
  | dissociate association => exact revises_dissociate concerns
  | dissociateAll id =>
    obtain rfl : id = repositoryId := concerns
    exact revises_dissociateAll
  | findRepository repoType owner name => exact Revises.refl repositoryId store
  | findTag scope category group name => exact Revises.refl repositoryId store
  | listTags id category => exact Revises.refl repositoryId store
  | listCandidates architecture model => exact Revises.refl repositoryId store
  | findFramework id => exact Revises.refl repositoryId store
  | listResources model => exact Revises.refl repositoryId store
  | listAssociations id => exact Revises.refl repositoryId store

end Store

end ModelHub
