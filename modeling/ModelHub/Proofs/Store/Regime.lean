import ModelHub.Proofs.Store.Categories
import ModelHub.Proofs.Store.WellFormed

/-! What stays as it was while orders are given for some categories of tags only, and what these
orders have to observe so that the store stays well-formed.

An association may be made only in a slot that is known to be vacant. The vacancies are given from
outside, because they hold only between the listing of the associations and their renewal. -/

namespace ModelHub

/-- A store at the beginning, and the categories for which orders are given. Associations go with
framework tags. -/
structure Regime where
  start : Store
  permits : TagCategory → Prop

namespace Regime

def free (start : Store) : Regime := { start := start, permits := fun _ => True }

structure Holds (regime : Regime) (vacant : Set (Int × Int)) (store : Store) : Prop where
  lawful : store.Lawful
  places : store.repositories.map RepositoryRow.place =
    regime.start.repositories.map RepositoryRow.place
  tags : regime.start.tags <+: store.tags
  links : ∀ category, ¬regime.permits category →
    store.linksOf category = regime.start.linksOf category
  associations : ¬regime.permits .runtimeFramework →
    store.associations = regime.start.associations
  vacant : ∀ row ∈ store.associations, row.slot ∉ vacant
  wellFormed : regime.start.WellFormed → store.WellFormed

variable {regime : Regime} {vacant : Set (Int × Int)} {store : Store}

theorem holds_start (lawful : regime.start.Lawful) : regime.Holds ∅ regime.start where
  lawful := lawful
  places := rfl
  tags := List.prefix_rfl
  links _ _ := rfl
  associations _ := rfl
  vacant _ _ := Set.notMem_empty _
  wellFormed := id

theorem ne_of_forbidden {category other : TagCategory} (permitted : regime.permits category)
    (forbidden : ¬regime.permits other) : other ≠ category := by
  rintro rfl
  exact forbidden permitted

namespace Holds

variable {repositoryId : Int}

theorem fewer (holds : regime.Holds vacant store) {fewer : Set (Int × Int)}
    (part : fewer ⊆ vacant) : regime.Holds fewer store :=
  { holds with vacant := fun row member inPart => holds.vacant row member (part inPart) }

theorem houses (holds : regime.Holds vacant store) {repoType : RepoType}
    (housed : regime.start.Houses repositoryId repoType) : store.Houses repositoryId repoType :=
  (Store.houses_congr holds.places).mpr housed

theorem writeUpdatedAt (holds : regime.Holds vacant store) (text : Option String) :
    regime.Holds vacant (store.writeUpdatedAt repositoryId text) := by
  have places : (store.writeUpdatedAt repositoryId text).repositories.map RepositoryRow.place =
      store.repositories.map RepositoryRow.place := map_edit _ _ _ fun row => by split <;> rfl
  exact { holds with
    lawful := holds.lawful.writeUpdatedAt repositoryId text
    places := places.trans holds.places
    wellFormed := fun start => (holds.wellFormed start).of_less
      (fun _ _ => (Store.houses_congr places).mpr) rfl (List.Subset.refl _) (List.Sublist.refl _) }

theorem writeMirrorTime (holds : regime.Holds vacant store) (text : Option String) :
    regime.Holds vacant (store.writeMirrorTime repositoryId text) :=
  { holds with
    lawful := holds.lawful.writeMirrorTime repositoryId text
    wellFormed := fun start => (holds.wellFormed start).of_less (fun _ _ => id) rfl
      (List.Subset.refl _) (List.Sublist.refl _) }

theorem ensureTag (holds : regime.Holds vacant store) {scope : TagScope} {category : TagCategory}
    {group name : String} (permitted : regime.permits category)
    (admitted : category.Admits scope group name) :
    regime.Holds vacant (store.ensureTag scope category group name).2 where
  lawful := holds.lawful.ensureTag scope category group name
  places := by
    rw [← holds.places]
    unfold Store.ensureTag
    split <;> rfl
  tags := by
    rcases store.ensureTag_cases scope category group name with same | ⟨row, added, -, -⟩
    · exact same ▸ holds.tags
    · exact added ▸ holds.tags.trans (List.prefix_append _ _)
  links other forbidden := by
    rw [← holds.links other forbidden]
    exact Store.linksOf_ensureTag scope group name (ne_of_forbidden permitted forbidden)
  associations := by
    rw [Store.ensureTag_associations]
    exact holds.associations
  vacant := by
    rw [Store.ensureTag_associations]
    exact holds.vacant
  wellFormed start := (holds.wellFormed start).ensureTag admitted

theorem link (holds : regime.Holds vacant store) {tag : Tag} (listed : store.Lists tag)
    (permitted : regime.permits tag.category)
    (housed : regime.start.Houses repositoryId tag.scope.repoType) :
    regime.Holds vacant (store.link repositoryId tag.id).2 :=
  { holds with
    lawful := holds.lawful.link repositoryId tag.id
    links := fun other forbidden =>
      (Store.linksOf_link holds.lawful listed repositoryId
        (ne_of_forbidden permitted forbidden)).trans (holds.links other forbidden)
    wellFormed := fun start => (holds.wellFormed start).link listed (holds.houses housed) }

theorem unlink (holds : regime.Holds vacant store) {tag : Tag} (listed : store.Lists tag)
    (permitted : regime.permits tag.category) :
    regime.Holds vacant (store.unlink repositoryId tag.id).2 :=
  { holds with
    lawful := holds.lawful.unlink repositoryId tag.id
    links := fun other forbidden =>
      (Store.linksOf_unlink holds.lawful listed repositoryId
        (ne_of_forbidden permitted forbidden)).trans (holds.links other forbidden)
    wellFormed := fun start => (holds.wellFormed start).of_less (fun _ _ => id) rfl
      (List.filter_subset_self _) (List.Sublist.refl _) }

theorem unlinkCategory (holds : regime.Holds vacant store) {category : TagCategory}
    (permitted : regime.permits category) :
    regime.Holds vacant (store.unlinkCategory repositoryId category).2 :=
  { holds with
    lawful := holds.lawful.unlinkCategory repositoryId category
    links := fun other forbidden =>
      (Store.linksOf_unlinkCategory holds.lawful repositoryId
        (ne_of_forbidden permitted forbidden)).trans (holds.links other forbidden)
    wellFormed := fun start => (holds.wellFormed start).unlinkCategory category }

theorem linkAll (holds : regime.Holds vacant store) {tags : List Tag}
    (fits : ∀ tag ∈ tags, store.Lists tag ∧ regime.permits tag.category ∧
      regime.start.Houses repositoryId tag.scope.repoType) :
    regime.Holds vacant (store.linkAll repositoryId tags) := by
  induction tags generalizing store with
  | nil => exact holds
  | cons tag rest ih =>
    obtain ⟨⟨listed, permitted, housed⟩, restFits⟩ := List.forall_mem_cons.mp fits
    exact ih (holds.link listed permitted housed) restFits

theorem replaceTags (holds : regime.Holds vacant store) {category : TagCategory} {tags : List Tag}
    {after : Store} (permitted : regime.permits category)
    (fits : ∀ tag ∈ tags, store.Lists tag ∧ regime.start.Houses repositoryId tag.scope.repoType)
    (replaced : store.replaceTags repositoryId category tags = .ok after) :
    regime.Holds vacant after := by
  unfold Store.replaceTags at replaced
  split at replaced
  · cases replaced
  · next allOf =>
    obtain rfl := Except.ok.inj replaced
    refine (holds.unlinkCategory permitted).linkAll fun tag member => ?_
    have isOf : tag.category = category := by
      simpa using List.find?_eq_none.mp allOf tag member
    exact ⟨(fits tag member).1, isOf ▸ permitted, (fits tag member).2⟩

theorem associate (holds : regime.Holds vacant store) {association : Association}
    (permitted : regime.permits .runtimeFramework)
    (housed : regime.start.Houses association.repositoryId .model)
    (free : association.slot ∈ vacant) :
    regime.Holds (vacant \ {association.slot}) (store.associate association).2 :=
  { holds with
    lawful := holds.lawful.associate association
    associations := fun forbidden => absurd permitted forbidden
    vacant := by
      intro row member left
      rcases mem_insertNew.mp member with rfl | old
      · exact left.2 rfl
      · exact holds.vacant row old left.1
    wellFormed := by
      intro start
      refine (holds.wellFormed start).associate (holds.houses housed) ?_
      intro taken
      obtain ⟨row, member, same⟩ := List.mem_map.mp taken
      exact holds.vacant row member (same ▸ free) }

theorem filterAssociations (holds : regime.Holds vacant store)
    (permitted : regime.permits .runtimeFramework) (keep : Association → Bool) :
    regime.Holds vacant { store with associations := store.associations.filter keep } :=
  { holds with
    lawful := { holds.lawful with associations := holds.lawful.associations.filter _ }
    associations := fun forbidden => absurd permitted forbidden
    vacant := fun row member => holds.vacant row (List.mem_of_mem_filter member)
    wellFormed := fun start => (holds.wellFormed start).of_less (fun _ _ => id) rfl
      (List.Subset.refl _) List.filter_sublist }

end Holds

end Regime

end ModelHub
