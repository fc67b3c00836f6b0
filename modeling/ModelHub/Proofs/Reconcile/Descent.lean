import ModelHub.Proofs.Push.Agenda
import ModelHub.Proofs.Reconcile.Belongings

/-! What is left as it was when models are reconciled, whichever they are: the register of
repositories, the catalogue of frameworks, and the tags that cannot be read. The tags of other
repositories are left too, unless they have links to numbers that are yet to be given out. -/

namespace ModelHub

def TagKey.IsUnreadable (key : TagKey) : Prop := ∀ scope : TagScope, scope.name ≠ key.scope

def Profile.Legible (profile : Profile) : Prop :=
  ∀ key ∈ profile.tags, key.IsFramework → ¬key.IsUnreadable

theorem TagKey.not_isUnreadable (scope : TagScope) (category : TagCategory) (group name : String) :
    ¬(TagKey.of scope category group name).IsUnreadable := fun unreadable => unreadable scope rfl

namespace Store

/-- The links of the repository name only tag numbers that were given out. -/
def IssuedTo (store : Store) (repositoryId : Int) : Prop :=
  ∀ link ∈ store.links, link.repositoryId = repositoryId → link.tagId ≤ store.lastTagId

structure Descends (before after : Store) : Prop where
  repositories : after.repositories = before.repositories
  mirrors : after.mirrors = before.mirrors
  frameworks : after.frameworks = before.frameworks
  compatibilities : after.compatibilities = before.compatibilities
  resources : after.resources = before.resources
  lawful : before.Lawful → after.Lawful
  issuedTo : before.Lawful → ∀ repositoryId, before.IssuedTo repositoryId →
    after.IssuedTo repositoryId
  unreadable : before.Lawful → ∀ repositoryId key, key.IsUnreadable →
    (after.Bears repositoryId key ↔ before.Bears repositoryId key)

variable {store before middle after : Store} {repositoryId other : Int}

namespace Descends

theorem refl (store : Store) : Descends store store where
  repositories := rfl
  mirrors := rfl
  frameworks := rfl
  compatibilities := rfl
  resources := rfl
  lawful := id
  issuedTo _ _ := id
  unreadable _ _ _ _ := Iff.rfl

theorem trans (first : Descends before middle) (second : Descends middle after) :
    Descends before after where
  repositories := second.repositories.trans first.repositories
  mirrors := second.mirrors.trans first.mirrors
  frameworks := second.frameworks.trans first.frameworks
  compatibilities := second.compatibilities.trans first.compatibilities
  resources := second.resources.trans first.resources
  lawful := second.lawful ∘ first.lawful
  issuedTo lawful repositoryId issued :=
    second.issuedTo (first.lawful lawful) repositoryId (first.issuedTo lawful repositoryId issued)
  unreadable lawful repositoryId key isUnreadable :=
    (second.unreadable (first.lawful lawful) repositoryId key isUnreadable).trans
      (first.unreadable lawful repositoryId key isUnreadable)

theorem findRepository (descends : Descends before after) (repoType : RepoType)
    (owner name : String) :
    after.findRepository repoType owner name = before.findRepository repoType owner name := by
  simp only [Store.findRepository, repositoryRow?, readRepository, mirror?, descends.repositories,
    descends.mirrors]

theorem plan (descends : Descends before after) (place : RepositoryPlace) (architecture : String) :
    after.plan place architecture = before.plan place architecture := by
  simp only [Store.plan, offer, runs, descends.frameworks, descends.compatibilities]

theorem resourceNames (descends : Descends before after) (model : String) :
    after.resourceNames model = before.resourceNames model := by
  simp only [Store.resourceNames, descends.resources]

theorem legible_iff (descends : Descends before after) (lawful : before.Lawful)
    (repositoryId : Int) :
    (after.profile repositoryId).Legible ↔ (before.profile repositoryId).Legible := by
  have kept := descends.unreadable lawful repositoryId
  constructor
  · intro legible key bears isFramework isUnreadable
    exact legible key ((kept key isUnreadable).mpr bears) isFramework isUnreadable
  · intro legible key bears isFramework isUnreadable
    exact legible key ((kept key isUnreadable).mp bears) isFramework isUnreadable

end Descends

namespace Revises

theorem issuedTo (revises : Revises repositoryId before after) (lawful : after.Lawful)
    (issued : before.IssuedTo other) : after.IssuedTo other := by
  intro link member isOther
  by_cases present : after.HasTag link.tagId
  · obtain ⟨row, rowMember, same⟩ := present
    exact same ▸ lawful.tagNumbers row rowMember
  · have old := (revises.strays link present).mp member
    exact Int.le_trans (issued link old isOther) revises.tagNumbers

theorem associations_of_ne (revises : Revises repositoryId before after)
    (differs : other ≠ repositoryId) :
    (after.profile other).associations = (before.profile other).associations := by
  ext row
  refine and_congr_left fun isOther => revises.associations row ?_
  exact isOther ▸ differs

theorem profile_of_ne (revises : Revises repositoryId before after) (differs : other ≠ repositoryId)
    (issued : before.IssuedTo other) : after.profile other = before.profile other := by
  refine Profile.ext (revises.associations_of_ne differs) ?_
  ext key
  constructor
  · rintro ⟨row, member, same, linked⟩
    have old := (revises.links _ differs).mp linked
    rcases revises.newTags row member with present | new
    · exact ⟨row, present, same, old⟩
    · exact absurd (issued _ old rfl) (Int.not_le.mpr new)
  · rintro ⟨row, member, same, linked⟩
    exact ⟨row, revises.tags.mem member, same, (revises.links _ differs).mpr linked⟩

end Revises

theorem bears_ensureTag {scope : TagScope} {category : TagCategory} {group name : String}
    {key : TagKey} (differs : key ≠ TagKey.of scope category group name) :
    (store.ensureTag scope category group name).2.Bears repositoryId key ↔
      store.Bears repositoryId key := by
  have links := store.ensureTag_links scope category group name
  rcases store.ensureTag_cases scope category group name with same | ⟨row, added, isNew, -⟩
  · simp only [Bears, same, links]
  · simp only [Bears, added, links, List.mem_append, List.mem_singleton]
    constructor
    · rintro ⟨found, member | rfl, same, linked⟩
      · exact ⟨found, member, same, linked⟩
      · exact absurd (same.symm.trans isNew) differs
    · rintro ⟨found, member, same, linked⟩
      exact ⟨found, Or.inl member, same, linked⟩

theorem bears_link_iff (lawful : store.Lawful) {tag : Tag} (listed : store.Lists tag) {key : TagKey}
    (isUnreadable : key.IsUnreadable) :
    (store.link repositoryId tag.id).2.Bears other key ↔ store.Bears other key := by
  obtain ⟨row, member, id, same⟩ := listed
  rw [← id, bears_link lawful member]
  refine or_iff_left fun isTag => ?_
  exact TagKey.not_isUnreadable _ _ _ _ (isTag.2.trans same ▸ isUnreadable)

theorem bears_unlink_iff (lawful : store.Lawful) {tag : Tag} (listed : store.Lists tag)
    {key : TagKey} (isUnreadable : key.IsUnreadable) :
    (store.unlink repositoryId tag.id).2.Bears other key ↔ store.Bears other key := by
  obtain ⟨row, member, id, same⟩ := listed
  rw [← id, bears_unlink lawful member]
  refine and_iff_left fun isTag => ?_
  exact TagKey.not_isUnreadable _ _ _ _ (isTag.2.trans same ▸ isUnreadable)

theorem tagsOf_legible {tags : List Tag}
    (listed : store.tagsOf repositoryId (some .runtimeFramework) = .ok tags) :
    (store.profile repositoryId).Legible := by
  obtain ⟨-, borne⟩ := tagsOf_ok listed
  intro key bears isFramework isUnreadable
  obtain ⟨tag, -, rfl⟩ := (borne key).mpr ⟨bears, isFramework⟩
  exact TagKey.not_isUnreadable _ _ _ _ isUnreadable

theorem tagsOf_of_legible (legible : (store.profile repositoryId).Legible) :
    ∃ tags, store.tagsOf repositoryId (some .runtimeFramework) = .ok tags := by
  cases listed : store.tagsOf repositoryId (some .runtimeFramework) with
  | ok tags => exact ⟨tags, rfl⟩
  | error e =>
    obtain ⟨row, member, unread⟩ := mapM_error listed
    obtain ⟨present, linked, isOf⟩ := mem_tagRowsOf.mp member
    have isFramework : row.category = TagCategory.runtimeFramework.name := isOf _ rfl
    have readable := legible row.key ⟨row, present, rfl, linked⟩ isFramework
    obtain ⟨scope, same⟩ := not_forall_not.mp readable
    have scopeRead : TagScope.ofName? row.scope = some scope := by
      rw [← show scope.name = row.scope from same, TagScope.ofName?_name]
    rw [TagRow.read, scopeRead, isFramework, TagCategory.ofName?_name] at unread
    cases unread

end Store

namespace StoreCall.Belongs

variable {repositoryId : Int} {store : Store} {request : StoreCall}

theorem register (belongs : request.Belongs repositoryId store) :
    (store.perform request).2.repositories = store.repositories ∧
      (store.perform request).2.mirrors = store.mirrors := by
  cases request with
  | ensureTag scope category group name =>
    show (store.ensureTag scope category group name).2.repositories = store.repositories ∧
      (store.ensureTag scope category group name).2.mirrors = store.mirrors
    unfold Store.ensureTag
    split <;> exact ⟨rfl, rfl⟩
  | setUpdatedAt | touchMirror | replaceTags => exact belongs.elim
  | _ => exact ⟨rfl, rfl⟩

theorem bears_iff (belongs : request.Belongs repositoryId store) (lawful : store.Lawful)
    (other : Int) {key : TagKey} (isUnreadable : key.IsUnreadable) :
    (store.perform request).2.Bears other key ↔ store.Bears other key := by
  cases request with
  | ensureTag scope category group name =>
    refine Store.bears_ensureTag ?_
    rintro rfl
    exact TagKey.not_isUnreadable _ _ _ _ isUnreadable
  | link id tagId =>
    obtain ⟨-, tag, listed, rfl⟩ := belongs
    exact Store.bears_link_iff lawful listed isUnreadable
  | unlink id tagId =>
    obtain ⟨-, tag, listed, rfl⟩ := belongs
    exact Store.bears_unlink_iff lawful listed isUnreadable
  | findRepository | setUpdatedAt | touchMirror | replaceTags | unlinkCategory => exact belongs.elim
  | _ => exact Iff.rfl

end StoreCall.Belongs

/-- What belongs to one repository neither registers repositories nor links or unlinks tags that
cannot be read. -/
theorem Call.Belongs.descends {repositoryId : Int} {call : Call} {store after : Store}
    {reply : Except HubError call.Reply} (belongs : call.Belongs repositoryId store)
    (answered : Store.anyAnswers call store reply after) : store.Descends after := by
  have revises := belongs.revises answered
  cases call with
  | store request =>
    rcases answered with performed | ⟨-, rfl⟩
    · obtain rfl : (store.perform request).2 = after := congrArg Prod.snd performed
      obtain ⟨repositories, mirrors⟩ := StoreCall.Belongs.register belongs
      exact {
        repositories := repositories
        mirrors := mirrors
        frameworks := revises.frameworks
        compatibilities := revises.compatibilities
        resources := revises.resources
        lawful := revises.lawful
        issuedTo := fun lawful _ => revises.issuedTo (revises.lawful lawful)
        unreadable := fun lawful other _ => StoreCall.Belongs.bears_iff belongs lawful other }
    · exact .refl after
  | _ =>
    obtain rfl := answered
    exact .refl after

end ModelHub
