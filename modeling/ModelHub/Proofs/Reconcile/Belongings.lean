import ModelHub.Proofs.Engine.Abides
import ModelHub.Reconcile.Reconciliation

namespace ModelHub

open Work (Abides askStore)

/-- Links are made and undone only for tags that were read. -/
def StoreCall.Belongs (repositoryId : Int) (store : Store) : StoreCall → Prop
  | link id tagId => id = repositoryId ∧ ∃ tag, store.Lists tag ∧ tag.id = tagId
  | unlink id tagId => id = repositoryId ∧ ∃ tag, store.Lists tag ∧ tag.id = tagId
  | listTags id category => id = repositoryId ∧ category = some .runtimeFramework
  | associate association => association.repositoryId = repositoryId
  | dissociate association => association.repositoryId = repositoryId
  | dissociateAll id => id = repositoryId
  | ensureTag .. | findTag .. | listCandidates .. | findFramework _ | listResources _ => True
  | listAssociations _ => True
  | findRepository .. | setUpdatedAt .. | touchMirror .. | replaceTags .. | unlinkCategory .. => False

def Call.Belongs (repositoryId : Int) : Call → Store → Prop
  | .store request, before => request.Belongs repositoryId before
  | .isCancelled, _ => True
  | .fetch .., _ | .submit .., _ | .now, _ | .acquire _, _ | .release _, _ => False

def Call.Tends (repositoryId : Int) : Call → Store → Prop
  | .store request, before => request.Belongs repositoryId before
  | _, _ => False

theorem Call.Tends.belongs {repositoryId : Int} {call : Call} {store : Store}
    (tends : call.Tends repositoryId store) : call.Belongs repositoryId store := by
  cases call with
  | store request => exact tends
  | _ => exact tends.elim

theorem StoreCall.Belongs.concerns {repositoryId : Int} {store : Store} {request : StoreCall}
    (belongs : request.Belongs repositoryId store) :
    request.Concerns repositoryId ∧ request.Names store := by
  cases request with
  | link id tagId =>
    obtain ⟨here, tag, listed, rfl⟩ := belongs
    exact ⟨here, listed.hasTag⟩
  | unlink id tagId =>
    obtain ⟨here, tag, listed, rfl⟩ := belongs
    exact ⟨here, listed.hasTag⟩
  | associate association => exact ⟨belongs, trivial⟩
  | dissociate association => exact ⟨belongs, trivial⟩
  | dissociateAll id => exact ⟨belongs, trivial⟩
  | ensureTag | findTag | listTags | listCandidates => exact ⟨trivial, trivial⟩
  | findFramework | listResources | listAssociations => exact ⟨trivial, trivial⟩
  | findRepository | setUpdatedAt | touchMirror | replaceTags | unlinkCategory => exact belongs.elim

/-- What belongs to one repository leaves the others alone. -/
theorem Call.Belongs.revises {repositoryId : Int} {call : Call} {store after : Store}
    {reply : Except HubError call.Reply} (belongs : call.Belongs repositoryId store)
    (answered : Store.anyAnswers call store reply after) : store.Revises repositoryId after := by
  cases call with
  | store request =>
    obtain ⟨concerns, names⟩ := StoreCall.Belongs.concerns belongs
    rcases answered with performed | ⟨-, rfl⟩
    · have step : store.Revises repositoryId (store.perform request).2 :=
        Store.revises_perform concerns names
      rwa [performed] at step
    · exact .refl repositoryId after
  | _ =>
    obtain rfl := answered
    exact .refl repositoryId after

namespace Reconcile

variable {repositoryId : Int}

theorem belongs_of_tends {α : Type} {work : Work α} (tends : Abides (Call.Tends repositoryId) work) :
    Abides (Call.Belongs repositoryId) work :=
  tends.mono fun _ _ tending => tending.belongs

theorem abides_link (scope : TagScope) (category : TagCategory) (group name : String) :
    Abides (Call.Tends repositoryId) (Tagging.link repositoryId scope category group name) := by
  refine Work.abides_askStore_bind (fun _ => trivial) ?_
  intro store tag after performed
  obtain ⟨answer, rfl⟩ := Prod.mk.inj performed
  obtain rfl := Except.ok.inj answer
  have listed := (store.ensureTag_lists scope category group name).1
  exact ⟨⟨rfl, _, listed, rfl⟩, fun _ _ _ => trivial⟩

theorem abides_unlink (scope : TagScope) (category : TagCategory) (group name : String) :
    Abides (Call.Tends repositoryId) (Tagging.unlink repositoryId scope category group name) := by
  refine Work.abides_askStore_bind (fun _ => trivial) ?_
  intro store found after performed
  obtain ⟨answer, rfl⟩ := Prod.mk.inj performed
  cases found with
  | none => exact trivial
  | some tag =>
    have listed := (Store.findTag?_eq_some (Except.ok.inj answer)).1
    exact ⟨⟨rfl, tag, listed, rfl⟩, fun _ _ _ => trivial⟩

theorem abides_linkResource (resource : String) :
    Abides (Call.Tends repositoryId) (linkResource repositoryId resource) :=
  Work.abides_bind (abides_link _ _ _ _) fun _ => Work.abides_pure _

theorem abides_resolve (candidates : List Candidate) (desired : Desired) :
    Abides (Call.Tends repositoryId) (resolve candidates desired) := by
  induction candidates generalizing desired with
  | nil => exact Work.abides_pure _
  | cons candidate rest ih =>
    unfold resolve
    split
    · exact ih desired
    · refine Work.abides_bind (Work.abides_askStore fun _ => trivial) fun found => ?_
      cases found with
      | none => exact ih desired
      | some framework => exact ih _

theorem abides_desiredFor (architecture model : String) :
    Abides (Call.Tends repositoryId) (desiredFor architecture model) :=
  Work.abides_bind (Work.abides_askStore fun _ => trivial) fun candidates =>
    abides_resolve candidates {}

theorem abides_removeAssociation (desired : Desired) (stored : Association) :
    Abides (Call.Tends repositoryId) (removeAssociation repositoryId desired stored) := by
  refine Work.abides_bind (Work.abides_askStore fun _ => rfl) fun _ => ?_
  refine Work.abides_bind (Work.abides_askStore fun _ => trivial) fun found => ?_
  cases found with
  | none => exact Work.abides_pure _
  | some framework =>
    dsimp only
    split
    · exact Work.abides_pure _
    · exact Work.abides_bind (abides_unlink _ _ _ _) fun _ => Work.abides_pure _

theorem abides_addAssociation (desired : Desired) (candidate : Candidate) :
    Abides (Call.Tends repositoryId) (addAssociation repositoryId desired candidate) := by
  unfold addAssociation
  split
  · exact Work.abides_throw _
  · refine Work.abides_bind (Work.abides_askStore fun _ => rfl) fun _ => ?_
    exact Work.abides_bind (abides_link _ _ _ _) fun _ => Work.abides_pure _

theorem abides_tagNamesOf (stored : List Association) :
    Abides (Call.Tends repositoryId) (tagNamesOf stored) := by
  induction stored with
  | nil => exact Work.abides_pure _
  | cons row rest ih =>
    refine Work.abides_bind (Work.abides_askStore fun _ => trivial) fun _ => ?_
    exact Work.abides_bind ih fun _ => Work.abides_pure _

theorem abides_unlinkUnbacked (backed : List String) (tags : List Tag) :
    Abides (Call.Tends repositoryId) (unlinkUnbacked repositoryId backed tags) := by
  induction tags with
  | nil => exact Work.abides_pure _
  | cons tag rest ih =>
    unfold unlinkUnbacked
    split
    · exact ih
    · refine Work.abides_bind (abides_unlink _ _ _ _) fun _ => ?_
      exact Work.abides_bind ih fun _ => Work.abides_pure _

theorem abides_pruneTags (desired : Desired) :
    Abides (Call.Tends repositoryId) (pruneTags repositoryId desired) := by
  refine Work.abides_bind (Work.abides_askStore fun _ => trivial) fun stored => ?_
  refine Work.abides_bind (abides_tagNamesOf stored) fun names => ?_
  refine Work.abides_bind (Work.abides_askStore fun _ => ⟨rfl, rfl⟩) fun tags => ?_
  exact abides_unlinkUnbacked _ tags

theorem abides_settle (repository : Repository) (architecture : String) :
    Abides (Call.Belongs repository.id) (settle repository architecture) := by
  refine Work.abides_bind (Work.abides_askStore fun _ => trivial) fun resources => ?_
  refine Work.abides_bind (Work.abides_attemptEach (fun _ => trivial)
    (fun resource => belongs_of_tends (abides_linkResource resource)) resources) fun linked => ?_
  refine Work.abides_bind (belongs_of_tends (abides_desiredFor _ _)) fun desired => ?_
  refine Work.abides_bind (Work.abides_askStore fun _ => trivial) fun stored => ?_
  refine Work.abides_bind (Work.abides_attemptEach (fun _ => trivial)
    (fun row => belongs_of_tends (abides_removeAssociation desired row)) _) fun removed => ?_
  refine Work.abides_bind (Work.abides_attemptEach (fun _ => trivial)
    (fun candidate => belongs_of_tends (abides_addAssociation desired candidate)) _) fun added => ?_
  refine Work.abides_bind (Work.abides_checkpoint fun _ => trivial) fun _ => ?_
  exact Work.abides_bind (Work.abides_attempt (belongs_of_tends (abides_pruneTags desired))) fun _ =>
    Work.abides_pure _

theorem abides_unlinkAll (tags : List Tag) :
    Abides (Call.Tends repositoryId) (unlinkAll repositoryId tags) := by
  induction tags with
  | nil => exact Work.abides_pure _
  | cons tag rest ih =>
    refine Work.abides_bind (abides_unlink _ _ _ _) fun _ => ?_
    exact Work.abides_bind ih fun _ => Work.abides_pure _

theorem abides_clear (repository : Repository) :
    Abides (Call.Belongs repository.id) (clear repository) := by
  refine Work.abides_bind (Work.abides_checkpoint fun _ => trivial) fun _ => ?_
  refine Work.abides_bind (Work.abides_askStore fun _ => rfl) fun _ => ?_
  refine Work.abides_bind (Work.abides_askStore fun _ => ⟨rfl, rfl⟩) fun tags => ?_
  exact Work.abides_bind (belongs_of_tends (abides_unlinkAll tags)) fun _ => Work.abides_pure _

end Reconcile

end ModelHub
