import ModelHub.Proofs.Engine.Account
import ModelHub.Proofs.Reconcile.Desired

namespace ModelHub

namespace Reconcile

def Outcome.failures : Outcome → List HubError
  | .reconciled report => report.failures
  | _ => []

def Desired.Backed (desired : Desired) : Prop :=
  ∀ candidate ∈ desired.candidates, ∃ framework ∈ desired.frameworks,
    framework.id = candidate.frameworkId

namespace Desired.Backed

variable {desired : Desired} {candidate : Candidate}

theorem add (backed : desired.Backed) {framework : Framework}
    (isNew : Difference.isDesired desired.candidates candidate.frameworkId ≠ true)
    (same : framework.id = candidate.frameworkId) : (desired.add candidate framework).Backed := by
  have differs : ∀ other ∈ desired.candidates, other.frameworkId ≠ candidate.frameworkId :=
    fun other member equal => isNew (isDesired_iff.mpr ⟨other, member, equal⟩)
  intro other member
  rcases List.mem_cons.mp ((insertCandidate_perm differs).mem_iff.mp member) with rfl | old
  · exact ⟨framework, List.mem_cons_self, same⟩
  · obtain ⟨known, present, stands⟩ := backed other old
    refine ⟨known, List.mem_cons_of_mem _ (List.mem_filter.mpr ⟨present, ?_⟩), stands⟩
    rw [stands, same, decide_eq_true_eq]
    exact differs other old

theorem framework?_isSome (backed : desired.Backed) (member : candidate ∈ desired.candidates) :
    (desired.framework? candidate.frameworkId).isSome := by
  obtain ⟨framework, present, same⟩ := backed candidate member
  rw [Desired.framework?, List.find?_isSome]
  exact ⟨framework, present, decide_eq_true same⟩

end Desired.Backed

end Reconcile

namespace Surroundings

variable {surroundings : Surroundings} {noted : List HubError}

theorem accounts_findRepository {repoType : RepoType} {owner name : String} :
    surroundings.Accounts (Tagging.findRepository repoType owner name) []
      fun _ after => after = [] := by
  refine accounts_bind (accounts_askStore ?_)
  intro store found after _
  cases found with
  | none => exact accounts_throw rfl
  | some repository => exact accounts_pure rfl

theorem accounts_link {repositoryId : Int} {scope : TagScope} {category : TagCategory}
    {group name : String} :
    surroundings.Accounts (Tagging.link repositoryId scope category group name) noted
      fun _ after => after = noted := by
  refine accounts_bind (accounts_askStore ?_)
  intro store tag after _
  exact accounts_askStore fun _ _ _ _ => rfl

theorem accounts_unlink {repositoryId : Int} {scope : TagScope} {category : TagCategory}
    {group name : String} :
    surroundings.Accounts (Tagging.unlink repositoryId scope category group name) noted
      fun _ after => after = noted := by
  refine accounts_bind (accounts_askStore ?_)
  intro store found after _
  cases found with
  | none => exact accounts_pure rfl
  | some tag => exact accounts_askStore fun _ _ _ _ => rfl

theorem accounts_ensureDeclared {scope : TagScope} {declared : DeclaredTag} :
    surroundings.Accounts (Tagging.ensureDeclared scope declared) noted
      fun _ after => after = noted :=
  accounts_askStore fun _ _ _ _ => rfl

theorem accounts_applyDeclared {scope : TagScope} {owner name content : String} :
    surroundings.Accounts (Tagging.applyDeclared scope owner name content) []
      fun _ after => after = [] := by
  refine accounts_bind (accounts_mk ?_ fun e failed => MetaTags.isSkippable_of_declared failed)
  intro declared _
  refine accounts_bind (accounts_findRepository.mono ?_)
  rintro repository _ rfl
  refine accounts_bind ((accounts_mapM fun _ => accounts_ensureDeclared).mono ?_)
  rintro tags _ rfl
  refine accounts_bind (accounts_askStore ?_)
  intro store _ after _
  exact accounts_pure rfl

theorem accounts_clearDeclared {scope : TagScope} {owner name : String} :
    surroundings.Accounts (Tagging.clearDeclared scope owner name) [] fun _ after => after = [] := by
  refine accounts_bind (accounts_findRepository.mono ?_)
  rintro repository _ rfl
  exact accounts_askStore fun _ _ _ _ => rfl

theorem accounts_switchLibrary {scope : TagScope} {owner name oldFile newFile : String} :
    surroundings.Accounts (Tagging.switchLibrary scope owner name oldFile newFile) []
      fun _ after => after = [] := by
  have linked : ∀ (repository : Repository) (tag : String),
      surroundings.Accounts (do
        let _ ← Tagging.link repository.id scope .library "" tag
        return ()) [] fun _ after => after = [] := by
    intro repository tag
    refine accounts_bind (accounts_link.mono ?_)
    rintro isNew _ rfl
    exact accounts_pure rfl
  unfold Tagging.switchLibrary
  dsimp only
  split
  · exact accounts_pure rfl
  · refine accounts_bind (accounts_findRepository.mono ?_)
    rintro repository _ rfl
    cases Tagging.tagOf scope oldFile with
    | none =>
      cases Tagging.tagOf scope newFile with
      | none => exact accounts_pure rfl
      | some new => exact linked repository new
    | some old =>
      refine accounts_bind (accounts_unlink.mono ?_)
      rintro present _ rfl
      cases Tagging.tagOf scope newFile with
      | none => exact accounts_pure rfl
      | some new => exact linked repository new

theorem accounts_updateLibrary {typeToken owner name oldFile newFile : String} :
    surroundings.Accounts (Tagging.updateLibrary typeToken owner name oldFile newFile) []
      fun _ after => after = [] := by
  unfold Tagging.updateLibrary
  split
  · exact accounts_pure rfl
  · exact accounts_switchLibrary

open Reconcile (Desired)

theorem accounts_resolve {candidates : List Candidate} {desired : Desired} (backed : desired.Backed) :
    surroundings.Accounts (Reconcile.resolve candidates desired) noted
      fun last after => after = noted ∧ last.Backed := by
  induction candidates generalizing desired with
  | nil => exact accounts_pure ⟨rfl, backed⟩
  | cons candidate rest ih =>
    unfold Reconcile.resolve
    split
    · exact ih backed
    · next isNew =>
      refine accounts_bind (accounts_askStore ?_)
      intro store found after performed
      cases found with
      | none => exact ih backed
      | some framework =>
        have known : store.framework? candidate.frameworkId = some framework :=
          Except.ok.inj (Prod.mk.inj performed).1
        exact ih (backed.add isNew (by simpa using List.find?_some known))

theorem accounts_desiredFor {architecture model : String} :
    surroundings.Accounts (Reconcile.desiredFor architecture model) noted
      fun desired after => after = noted ∧ desired.Backed := by
  refine accounts_bind (accounts_askStore ?_)
  intro store candidates after _
  exact accounts_resolve fun candidate member => absurd member List.not_mem_nil

theorem accounts_linkResource {repositoryId : Int} {resource : String} :
    surroundings.Accounts (Reconcile.linkResource repositoryId resource) noted
      fun _ after => after = noted := by
  refine accounts_bind (accounts_link.mono ?_)
  rintro isNew _ rfl
  exact accounts_pure rfl

theorem accounts_removeAssociation {repositoryId : Int} {desired : Desired} {stored : Association} :
    surroundings.Accounts (Reconcile.removeAssociation repositoryId desired stored) noted
      fun _ after => after = noted := by
  refine accounts_bind (accounts_askStore fun _ _ _ _ => accounts_bind (accounts_askStore ?_))
  intro store found after _
  cases found with
  | none => exact accounts_pure rfl
  | some framework =>
    dsimp only
    split
    · exact accounts_pure rfl
    · refine accounts_bind (accounts_unlink.mono ?_)
      rintro present _ rfl
      exact accounts_pure rfl

/-- The framework of a desired candidate is never missing. -/
theorem accounts_addAssociation {repositoryId : Int} {desired : Desired} {candidate : Candidate}
    (backed : desired.Backed) (member : candidate ∈ desired.candidates) :
    surroundings.Accounts (Reconcile.addAssociation repositoryId desired candidate) noted
      fun _ after => after = noted := by
  obtain ⟨framework, known⟩ := Option.isSome_iff_exists.mp (backed.framework?_isSome member)
  unfold Reconcile.addAssociation
  rw [known]
  refine accounts_bind (accounts_askStore fun _ _ _ _ => accounts_bind (accounts_link.mono ?_))
  rintro isNew _ rfl
  exact accounts_pure rfl

theorem accounts_tagNamesOf {stored : List Association} :
    surroundings.Accounts (Reconcile.tagNamesOf stored) noted fun _ after => after = noted := by
  induction stored with
  | nil => exact accounts_pure rfl
  | cons row rest ih =>
    refine accounts_bind (accounts_askStore fun _ _ _ _ => accounts_bind (ih.mono ?_))
    rintro names _ rfl
    exact accounts_pure rfl

theorem accounts_unlinkUnbacked {repositoryId : Int} {backed : List String} {tags : List Tag} :
    surroundings.Accounts (Reconcile.unlinkUnbacked repositoryId backed tags) noted
      fun _ after => after = noted := by
  induction tags with
  | nil => exact accounts_pure rfl
  | cons tag rest ih =>
    unfold Reconcile.unlinkUnbacked
    split
    · exact ih
    · refine accounts_bind (accounts_unlink.mono ?_)
      rintro present _ rfl
      refine accounts_bind (ih.mono ?_)
      rintro names _ rfl
      exact accounts_pure rfl

theorem accounts_pruneTags {repositoryId : Int} {desired : Desired} :
    surroundings.Accounts (Reconcile.pruneTags repositoryId desired) noted
      fun _ after => after = noted := by
  refine accounts_bind (accounts_askStore fun _ _ _ _ => accounts_bind (accounts_tagNamesOf.mono ?_))
  rintro names _ rfl
  exact accounts_bind (accounts_askStore fun _ _ _ _ => accounts_unlinkUnbacked)

theorem accounts_settle {repository : Repository} {architecture : String} :
    surroundings.Accounts (Reconcile.settle repository architecture) []
      fun report after => after = report.failures := by
  refine accounts_bind (accounts_askStore ?_)
  intro _ resources _ _
  refine accounts_bind ((accounts_attemptEach fun _ _ => accounts_linkResource).mono ?_)
  rintro linked _ rfl
  refine accounts_bind (accounts_desiredFor.mono ?_)
  rintro desired _ ⟨rfl, backed⟩
  refine accounts_bind (accounts_askStore ?_)
  intro _ stored _ _
  refine accounts_bind ((accounts_attemptEach fun _ _ => accounts_removeAssociation).mono ?_)
  rintro removed _ rfl
  have desiredMember : ∀ candidate ∈ (Difference.between stored desired.candidates).toAdd,
      candidate ∈ desired.candidates := fun candidate member => (List.mem_filter.mp member).1
  refine accounts_bind ((accounts_attemptEach fun candidate member =>
    accounts_addAssociation backed (desiredMember candidate member)).mono ?_)
  rintro added _ rfl
  refine accounts_bind (accounts_checkpoint (accounts_bind (accounts_attempt accounts_pruneTags ?_ ?_)))
  · rintro stale _ rfl
    exact accounts_pure (by simp [Reconcile.errorOf])
  · intro e
    exact accounts_pure (by simp [Reconcile.errorOf])

theorem accounts_recompute {config : SyncConfig} {repository : Repository} {reference : String} :
    surroundings.Accounts (Reconcile.recompute config repository reference) []
      fun outcome after => after = outcome.failures := by
  refine accounts_bind (accounts_fetch fun content => accounts_bind (accounts_mk ?_ ?_))
  · intro architecture _
    refine accounts_bind (accounts_settle.mono ?_)
    rintro report _ rfl
    exact accounts_pure rfl
  · intro e failed
    exact ModelConfig.isSkippable_of_architecture failed

theorem accounts_unlinkAll {repositoryId : Int} {tags : List Tag} :
    surroundings.Accounts (Reconcile.unlinkAll repositoryId tags) noted
      fun _ after => after = noted := by
  induction tags with
  | nil => exact accounts_pure rfl
  | cons tag rest ih =>
    refine accounts_bind (accounts_unlink.mono ?_)
    rintro present _ rfl
    refine accounts_bind (ih.mono ?_)
    rintro count _ rfl
    exact accounts_pure rfl

theorem accounts_clear {repository : Repository} :
    surroundings.Accounts (Reconcile.clear repository) []
      fun outcome after => after = outcome.failures := by
  refine accounts_bind (accounts_checkpoint (accounts_bind (accounts_askStore ?_)))
  intro _ associations _ _
  refine accounts_bind (accounts_askStore ?_)
  intro _ tags _ _
  refine accounts_bind (accounts_unlinkAll.mono ?_)
  rintro count _ rfl
  exact accounts_pure rfl

theorem accounts_reconcile {config : SyncConfig} {identity : RepoIdentity}
    {reference path : String} {action : FileAction} :
    surroundings.Accounts (Reconcile.reconcile config identity reference path action) []
      fun outcome after => after = outcome.failures := by
  have revised : ∀ repository, surroundings.Accounts
      (Reconcile.revise config repository reference action) []
      fun outcome after => after = outcome.failures := by
    intro repository
    cases action with
    | modified => exact accounts_recompute
    | removed => exact accounts_clear
    | added => exact accounts_recompute
  unfold Reconcile.reconcile
  split
  · exact accounts_pure rfl
  · refine accounts_bind (accounts_findRepository.mono ?_)
    rintro repository _ rfl
    dsimp only
    split
    · exact accounts_pure rfl
    · exact accounts_holding (revised repository)

end Surroundings

end ModelHub
