import ModelHub.Proofs.Push.Agenda
import ModelHub.Proofs.Reconcile.Desired
import ModelHub.Proofs.Tagging.Regime

/-! A reconciliation keeps to associations, framework tags and resource tags, and gives no framework
a second association.

The associations that are added are those of desired frameworks for which none was listed. Removals
make no association, and each addition takes up only the slot of its own framework. -/

namespace ModelHub

open Reconcile
open Work (attemptEach keeps_askStore keeps_attempt keeps_attemptEach keeps_bind keeps_checkpoint
  keeps_fetch keeps_holding keeps_mk_bind keeps_of_leads keeps_perform keeps_pure leads_attemptEach
  leads_of_keeps leads_storeCall)

namespace Reconcile

def Desired.Distinct (desired : Desired) : Prop :=
  (desired.candidates.map Candidate.frameworkId).Nodup

theorem Desired.Distinct.add {desired : Desired} (distinct : desired.Distinct)
    {candidate : Candidate} (framework : Framework)
    (absent : Difference.isDesired desired.candidates candidate.frameworkId = false) :
    (desired.add candidate framework).Distinct := by
  have new : ∀ other ∈ desired.candidates, other.frameworkId ≠ candidate.frameworkId := by
    intro other member same
    have present := isDesired_iff.mpr ⟨other, member, same⟩
    rw [absent] at present
    cases present
  show ((Difference.insertCandidate candidate desired.candidates).map _).Nodup
  rw [((insertCandidate_perm new).map Candidate.frameworkId).nodup_iff, List.map_cons,
    List.nodup_cons]
  refine ⟨?_, distinct⟩
  intro member
  obtain ⟨other, otherMember, same⟩ := List.mem_map.mp member
  exact new other otherMember same

variable {kept : Store → Prop}

theorem keeps_resolve (candidates : List Candidate) {desired : Desired}
    (distinct : desired.Distinct) :
    Work.Keeps kept (resolve candidates desired) Desired.Distinct := by
  induction candidates generalizing desired with
  | nil => exact keeps_pure distinct
  | cons candidate rest ih =>
    unfold resolve
    split
    · exact ih distinct
    · next absent =>
      refine keeps_bind (keeps_askStore fun _ => id) fun found _ => ?_
      cases found with
      | none => exact ih distinct
      | some framework => exact ih (distinct.add framework (Bool.eq_false_iff.mpr absent))

theorem keeps_desiredFor {architecture model : String} :
    Work.Keeps kept (desiredFor architecture model) Desired.Distinct :=
  keeps_bind (keeps_askStore fun _ => id) fun candidates _ =>
    keeps_resolve candidates List.nodup_nil

theorem keeps_tagNamesOf (stored : List Association) :
    Work.Keeps kept (tagNamesOf stored) fun _ => True := by
  induction stored with
  | nil => exact keeps_pure trivial
  | cons row rest ih =>
    refine keeps_bind (keeps_askStore fun _ => id) fun _ _ => ?_
    exact keeps_bind ih fun _ _ => keeps_pure trivial

def slots (repositoryId : Int) (candidates : List Candidate) : Set (Int × Int) :=
  {slot | ∃ candidate ∈ candidates, slot = (repositoryId, candidate.frameworkId)}

end Reconcile

namespace Regime

variable {regime : Regime} {vacant : Set (Int × Int)} {repositoryId : Int} {desired : Desired}

theorem keeps_linkResource (permitted : regime.permits .resource)
    (housed : regime.start.Houses repositoryId .model) (resource : String) :
    Work.Keeps (regime.Holds vacant) (linkResource repositoryId resource) fun _ => True :=
  keeps_bind (keeps_link permitted ⟨rfl, rfl⟩ housed) fun _ _ => keeps_pure trivial

theorem keeps_removeAssociation (permitted : regime.permits .runtimeFramework)
    (stored : Association) :
    Work.Keeps (regime.Holds vacant) (removeAssociation repositoryId desired stored)
      fun _ => True := by
  refine keeps_bind (keeps_askStore fun _ holds => holds.filterAssociations permitted _)
    fun _ _ => ?_
  refine keeps_bind (keeps_askStore fun _ => id) fun found _ => ?_
  cases found with
  | none => exact keeps_pure trivial
  | some framework =>
    dsimp only
    split
    · exact keeps_pure trivial
    · exact keeps_bind (keeps_unlink permitted) fun _ _ => keeps_pure trivial

/-- The slots of the candidates that are left stay vacant. -/
theorem leads_addAssociation (permitted : regime.permits .runtimeFramework)
    (housed : regime.start.Houses repositoryId .model) {candidate : Candidate}
    {rest : List Candidate} (distinct : ((candidate :: rest).map Candidate.frameworkId).Nodup)
    {store : Store} (holds : regime.Holds (slots repositoryId (candidate :: rest)) store) :
    Work.Leads Store.anyAnswers (addAssociation repositoryId desired candidate) store
      (fun _ after => regime.Holds (slots repositoryId rest) after)
      fun _ after => regime.Holds (slots repositoryId rest) after := by
  have part : slots repositoryId rest ⊆
      slots repositoryId (candidate :: rest) \ {(repositoryId, candidate.frameworkId)} := by
    rintro slot ⟨other, member, rfl⟩
    refine ⟨⟨other, List.mem_cons_of_mem candidate member, rfl⟩, ?_⟩
    intro same
    have sameFramework : other.frameworkId = candidate.frameworkId := (Prod.mk.inj same).2
    rw [List.map_cons, List.nodup_cons] at distinct
    exact distinct.1 (sameFramework ▸ List.mem_map_of_mem member)
  have holdsBefore := holds.fewer (part.trans Set.sdiff_subset)
  unfold addAssociation
  split
  · exact holdsBefore
  · next framework _ =>
    refine Work.leads_bind.mpr (leads_storeCall ?_ fun _ => holdsBefore)
    intro isNew middle performed
    obtain ⟨-, rfl⟩ := Prod.mk.inj performed
    have free : (⟨repositoryId, candidate.frameworkId, candidate.associationType⟩ :
        Association).slot ∈ slots repositoryId (candidate :: rest) :=
      ⟨candidate, List.mem_cons_self, rfl⟩
    have associated := (holds.associate permitted housed free).fewer part
    have linked : Work.Keeps (regime.Holds (slots repositoryId rest)) (do
        let _ ← Tagging.link repositoryId .model .runtimeFramework "" framework.tagName
        return ()) fun _ => True :=
      keeps_bind (keeps_link permitted ⟨rfl, rfl⟩ housed) fun _ _ => keeps_pure trivial
    exact (leads_of_keeps linked associated).mono (fun _ _ => And.left) fun _ _ => id

theorem leads_addAssociations (permitted : regime.permits .runtimeFramework)
    (housed : regime.start.Houses repositoryId .model) {candidates : List Candidate}
    (distinct : (candidates.map Candidate.frameworkId).Nodup)
    {store : Store} (holds : regime.Holds (slots repositoryId candidates) store) :
    Work.Leads Store.anyAnswers (attemptEach (addAssociation repositoryId desired) candidates) store
      (fun _ after => regime.Holds ∅ after) fun _ after => regime.Holds ∅ after := by
  let kept (left : List Candidate) (store : Store) : Prop :=
    (left.map Candidate.frameworkId).Nodup ∧ regime.Holds (slots repositoryId left) store
  have drop : ∀ value rest store, kept (value :: rest) store → kept rest store := by
    rintro value rest store ⟨leftDistinct, held⟩
    refine ⟨(List.nodup_cons.mp leftDistinct).2, held.fewer ?_⟩
    rintro slot ⟨other, member, same⟩
    exact ⟨other, List.mem_cons_of_mem value member, same⟩
  have step : ∀ value rest store, kept (value :: rest) store →
      Work.Leads Store.anyAnswers (addAssociation repositoryId desired value) store
        (fun _ after => kept rest after) fun _ after => kept rest after := by
    rintro value rest store ⟨leftDistinct, held⟩
    have restDistinct := (List.nodup_cons.mp leftDistinct).2
    exact (leads_addAssociation permitted housed leftDistinct held).mono
      (fun _ _ after => ⟨restDistinct, after⟩) fun _ _ after => ⟨restDistinct, after⟩
  exact (leads_attemptEach drop step candidates ⟨distinct, holds⟩).mono
    (fun _ _ ended => ended.2.fewer (Set.empty_subset _))
    fun _ _ ended => ended.2.fewer (Set.empty_subset _)

theorem keeps_unlinkUnbacked (permitted : regime.permits .runtimeFramework) (backed : List String)
    (tags : List Tag) :
    Work.Keeps (regime.Holds vacant) (unlinkUnbacked repositoryId backed tags) fun _ => True := by
  induction tags with
  | nil => exact keeps_pure trivial
  | cons tag rest ih =>
    unfold unlinkUnbacked
    split
    · exact ih
    · refine keeps_bind (keeps_unlink permitted) fun _ _ => ?_
      exact keeps_bind ih fun _ _ => keeps_pure trivial

theorem keeps_pruneTags (permitted : regime.permits .runtimeFramework) :
    Work.Keeps (regime.Holds vacant) (pruneTags repositoryId desired) fun _ => True := by
  refine keeps_bind (keeps_askStore fun _ => id) fun stored _ => ?_
  refine keeps_bind (keeps_tagNamesOf stored) fun names _ => ?_
  refine keeps_bind (keeps_askStore fun _ => id) fun tags _ => ?_
  exact keeps_unlinkUnbacked permitted _ tags

theorem keeps_unlinkAll (permitted : regime.permits .runtimeFramework) (tags : List Tag) :
    Work.Keeps (regime.Holds vacant) (unlinkAll repositoryId tags) fun _ => True := by
  induction tags with
  | nil => exact keeps_pure trivial
  | cons tag rest ih =>
    refine keeps_bind (keeps_unlink permitted) fun _ _ => ?_
    exact keeps_bind ih fun _ _ => keeps_pure trivial

theorem keeps_clear {repository : Repository} (permitted : regime.permits .runtimeFramework) :
    Work.Keeps (regime.Holds vacant) (clear repository) fun _ => True := by
  refine keeps_bind keeps_checkpoint fun _ _ => ?_
  refine keeps_bind (keeps_askStore fun _ holds => holds.filterAssociations permitted _)
    fun _ _ => ?_
  refine keeps_bind (keeps_askStore fun _ => id) fun tags _ => ?_
  exact keeps_bind (keeps_unlinkAll permitted tags) fun _ _ => keeps_pure trivial

/-- Those to be added have no association among the listed ones, and nothing else is vacant before
they are. -/
theorem Holds.vacate {store : Store} (holds : regime.Holds ∅ store) (repositoryId : Int)
    (desired : Desired) :
    regime.Holds (slots repositoryId
      (Difference.between (store.associationsOf repositoryId) desired.candidates).toAdd) store := by
  refine { holds with vacant := ?_ }
  rintro row member ⟨candidate, toAdd, same⟩
  obtain ⟨here, ofFramework⟩ := Prod.mk.inj same
  have notStored := (List.mem_filter.mp toAdd).2
  have listed : row ∈ store.associationsOf repositoryId :=
    Store.mem_associationsOf.mpr ⟨member, here⟩
  have stored : Difference.isStored (store.associationsOf repositoryId) candidate.frameworkId =
      true := isStored_iff.mpr ⟨row, listed, ofFramework⟩
  rw [stored] at notStored
  cases notStored

theorem keeps_settle {repository : Repository} {architecture : String}
    (permitted : regime.permits .runtimeFramework) (permittedResource : regime.permits .resource)
    (housed : regime.start.Houses repository.id .model) :
    Work.Keeps (regime.Holds ∅) (settle repository architecture) fun _ => True := by
  refine keeps_bind (keeps_askStore fun _ => id) fun resources _ => ?_
  refine keeps_bind (keeps_attemptEach (keeps_linkResource permittedResource housed) resources)
    fun linked _ => ?_
  refine keeps_bind keeps_desiredFor fun desired distinct => ?_
  refine keeps_of_leads fun store holds => Work.leads_bind.mpr (leads_storeCall ?_ fun _ => holds)
  intro stored after performed
  obtain ⟨answer, rfl⟩ := Prod.mk.inj performed
  obtain rfl := Except.ok.inj answer
  let difference := Difference.between (store.associationsOf repository.id) desired.candidates
  have toAddDistinct : (difference.toAdd.map Candidate.frameworkId).Nodup :=
    distinct.sublist (List.filter_sublist.map Candidate.frameworkId)
  have removals : Work.Keeps (regime.Holds (slots repository.id difference.toAdd))
      (attemptEach (removeAssociation repository.id desired) difference.toRemove) fun _ => True :=
    keeps_attemptEach (keeps_removeAssociation permitted) _
  refine Work.leads_bind.mpr ((leads_of_keeps removals (holds.vacate repository.id desired)).mono ?_
    fun _ _ ended => ended.fewer (Set.empty_subset _))
  intro removed middle ended
  refine Work.leads_bind.mpr
    ((leads_addAssociations permitted housed toAddDistinct ended.1).mono ?_ fun _ _ => id)
  intro added last settled
  refine Work.leads_of_keeps ?_ settled
  refine keeps_bind keeps_checkpoint fun _ _ => ?_
  refine keeps_bind (keeps_perform (keeps_attempt (keeps_pruneTags permitted))) fun stale _ => ?_
  exact keeps_pure trivial

variable {config : SyncConfig} {identity : RepoIdentity} {reference path : String}
  {action : FileAction}

theorem keeps_revise {repository : Repository} (permitted : regime.permits .runtimeFramework)
    (permittedResource : regime.permits .resource)
    (housed : regime.start.Houses repository.id .model) :
    Work.Keeps (regime.Holds ∅) (revise config repository reference action) fun _ => True := by
  have recomputed : Work.Keeps (regime.Holds ∅) (recompute config repository reference)
      fun _ => True := by
    refine keeps_bind keeps_fetch fun content _ => ?_
    refine keeps_mk_bind fun architecture _ => ?_
    exact keeps_bind (keeps_settle permitted permittedResource housed) fun _ _ => keeps_pure trivial
  cases action with
  | removed => exact keeps_clear permitted
  | added => exact recomputed
  | modified => exact recomputed

theorem keeps_reconcile
    (permitted : ∀ place, regime.start.place? .model identity.owner identity.name = some place →
      reference = place.expectedReference config →
      regime.permits .runtimeFramework ∧ regime.permits .resource) :
    Work.Keeps (regime.Holds ∅) (reconcile config identity reference path action)
      fun _ => True := by
  unfold reconcile
  split
  · exact keeps_pure trivial
  · refine keeps_bind keeps_findRepository fun repository found => ?_
    dsimp only
    split
    · exact keeps_pure trivial
    · next expected =>
      obtain ⟨permittedFramework, permittedResource⟩ :=
        permitted repository.place found (not_not.mp expected)
      exact keeps_holding
        (keeps_revise permittedFramework permittedResource (Store.houses_of_place? found))

end Regime

end ModelHub
