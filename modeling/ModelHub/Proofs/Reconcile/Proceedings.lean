import ModelHub.Proofs.Engine.Attempts
import ModelHub.Proofs.Reconcile.Breach
import ModelHub.Proofs.Reconcile.Settling

/-! The transcript of a reconciliation that is not broken off, phase by phase: a piece for every
resource, for every row that is removed and for every framework that is added, and the pruning of tags
last. -/

namespace ModelHub

open Program (Transcript)
open Work (Abides Attempted abides_askStore abides_bind abides_pure)

def Call.IsAside : Call → Prop
  | .store (.associate _) | .store (.dissociate _) | .store (.dissociateAll _) => False
  | .store _ => True
  | _ => False

namespace Exchange

def dissociation? : Exchange → Option (Association × Option HubError)
  | ⟨.store (.dissociate row), reply⟩ => some (row, ModelHub.failure? reply)
  | _ => none

def association? : Exchange → Option (Association × Option HubError)
  | ⟨.store (.associate row), reply⟩ => some (row, ModelHub.failure? reply)
  | _ => none

def removed? : List Exchange → Option Association
  | ⟨.store (.dissociate row), reply⟩ :: rest =>
    if (failures (⟨.store (.dissociate row), reply⟩ :: rest)).isEmpty then some row else none
  | _ => none

theorem isCheckpoint_of_isAside {exchange : Exchange} (aside : exchange.call.IsAside) :
    exchange.isCheckpoint = false := by
  obtain ⟨call, reply⟩ := exchange
  cases call with
  | store request => rfl
  | _ => exact aside.elim

theorem dissociation?_of_isAside {exchange : Exchange} (aside : exchange.call.IsAside) :
    exchange.dissociation? = none := by
  obtain ⟨call, reply⟩ := exchange
  cases call with
  | store request => cases request <;> first | rfl | exact aside.elim
  | _ => rfl

theorem association?_of_isAside {exchange : Exchange} (aside : exchange.call.IsAside) :
    exchange.association? = none := by
  obtain ⟨call, reply⟩ := exchange
  cases call with
  | store request => cases request <;> first | rfl | exact aside.elim
  | _ => rfl

end Exchange

abbrev Work.StaysAside {α : Type} (work : Work α) : Prop := Abides (fun call _ => call.IsAside) work

namespace Reconcile

theorem aside_link (repositoryId : Int) (scope : TagScope) (category : TagCategory)
    (group name : String) :
    Work.StaysAside (Tagging.link repositoryId scope category group name) :=
  abides_bind (abides_askStore fun _ => trivial) fun _ => abides_askStore fun _ => trivial

theorem aside_unlink (repositoryId : Int) (scope : TagScope) (category : TagCategory)
    (group name : String) :
    Work.StaysAside (Tagging.unlink repositoryId scope category group name) := by
  refine abides_bind (abides_askStore fun _ => trivial) fun found => ?_
  cases found with
  | none => exact abides_pure _
  | some tag => exact abides_askStore fun _ => trivial

theorem aside_linkResource (repositoryId : Int) (resource : String) :
    Work.StaysAside (linkResource repositoryId resource) :=
  abides_bind (aside_link _ _ _ _ _) fun _ => abides_pure _

theorem aside_resolve (candidates : List Candidate) (desired : Desired) :
    Work.StaysAside (resolve candidates desired) := by
  induction candidates generalizing desired with
  | nil => exact abides_pure _
  | cons candidate rest ih =>
    unfold resolve
    split
    · exact ih desired
    · refine abides_bind (abides_askStore fun _ => trivial) fun found => ?_
      cases found with
      | none => exact ih desired
      | some framework => exact ih _

theorem aside_desiredFor (architecture model : String) :
    Work.StaysAside (desiredFor architecture model) :=
  abides_bind (abides_askStore fun _ => trivial) fun candidates => aside_resolve candidates {}

theorem aside_tagNamesOf (stored : List Association) : Work.StaysAside (tagNamesOf stored) := by
  induction stored with
  | nil => exact abides_pure _
  | cons row rest ih =>
    exact abides_bind (abides_askStore fun _ => trivial) fun _ => abides_bind ih fun _ => abides_pure _

theorem aside_unlinkUnbacked (repositoryId : Int) (backed : List String) (tags : List Tag) :
    Work.StaysAside (unlinkUnbacked repositoryId backed tags) := by
  induction tags with
  | nil => exact abides_pure _
  | cons tag rest ih =>
    unfold unlinkUnbacked
    split
    · exact ih
    · exact abides_bind (aside_unlink _ _ _ _ _) fun _ => abides_bind ih fun _ => abides_pure _

theorem aside_pruneTags (repositoryId : Int) (desired : Desired) :
    Work.StaysAside (pruneTags repositoryId desired) := by
  refine abides_bind (abides_askStore fun _ => trivial) fun stored => ?_
  refine abides_bind (aside_tagNamesOf stored) fun names => ?_
  exact abides_bind (abides_askStore fun _ => trivial) fun tags => aside_unlinkUnbacked _ _ tags

variable {faults : HubError → Prop} {files : FileRequest → Except HubError String}
  {repositoryId : Int} {desired : Desired} {store after : Store} {said part : List Exchange}

theorem forall_aside {α : Type} {work : Work α} {outcome : Except HubError α}
    (aside : work.StaysAside)
    (transcript : Transcript (Store.answers faults files) work.run store said outcome after) :
    ∀ exchange ∈ said, exchange.call.IsAside := by
  intro exchange member
  obtain ⟨_, _, isAside, _⟩ := transcript.allowed
    (fun _ _ _ _ answered => Store.anyAnswers_of_possible (Store.possible_of_answers answered))
    (aside store) exchange member
  exact isAside

theorem failures_of_minor {α : Type} {work : Work α} {listed : Bool} {outcome : Except HubError α}
    (minor : Work.Minor faults listed work)
    (transcript : Transcript (Store.answers faults files) work.run store said outcome after) :
    Exchange.failures said = errorOf outcome := by
  have told := minor _ _ _ _ (transcript.mono fun _ _ _ _ => Store.possible_of_answers)
  cases outcome with
  | ok value => exact told.1
  | error e => exact told.1

theorem removal_part {row : Association} {outcome : Except HubError Unit}
    (isOf : row.repositoryId = repositoryId)
    (transcript : Transcript (Store.answers faults files)
      (removeAssociation repositoryId desired row).run store part outcome after) :
    ∃ reply rest, part = ⟨.store (.dissociate row), reply⟩ :: rest ∧
      ∀ exchange ∈ rest, exchange.call.IsAside := by
  have whole : { row with repositoryId := repositoryId } = row := by rw [← isOf]
  unfold removeAssociation at transcript
  rw [whole] at transcript
  rcases Work.transcript_askStore_bind transcript with ⟨e, -, rfl⟩ | ⟨_, rest, _, rfl, -, onward⟩
  · exact ⟨_, [], rfl, fun _ member => absurd member List.not_mem_nil⟩
  · refine ⟨_, rest, rfl, forall_aside ?_ onward⟩
    refine abides_bind (abides_askStore fun _ => trivial) fun found => ?_
    cases found with
    | none => exact abides_pure _
    | some framework =>
      dsimp only
      split
      · exact abides_pure _
      · exact abides_bind (aside_unlink _ _ _ _ _) fun _ => abides_pure _

def rowOf (repositoryId : Int) (candidate : Candidate) : Association :=
  { repositoryId := repositoryId, frameworkId := candidate.frameworkId
    associationType := candidate.associationType }

theorem addition_part {candidate : Candidate} {outcome : Except HubError Unit}
    (backed : desired.Backed) (member : candidate ∈ desired.candidates)
    (transcript : Transcript (Store.answers faults files)
      (addAssociation repositoryId desired candidate).run store part outcome after) :
    ∃ reply rest, part = ⟨.store (.associate (rowOf repositoryId candidate)), reply⟩ :: rest ∧
      ∀ exchange ∈ rest, exchange.call.IsAside := by
  obtain ⟨framework, known⟩ := Option.isSome_iff_exists.mp (backed.framework?_isSome member)
  unfold addAssociation at transcript
  rw [known] at transcript
  rcases Work.transcript_askStore_bind transcript with ⟨e, -, rfl⟩ | ⟨_, rest, _, rfl, -, onward⟩
  · exact ⟨_, [], rfl, fun _ member => absurd member List.not_mem_nil⟩
  · exact ⟨_, rest, rfl, forall_aside (abides_bind (aside_link _ _ _ _ _) fun _ => abides_pure _) onward⟩

/-- The phases of a settlement that is not broken off. -/
structure Proceedings (faults : HubError → Prop) (files : FileRequest → Except HubError String)
    (repository : Repository) (architecture : String) (before : Store) (report : Report)
    (after : Store) where
  linking : List (List Exchange)
  lookUp : List Exchange
  removing : List (List Exchange)
  adding : List (List Exchange)
  pruning : List Exchange
  linked : Work.Attempts String
  removed : Work.Attempts Association
  added : Work.Attempts Candidate
  stale : Except HubError (List String)
  equipped : Store
  cut : Store
  grown : Store
  desired : Desired
  backed : desired.Backed
  links : Attempted faults files (linkResource repository.id)
    (before.resourceNames repository.modelName) before linking linked equipped
  looksUp : Transcript (Store.answers faults files)
    (desiredFor architecture repository.modelName).run equipped lookUp (.ok desired) equipped
  removes : Attempted faults files (removeAssociation repository.id desired)
    (Difference.between (equipped.associationsOf repository.id) desired.candidates).toRemove
    equipped removing removed cut
  adds : Attempted faults files (addAssociation repository.id desired)
    (Difference.between (equipped.associationsOf repository.id) desired.candidates).toAdd
    cut adding added grown
  prunes : Transcript (Store.answers faults files) (pruneTags repository.id desired).run grown pruning
    stale after
  linkedResources : report.resources = linked.succeeded
  removedIds : report.removed = removed.succeeded.map Association.frameworkId
  addedIds : report.added = added.succeeded.map Candidate.frameworkId
  failures : report.failures =
    linked.failures ++ removed.failures ++ added.failures ++ errorOf stale

def Proceedings.exchanges {repository : Repository} {architecture : String} {report : Report}
    (proceedings : Proceedings faults files repository architecture store report after) :
    List Exchange :=
  ⟨.store (.listResources repository.modelName), .ok (store.resourceNames repository.modelName)⟩ ::
    (Exchange.joined proceedings.linking ++ (proceedings.lookUp ++
      ⟨.store (.listAssociations repository.id),
        .ok (proceedings.equipped.associationsOf repository.id)⟩ ::
        (Exchange.joined proceedings.removing ++ (Exchange.joined proceedings.adding ++
          Exchange.goesOn :: proceedings.pruning))))

theorem breach?_parts {listed : Bool} {first rest : List Exchange}
    (unbroken : breach? listed (first ++ rest) = none) :
    breach? listed first = none ∧ breach? (listed || first.any Exchange.lists) rest = none := by
  rwa [breach?_append, Option.or_eq_none_iff] at unbroken

theorem unchanged_of_desiredFor {architecture model : String} {outcome : Except HubError Desired}
    (transcript : Transcript (Store.answers faults files) (desiredFor architecture model).run store said
      outcome after) : after = store := by
  have resolves : ∀ candidates desired, Work.Keeps (· = store) (resolve candidates desired)
      fun _ => True := by
    intro candidates
    induction candidates with
    | nil => exact fun desired => Work.keeps_pure trivial
    | cons candidate rest ih =>
      intro desired
      unfold resolve
      split
      · exact ih desired
      · refine Work.keeps_bind (Work.keeps_askStore fun _ => id) fun found _ => ?_
        cases found with
        | none => exact ih desired
        | some framework => exact ih _
  have keeps : Work.Keeps (· = store) (desiredFor architecture model) fun _ => True :=
    Work.keeps_bind (Work.keeps_askStore fun _ => id) fun candidates _ => resolves candidates {}
  have ended := (transcript.mono fun _ _ _ _ answered =>
    Store.anyAnswers_of_possible (Store.possible_of_answers answered)).of_leads (keeps store rfl)
  exact ended.1

/-- A settlement is broken off by a failed look-up only. -/
theorem proceedings_of_settle {repository : Repository} {architecture : String}
    {outcome : Except HubError Report} (unbroken : breach? false said = none)
    (transcript : Transcript (Store.answers faults files) (settle repository architecture).run store
      said outcome after) :
    ∃ report, outcome = .ok report ∧
      ∃ proceedings : Proceedings faults files repository architecture store report after,
        said = proceedings.exchanges := by
  rcases Work.transcript_askStore_bind transcript with ⟨e, -, rfl⟩ |
    ⟨resources, _, _, rfl, performed, linksOn⟩
  · cases unbroken
  obtain ⟨same, rfl⟩ := Prod.mk.inj performed
  obtain rfl := Except.ok.inj same
  obtain ⟨linking, behind, linked, equipped, rfl, links, looksOn⟩ :=
    Work.transcript_attemptEach_bind linksOn
  have onward : breach? false (Exchange.joined linking ++ behind) = none := unbroken
  -- No link lists the associations, so a failure of the look-up is a breach.
  have minor : ∀ part ∈ linking, ∀ exchange ∈ part, exchange.IsMinor false := by
    refine links.forall_part fun resource _ _ part outcome _ made => ?_
    have told := @minor_linkResource faults false repository.id resource _ _ _ _
      (made.mono fun _ _ _ _ => Store.possible_of_answers)
    cases outcome <;> exact told.2
  obtain ⟨-, unlisted⟩ := breach?_minor (Exchange.forall_joined ⟨rfl, rfl⟩ minor)
  have looking := (breach?_parts onward).2
  rw [unlisted] at looking
  rcases Work.transcript_bind looksOn with ⟨e, -, failed⟩ | ⟨lookUp, _, desired, _, rfl, looksUp, listsOn⟩
  · -- With something noted already, the look-up cannot give up for what is missing.
    have noted := @notes_desiredFor faults [.cancelled] architecture repository.modelName _ _ _ _
      (failed.mono fun _ _ _ _ => Store.possible_of_answers)
    rcases noted with broken | ⟨-, -, impossible⟩
    · exact absurd (looking.symm.trans broken) (by simp)
    · cases impossible
  obtain rfl := unchanged_of_desiredFor looksUp
  have noted := @notes_desiredFor faults [] architecture repository.modelName _ _ _ _
    (looksUp.mono fun _ _ _ _ => Store.possible_of_answers)
  obtain ⟨-, stillUnlisted, -, backed⟩ := noted
  have listing := (breach?_parts looking).2
  rw [stillUnlisted] at listing
  rcases Work.transcript_askStore_bind listsOn with ⟨e, -, rfl⟩ |
    ⟨stored, _, _, rfl, performed, removesOn⟩
  · cases listing
  obtain ⟨same, rfl⟩ := Prod.mk.inj performed
  obtain rfl := Except.ok.inj same
  obtain ⟨removing, _, removed, cut, rfl, removes, addsOn⟩ :=
    Work.transcript_attemptEach_bind removesOn
  obtain ⟨adding, _, added, grown, rfl, adds, checksOn⟩ := Work.transcript_attemptEach_bind addsOn
  obtain ⟨_, rfl, prunesOn⟩ := Work.transcript_checkpoint_bind checksOn
  obtain ⟨pruning, _, stale, _, rfl, prunes, ended⟩ := Work.transcript_attempt_bind prunesOn
  obtain ⟨rfl, rfl, rfl⟩ := ended
  refine ⟨_, rfl, {
    linking, lookUp, removing, adding, pruning, linked, removed, added, stale, cut, grown, desired
    equipped := _
    backed, links, looksUp, removes, adds, prunes
    linkedResources := rfl
    removedIds := rfl
    addedIds := rfl
    failures := rfl }, ?_⟩
  rw [List.append_nil]
  rfl

end Reconcile

end ModelHub
