import ModelHub.Proofs.Engine.Keeps
import ModelHub.Proofs.Engine.Transcript
import ModelHub.Proofs.Reconcile.Account
import ModelHub.Proofs.Reconcile.Belongings
import ModelHub.Push.Processing

/-! What breaks a reconciliation off, and which failures it reports.

The links, removals and additions are only attempted, and so is the pruning of tags: their failures are
noted, and the reconciliation goes on. A failed look-up or a cancellation between the attempts breaks it
off, and then the notes are lost. -/

namespace ModelHub

namespace Exchange

/-- The associations were listed: all look-ups that the rest of a reconciliation relies on are done. -/
def lists : Exchange → Bool
  | ⟨.store (.listAssociations _), .ok _⟩ => true
  | _ => false

/-- The failure that breaks a reconciliation off, if it is one. Once the associations have been listed,
only attempts look up a framework or list them again. -/
def breach? (listed : Bool) : Exchange → Option HubError
  | ⟨.isCancelled, .ok true⟩ => some .cancelled
  | ⟨.fetch .., .error e⟩ => some e
  | ⟨.store (.listResources _), .error e⟩ => some e
  | ⟨.store (.listCandidates ..), .error e⟩ => some e
  | ⟨.store (.findFramework _), .error e⟩ => if listed then none else some e
  | ⟨.store (.listAssociations _), .error e⟩ => if listed then none else some e
  | _ => none

/-- The exchange neither breaks a reconciliation off nor brings it on. -/
structure IsMinor (listed : Bool) (exchange : Exchange) : Prop where
  goesOn : exchange.breach? listed = none
  stays : (listed || exchange.lists) = listed

end Exchange

namespace Reconcile

def breach? (listed : Bool) : List Exchange → Option HubError
  | [] => none
  | exchange :: rest => (exchange.breach? listed).or (breach? (listed || exchange.lists) rest)

theorem breach?_append (listed : Bool) (first rest : List Exchange) :
    breach? listed (first ++ rest) =
      (breach? listed first).or (breach? (listed || first.any Exchange.lists) rest) := by
  induction first generalizing listed with
  | nil => simp [breach?]
  | cons exchange first ih => simp only [List.cons_append, breach?, ih, List.any_cons,
      Bool.or_assoc, Option.or_assoc]

theorem breach?_minor {listed : Bool} {said : List Exchange}
    (minor : ∀ exchange ∈ said, exchange.IsMinor listed) :
    breach? listed said = none ∧ (listed || said.any Exchange.lists) = listed := by
  induction said with
  | nil => exact ⟨rfl, Bool.or_false listed⟩
  | cons exchange rest ih =>
    obtain ⟨first, later⟩ := List.forall_mem_cons.mp minor
    obtain ⟨none, same⟩ := ih later
    constructor
    · rw [breach?, first.goesOn, first.stays, none]
      rfl
    · rw [List.any_cons, ← Bool.or_assoc, first.stays, same]

/-- What a reconciliation reports of the failures that it met: all of them, or just the one that broke
it off, unless that may be passed over. -/
def reported (said : List Exchange) : List HubError :=
  match breach? false said with
  | some e => if e.isSkippable then [] else [e]
  | none => Exchange.failures said

end Reconcile

namespace Work

open Reconcile (breach?)
open Store (possibleAnswers)

variable {faults : HubError → Prop} {listed : Bool} {noted : List HubError} {α β : Type}

/-- Work that ends with the first failure it meets, and meets nothing that would break a
reconciliation off. -/
def Minor (faults : HubError → Prop) (listed : Bool) (work : Work α) : Prop :=
  Tells (possibleAnswers faults) work
    (fun _ said => Exchange.failures said = [] ∧ ∀ exchange ∈ said, exchange.IsMinor listed)
    fun e said => Exchange.failures said = [e] ∧ ∀ exchange ∈ said, exchange.IsMinor listed

theorem minor_pure (value : α) : Minor faults listed (pure value : Work α) :=
  tells_pure ⟨rfl, fun _ member => absurd member List.not_mem_nil⟩

theorem minor_askStore {request : StoreCall}
    (minor : ∀ reply, Exchange.IsMinor listed ⟨.store request, reply⟩) :
    Minor faults listed (askStore request) := by
  have all : ∀ reply, ∀ exchange ∈ [(⟨.store request, reply⟩ : Exchange)],
      exchange.IsMinor listed :=
    fun reply exchange member => List.mem_singleton.mp member ▸ minor reply
  refine tells_ask ?_ ?_
  · exact fun _ value _ _ => ⟨rfl, all (.ok value)⟩
  · exact fun _ e _ _ => ⟨rfl, all (.error e)⟩

theorem minor_bind {work : Work α} {next : α → Work β} (first : Minor faults listed work)
    (rest : ∀ value, Minor faults listed (next value)) : Minor faults listed (work >>= next) := by
  refine tells_bind (Tells.mono first ?_ fun _ _ => id)
  intro value said told
  obtain ⟨nothing, minor⟩ := told
  have both : ∀ later, (∀ exchange ∈ later, Exchange.IsMinor listed exchange) →
      ∀ exchange ∈ said ++ later, exchange.IsMinor listed := by
    intro later minorLater
    exact List.forall_mem_append.mpr ⟨minor, minorLater⟩
  refine Tells.mono (rest value) ?_ ?_
  · intro _ later told
    exact ⟨by simp [nothing, told.1], both later told.2⟩
  · intro e later told
    exact ⟨by simp [nothing, told.1], both later told.2⟩

/-- With some failures noted already, the work notes those that it meets, or is broken off. It may also
give up before anything was noted, for something that is missing or malformed. -/
def Noted (listed : Bool) (noted : List HubError) (good : α → Bool → List HubError → Prop) :
    Except HubError α → List Exchange → Prop
  | .ok value, said => breach? listed said = none ∧
      good value (listed || said.any Exchange.lists) (noted ++ Exchange.failures said)
  | .error e, said => breach? listed said = some e ∨
      e.isSkippable ∧ breach? listed said = none ∧ noted ++ Exchange.failures said = []

def Notes (faults : HubError → Prop) (listed : Bool) (noted : List HubError) (work : Work α)
    (good : α → Bool → List HubError → Prop) : Prop :=
  Program.Tells (possibleAnswers faults) work.run (Noted listed noted good)

variable {good : α → Bool → List HubError → Prop}

theorem notes_pure {value : α} (holds : good value listed noted) :
    Notes faults listed noted (pure value) good := by
  refine Program.tells_done ⟨rfl, ?_⟩
  rwa [List.any_nil, Bool.or_false, Exchange.failures_nil, List.append_nil]

theorem notes_mk {outcome : Except HubError α}
    (onValue : ∀ value, outcome = .ok value → good value listed [])
    (onFailure : ∀ e, outcome = .error e → e.isSkippable) :
    Notes faults listed [] (ExceptT.mk (pure outcome)) good := by
  cases outcome with
  | ok value => exact notes_pure (onValue value rfl)
  | error e => exact Program.tells_done (Or.inr ⟨onFailure e rfl, rfl, rfl⟩)

theorem notes_bind {work : Work α} {next : α → Work β} {good : β → Bool → List HubError → Prop}
    (notes : Notes faults listed noted work fun value listed noted =>
      Notes faults listed noted (next value) good) :
    Notes faults listed noted (work >>= next) good := by
  refine Program.tells_bind (Program.Tells.mono notes ?_)
  intro outcome first held
  cases outcome with
  | error e => exact Program.tells_done (by rw [List.append_nil]; exact held)
  | ok value =>
    obtain ⟨unbroken, onward⟩ := held
    refine Program.Tells.mono onward ?_
    intro result rest held
    have breach : breach? listed (first ++ rest) =
        breach? (listed || first.any Exchange.lists) rest := by
      rw [Reconcile.breach?_append, unbroken, Option.none_or]
    have failures : noted ++ Exchange.failures (first ++ rest) =
        noted ++ Exchange.failures first ++ Exchange.failures rest := by
      rw [Exchange.failures_append, List.append_assoc]
    cases result with
    | ok last =>
      refine ⟨breach.trans held.1, ?_⟩
      rw [failures, List.any_append, ← Bool.or_assoc]
      exact held.2
    | error e =>
      refine held.imp breach.trans fun missing => ?_
      exact ⟨missing.1, breach.trans missing.2.1, failures.trans missing.2.2⟩

theorem Notes.mono {work : Work α} {better : α → Bool → List HubError → Prop}
    (notes : Notes faults listed noted work good)
    (onValue : ∀ value listed noted, good value listed noted → better value listed noted) :
    Notes faults listed noted work better := by
  refine Program.Tells.mono notes ?_
  intro outcome said held
  cases outcome with
  | ok value => exact ⟨held.1, onValue value _ _ held.2⟩
  | error e => exact held

theorem notes_checkpoint {good : Unit → Bool → List HubError → Prop}
    (onward : good () listed noted) : Notes faults listed noted checkpoint good := by
  intro store said outcome after transcript
  obtain ⟨-, ⟨rfl, rfl⟩ | ⟨rfl, rfl⟩⟩ := transcript_checkpoint transcript
  · exact Or.inl rfl
  · refine ⟨rfl, ?_⟩
    show good () (listed || false) (noted ++ [])
    rwa [Bool.or_false, List.append_nil]

theorem notes_ask {call : Call} {good : call.Reply → Bool → List HubError → Prop}
    (onValue : ∀ store value after, possibleAnswers faults call store (.ok value) after →
      Exchange.failure? ⟨call, .ok value⟩ = none ∧
        Exchange.breach? listed ⟨call, .ok value⟩ = none ∧
          good value (listed || Exchange.lists ⟨call, .ok value⟩) noted)
    (breaks : ∀ e, Exchange.breach? listed ⟨call, .error e⟩ = some e) :
    Notes faults listed noted (Work.ask call) good := by
  refine Program.tells_ask fun store reply after answered => Program.tells_done ?_
  cases reply with
  | ok value =>
    obtain ⟨noFailure, unbroken, holds⟩ := onValue store value after answered
    refine ⟨?_, ?_⟩
    · rw [breach?, unbroken]
      rfl
    · rw [List.any_cons, List.any_nil, Bool.or_false, Exchange.failures, List.filterMap_cons,
        noFailure, List.filterMap_nil, List.append_nil]
      exact holds
  | error e =>
    refine Or.inl ?_
    rw [breach?, breaks]
    rfl

theorem notes_askStore {request : StoreCall} {good : request.Reply → Bool → List HubError → Prop}
    (onValue : ∀ store value after, Store.perform store request = (.ok value, after) →
      Exchange.breach? listed ⟨.store request, .ok value⟩ = none ∧
        good value (listed || Exchange.lists ⟨.store request, .ok value⟩) noted)
    (breaks : ∀ e, Exchange.breach? listed ⟨.store request, .error e⟩ = some e) :
    Notes faults listed noted (askStore request) good := by
  refine notes_ask ?_ breaks
  intro store value after answered
  rcases answered with performed | ⟨e, -, failed, -⟩
  · exact ⟨rfl, onValue store value after performed⟩
  · cases failed

theorem notes_fetch {request : FileRequest} {limit : Duration}
    {good : String → Bool → List HubError → Prop} (onward : ∀ content, good content listed noted) :
    Notes faults listed noted (fetch request limit) good := by
  refine notes_bind (notes_checkpoint (notes_ask ?_ fun _ => rfl))
  intro _ content _ _
  refine ⟨rfl, rfl, ?_⟩
  show good content (listed || false) noted
  rw [Bool.or_false]
  exact onward content

theorem notes_attempt {work : Work α} {good : Except HubError α → Bool → List HubError → Prop}
    (minor : Minor faults listed work)
    (onward : ∀ outcome, good outcome listed (noted ++ Reconcile.errorOf outcome)) :
    Notes faults listed noted (perform (attempt work)) good := by
  have attempted : Tells (possibleAnswers faults) (perform (attempt work))
      (fun outcome said => Exchange.failures said = Reconcile.errorOf outcome ∧
        ∀ exchange ∈ said, exchange.IsMinor listed) fun _ _ => False := by
    refine tells_perform (Program.Tells.mono minor fun outcome said told => ?_)
    cases outcome <;> exact told
  refine Program.Tells.mono attempted fun outcome said told => ?_
  cases outcome with
  | error e => exact told.elim
  | ok result =>
    obtain ⟨failures, allMinor⟩ := told
    obtain ⟨unbroken, same⟩ := Reconcile.breach?_minor allMinor
    refine ⟨unbroken, ?_⟩
    rw [same, failures]
    exact onward result

theorem notes_attemptEach {work : α → Work Unit} {values : List α}
    (each : ∀ value ∈ values, Minor faults listed (work value)) :
    Notes faults listed noted (attemptEach work values) fun attempts now after =>
      now = listed ∧ after = noted ++ attempts.failures := by
  induction values generalizing noted with
  | nil => exact notes_pure ⟨rfl, (List.append_nil noted).symm⟩
  | cons value rest ih =>
    obtain ⟨first, later⟩ := List.forall_mem_cons.mp each
    refine notes_bind (notes_checkpoint (notes_bind (notes_attempt first fun outcome => ?_)))
    refine notes_bind ((ih later).mono ?_)
    rintro attempts _ _ ⟨rfl, rfl⟩
    refine notes_pure ⟨rfl, ?_⟩
    cases outcome <;> simp [Work.Attempts.add, Reconcile.errorOf]

end Work

namespace Reconcile

open Work (Minor Notes minor_askStore minor_bind minor_pure notes_askStore notes_attempt
  notes_attemptEach notes_bind notes_checkpoint notes_fetch notes_mk notes_pure)

variable {faults : HubError → Prop} {listed : Bool} {noted : List HubError}

theorem minor_link (repositoryId : Int) (scope : TagScope) (category : TagCategory)
    (group name : String) :
    Minor faults listed (Tagging.link repositoryId scope category group name) := by
  refine minor_bind (minor_askStore fun reply => ?_) fun tag => minor_askStore fun reply => ?_
  · cases reply <;> exact ⟨rfl, Bool.or_false listed⟩
  · cases reply <;> exact ⟨rfl, Bool.or_false listed⟩

theorem minor_unlink (repositoryId : Int) (scope : TagScope) (category : TagCategory)
    (group name : String) :
    Minor faults listed (Tagging.unlink repositoryId scope category group name) := by
  refine minor_bind (minor_askStore fun reply => ?_) fun found => ?_
  · cases reply <;> exact ⟨rfl, Bool.or_false listed⟩
  · cases found with
    | none => exact minor_pure false
    | some tag =>
      refine minor_askStore fun reply => ?_
      cases reply <;> exact ⟨rfl, Bool.or_false listed⟩

theorem minor_linkResource (repositoryId : Int) (resource : String) :
    Minor faults listed (linkResource repositoryId resource) :=
  minor_bind (minor_link repositoryId .model .resource "" resource) fun _ => minor_pure ()

theorem minor_findFramework (id : Int) :
    Minor faults true (Work.askStore (.findFramework id)) :=
  minor_askStore fun reply => by cases reply <;> exact ⟨rfl, rfl⟩

theorem minor_removeAssociation (repositoryId : Int) (desired : Desired) (stored : Association) :
    Minor faults true (removeAssociation repositoryId desired stored) := by
  refine minor_bind (minor_askStore fun reply => ?_) fun _ => ?_
  · cases reply <;> exact ⟨rfl, rfl⟩
  · refine minor_bind (minor_findFramework stored.frameworkId) fun found => ?_
    cases found with
    | none => exact minor_pure ()
    | some framework =>
      dsimp only
      split
      · exact minor_pure ()
      · exact minor_bind (minor_unlink _ _ _ _ _) fun _ => minor_pure ()

theorem minor_addAssociation (repositoryId : Int) {desired : Desired} {candidate : Candidate}
    (backed : desired.Backed) (member : candidate ∈ desired.candidates) :
    Minor faults true (addAssociation repositoryId desired candidate) := by
  obtain ⟨framework, known⟩ := Option.isSome_iff_exists.mp (backed.framework?_isSome member)
  unfold addAssociation
  rw [known]
  refine minor_bind (minor_askStore fun reply => ?_) fun _ => ?_
  · cases reply <;> exact ⟨rfl, rfl⟩
  · exact minor_bind (minor_link _ _ _ _ _) fun _ => minor_pure ()

theorem minor_tagNamesOf (stored : List Association) :
    Minor faults true (tagNamesOf stored) := by
  induction stored with
  | nil => exact minor_pure []
  | cons row rest ih =>
    exact minor_bind (minor_findFramework row.frameworkId) fun _ =>
      minor_bind ih fun _ => minor_pure _

theorem minor_unlinkUnbacked (repositoryId : Int) (backed : List String) (tags : List Tag) :
    Minor faults listed (unlinkUnbacked repositoryId backed tags) := by
  induction tags with
  | nil => exact minor_pure []
  | cons tag rest ih =>
    unfold unlinkUnbacked
    split
    · exact ih
    · exact minor_bind (minor_unlink _ _ _ _ _) fun _ => minor_bind ih fun _ => minor_pure _

theorem minor_pruneTags (repositoryId : Int) (desired : Desired) :
    Minor faults true (pruneTags repositoryId desired) := by
  refine minor_bind (minor_askStore fun reply => ?_) fun stored => ?_
  · cases reply <;> exact ⟨rfl, rfl⟩
  · refine minor_bind (minor_tagNamesOf stored) fun names => ?_
    refine minor_bind (minor_askStore fun reply => ?_) fun tags => ?_
    · cases reply <;> exact ⟨rfl, rfl⟩
    · exact minor_unlinkUnbacked _ _ tags

theorem minor_unlinkAll (repositoryId : Int) (tags : List Tag) :
    Minor faults listed (unlinkAll repositoryId tags) := by
  induction tags with
  | nil => exact minor_pure 0
  | cons tag rest ih =>
    exact minor_bind (minor_unlink _ _ _ _ _) fun _ => minor_bind ih fun _ => minor_pure _

theorem notes_resolve (candidates : List Candidate) {desired : Desired} (backed : desired.Backed) :
    Notes faults false noted (resolve candidates desired) fun last now after =>
      now = false ∧ after = noted ∧ last.Backed := by
  induction candidates generalizing desired with
  | nil => exact notes_pure ⟨rfl, rfl, backed⟩
  | cons candidate rest ih =>
    unfold resolve
    split
    · exact ih backed
    · next isNew =>
      refine notes_bind (notes_askStore ?_ fun _ => rfl)
      intro store found after performed
      refine ⟨rfl, ?_⟩
      cases found with
      | none => exact ih backed
      | some framework =>
        have known : store.framework? candidate.frameworkId = some framework :=
          Except.ok.inj (Prod.mk.inj performed).1
        exact ih (backed.add isNew (by simpa using List.find?_some known))

theorem notes_desiredFor (architecture model : String) :
    Notes faults false noted (desiredFor architecture model) fun desired now after =>
      now = false ∧ after = noted ∧ desired.Backed := by
  refine notes_bind (notes_askStore ?_ fun _ => rfl)
  intro store candidates after _
  refine ⟨rfl, notes_resolve candidates ?_⟩
  exact fun candidate member => absurd member List.not_mem_nil

theorem notes_settle (repository : Repository) (architecture : String) :
    Notes faults false [] (settle repository architecture) fun report _ after =>
      after = report.failures := by
  refine notes_bind (notes_askStore ?_ fun _ => rfl)
  intro _ resources _ _
  refine ⟨rfl, notes_bind ((notes_attemptEach fun resource _ => minor_linkResource _ resource).mono ?_)⟩
  rintro linked _ _ ⟨rfl, rfl⟩
  refine notes_bind ((notes_desiredFor architecture repository.modelName).mono ?_)
  rintro desired _ _ ⟨rfl, rfl, backed⟩
  refine notes_bind (notes_askStore ?_ fun _ => rfl)
  intro _ stored _ _
  refine ⟨rfl, notes_bind ((notes_attemptEach fun row _ =>
    minor_removeAssociation repository.id desired row).mono ?_)⟩
  rintro removed _ _ ⟨rfl, rfl⟩
  have desiredMember : ∀ candidate ∈ (Difference.between stored desired.candidates).toAdd,
      candidate ∈ desired.candidates := fun candidate member => (List.mem_filter.mp member).1
  refine notes_bind ((notes_attemptEach fun candidate member =>
    minor_addAssociation repository.id backed (desiredMember candidate member)).mono ?_)
  rintro added _ _ ⟨rfl, rfl⟩
  refine notes_bind (notes_checkpoint (notes_bind (notes_attempt
    (minor_pruneTags repository.id desired) fun stale => notes_pure ?_)))
  simp

theorem notes_recompute (config : SyncConfig) (repository : Repository) (reference : String) :
    Notes faults false [] (recompute config repository reference) fun outcome _ after =>
      after = outcome.failures := by
  refine notes_bind (notes_fetch fun content => notes_bind (notes_mk ?_ ?_))
  · intro architecture _
    refine notes_bind ((notes_settle repository architecture).mono ?_)
    rintro report _ _ rfl
    exact notes_pure rfl
  · exact fun e failed => ModelConfig.isSkippable_of_architecture failed

/-- A removal ends with the first failure that it meets, a cancellation included. -/
theorem tells_clear (repository : Repository) :
    Program.Tells (Store.possibleAnswers faults) (clear repository).run fun outcome said =>
      breach? false said = some .cancelled ∧ outcome = .error .cancelled ∨
        breach? false said = none ∧ Exchange.failures said = errorOf outcome := by
  have removes : Minor faults false (do
      let associations ← Work.askStore (.dissociateAll repository.id)
      let tags ← Work.askStore (.listTags repository.id (some .runtimeFramework))
      return Outcome.cleared associations (← unlinkAll repository.id tags)) := by
    refine minor_bind (minor_askStore fun reply => ?_) fun associations => ?_
    · cases reply <;> exact ⟨rfl, rfl⟩
    · refine minor_bind (minor_askStore fun reply => ?_) fun tags => ?_
      · cases reply <;> exact ⟨rfl, rfl⟩
      · exact minor_bind (minor_unlinkAll repository.id tags) fun count => minor_pure _
  intro store said outcome after transcript
  rcases Work.transcript_bind transcript with ⟨e, rfl, stopped⟩ | ⟨first, rest, _, _, rfl, passed, removed⟩
  · obtain ⟨-, ⟨rfl, same⟩ | ⟨-, impossible⟩⟩ := Work.transcript_checkpoint stopped
    · obtain rfl := Except.error.inj same
      exact Or.inl ⟨rfl, rfl⟩
    · cases impossible
  · obtain ⟨-, ⟨-, impossible⟩ | ⟨rfl, -⟩⟩ := Work.transcript_checkpoint passed
    · cases impossible
    · have told := removes _ _ _ _ removed
      refine Or.inr ?_
      cases outcome with
      | ok value => exact ⟨(breach?_minor told.2).1, told.1⟩
      | error e => exact ⟨(breach?_minor told.2).1, told.1⟩

theorem failures_of_clear {repository : Repository} {store after : Store} {said : List Exchange}
    {result : Outcome}
    (transcript : Program.Transcript (Store.possibleAnswers faults) (clear repository).run store said
      (.ok result) after) : result.failures = [] := by
  have unlinks : ∀ tags, Work.Keeps (fun _ => True) (unlinkAll repository.id tags) fun _ => True :=
    fun tags => Work.keeps_of_abides (fun _ _ _ _ _ _ _ => trivial)
      (@abides_unlinkAll repository.id tags)
  have keeps : Work.Keeps (fun _ => True) (clear repository) fun result => result.failures = [] := by
    refine Work.keeps_bind Work.keeps_checkpoint fun _ _ => ?_
    refine Work.keeps_bind (Work.keeps_askStore fun _ _ => trivial) fun associations _ => ?_
    refine Work.keeps_bind (Work.keeps_askStore fun _ _ => trivial) fun tags _ => ?_
    exact Work.keeps_bind (unlinks tags) fun count _ => Work.keeps_pure rfl
  have ended := (transcript.mono fun _ _ _ _ => Store.anyAnswers_of_possible).of_leads
    (keeps store trivial)
  exact ended.2 result rfl

theorem grave_of_clear {repository : Repository} {store after : Store} {said : List Exchange}
    {outcome : Except HubError Outcome} (ofStore : ∀ e, faults e → e.kind = .store)
    (transcript : Program.Transcript (Store.possibleAnswers faults) (clear repository).run store said
      outcome after) {e : HubError} (met : e ∈ Exchange.failures said) : ¬e.isSkippable := by
  obtain ⟨exchange, member, failed⟩ := List.mem_filterMap.mp met
  obtain ⟨before, middle, belongs, answered⟩ := transcript.allowed
    (fun _ _ _ _ => Store.anyAnswers_of_possible) (abides_clear repository store) exchange member
  obtain ⟨call, reply⟩ := exchange
  cases call with
  | store request =>
    cases reply with
    | ok value => cases failed
    | error other =>
      obtain rfl := Option.some.inj failed
      have kind : other.kind = .store := by
        rcases answered with performed | ⟨fault, isFault, same, -⟩
        · obtain ⟨-, message, rfl⟩ := Store.perform_error performed
          rfl
        · obtain rfl := Except.error.inj same
          exact ofStore other isFault
      simp [HubError.isSkippable, kind]
  | isCancelled =>
    obtain ⟨⟨answer, rfl⟩, -⟩ := answered
    cases answer with
    | true =>
      obtain rfl := Option.some.inj failed
      exact Bool.false_ne_true
    | false => cases failed
  | fetch | submit | now | acquire | release => exact belongs.elim

theorem reported_revise {config : SyncConfig} {repository : Repository} {reference : String}
    {action : FileAction} {store after : Store} {said : List Exchange}
    {outcome : Except HubError Outcome} (ofStore : ∀ e, faults e → e.kind = .store)
    (transcript : Program.Transcript (Store.possibleAnswers faults)
      (revise config repository reference action).run store said outcome after) :
    (Push.reconciled outcome).errors = reported said := by
  have ofValue : ∀ result, (Push.reconciled (.ok result)).errors = result.failures := by
    intro result
    cases result <;> rfl
  have ofFailure : ∀ e, (Push.reconciled (.error e)).errors = if e.isSkippable then [] else [e] := by
    intro e
    simp only [Push.reconciled]
    split <;> rfl
  have recomputed : ∀ said outcome, Program.Transcript (Store.possibleAnswers faults)
      (recompute config repository reference).run store said outcome after →
        (Push.reconciled outcome).errors = reported said := by
    intro said outcome transcript
    have noted := notes_recompute config repository reference store said outcome after transcript
    unfold reported
    cases outcome with
    | ok result =>
      obtain ⟨unbroken, failures⟩ := noted
      rw [unbroken, ofValue, ← failures]
      rfl
    | error e =>
      rw [ofFailure]
      rcases noted with broken | ⟨skippable, unbroken, failures⟩
      · rw [broken]
      · rw [unbroken, if_pos skippable]
        exact failures.symm
  cases action with
  | modified => exact recomputed said outcome transcript
  | added => exact recomputed said outcome transcript
  | removed =>
    unfold reported
    rcases tells_clear repository store said outcome after transcript with
      ⟨broken, rfl⟩ | ⟨unbroken, failures⟩
    · rw [broken]
      rfl
    · rw [unbroken, failures]
      cases outcome with
      | ok result => exact (ofValue result).trans (failures_of_clear transcript)
      | error e =>
        have met : e ∈ Exchange.failures said := failures.symm ▸ List.mem_cons_self
        rw [ofFailure, if_neg (grave_of_clear ofStore transcript met)]
        rfl

end Reconcile

end ModelHub
