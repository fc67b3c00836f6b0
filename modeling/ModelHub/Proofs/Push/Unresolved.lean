import ModelHub.Proofs.Engine.Unfailing
import ModelHub.Proofs.Push.Dispatch
import ModelHub.Proofs.Push.Effect
import ModelHub.Proofs.Push.Outage
import ModelHub.Proofs.Push.Records
import ModelHub.Proofs.Push.Review
import ModelHub.Proofs.Push.UpdateTime

/-! Events that resolve to nothing leave nothing behind: those without a proper name, those of a type
the hub does not know, those for a repository that is not registered, and those for a mirror without
a time to take over.

Each handler looks the repository up on its own. What they have in common is that none of them writes
before it has looked. -/

namespace ModelHub

/-- The git server failed in a way that asks for a redelivery, or the moderation service failed. -/
def Exchange.isServerFailure : Exchange → Bool
  | ⟨.fetch .., .error e⟩ => e.isRetryable
  | ⟨.submit .., .error _⟩ => true
  | _ => false

namespace Surroundings

variable {surroundings : Surroundings} {α β : Type}

/-- The program comes to a value and asks nothing on its way but whether the push is cancelled. -/
def Glances (surroundings : Surroundings) (program : Program α) (value : α) : Prop :=
  ∀ before, (surroundings.converse program before).1 = value ∧
    (surroundings.converse program before).2.store = before.store ∧
    ∀ exchange ∈ (surroundings.converse program before).2.exchanges,
      exchange ∈ before.exchanges ∨ exchange.call = .isCancelled

theorem glances_done (value : α) : surroundings.Glances (.done value) value :=
  fun _ => ⟨rfl, rfl, fun _ => Or.inl⟩

theorem glances_bind {program : Program α} {next : α → Program β} {value : α} {result : β}
    (first : surroundings.Glances program value) (rest : surroundings.Glances (next value) result) :
    surroundings.Glances (program >>= next) result := by
  intro before
  obtain ⟨reached, unchanged, glanced⟩ := first before
  rw [converse_bind, reached]
  obtain ⟨ended, kept, glancedLater⟩ := rest (surroundings.converse program before).2
  refine ⟨ended, kept.trans unchanged, ?_⟩
  intro exchange member
  rcases glancedLater exchange member with early | late
  · exact glanced exchange early
  · exact Or.inr late

theorem glances_isCancelled (uncancelled : ∀ dialogue, surroundings.isCancelled dialogue = false) :
    surroundings.Glances Work.isCancelled false := by
  intro before
  have asked : surroundings.converse Work.isCancelled before =
      (false, before.noting ⟨.isCancelled, .ok false⟩) := by
    show (surroundings.isCancelled before,
      before.noting ⟨.isCancelled, .ok (surroundings.isCancelled before)⟩) = _
    rw [uncancelled]
  rw [asked]
  refine ⟨rfl, rfl, fun exchange member => ?_⟩
  rcases List.mem_cons.mp member with rfl | early
  · exact Or.inr rfl
  · exact Or.inl early

theorem leads_performed {request : StoreCall} {dialogue : Dialogue}
    {good : request.Reply → Dialogue → Prop} {bad : HubError → Dialogue → Prop}
    (onValue : ∀ value after, dialogue.store.perform request = (.ok value, after.store) →
      good value after)
    (onFailure : ∀ e after, ¬after.Unfailing → bad e after) :
    Work.Leads surroundings.answers (Work.askStore request) dialogue good bad := by
  intro reply after answered
  have sure : after.Unfailing → ∃ value, reply = .ok value := by
    obtain ⟨rfl, rfl⟩ := Prod.mk.inj answered
    intro unfailing
    obtain ⟨value, succeeded, -⟩ :=
      @sureAnswers_reply surroundings dialogue (.store request) unfailing
    exact ⟨value, succeeded⟩
  have replied : surroundings.reply dialogue (.store request) = (reply, after.store) := by
    obtain ⟨rfl, rfl⟩ := Prod.mk.inj answered
    rfl
  cases reply with
  | error e => exact onFailure e after fun unfailing => nomatch (sure unfailing).choose_spec
  | ok value =>
    simp only [Surroundings.reply] at replied
    split at replied
    · exact onValue value after replied
    · cases (Prod.mk.inj replied).1

theorem leads_unfailing_before {program : Program α} {dialogue : Dialogue} :
    Program.Leads surroundings.answers program dialogue
      fun _ after => after.Unfailing → dialogue.Unfailing :=
  leads_iff.mpr unfailing_before

end Surroundings

namespace Push

variable {surroundings : Surroundings} {options : Options} {event : PushEvent}
  {identity : RepoIdentity} {repoType : RepoType} {store : Store} {reference : String}

open Work (keeps_bind keeps_of_leads keeps_pure)

section Untyped

open Surroundings (glances_bind glances_done glances_isCancelled)

theorem glances_each {α : Type} {step : α → Program Progress}
    (each : ∀ value, surroundings.Glances (step value) .clean) (values : List α) :
    surroundings.Glances (Progress.each step values) .clean := by
  induction values with
  | nil => exact glances_done _
  | cons value rest ih =>
    exact glances_bind (each value) (glances_bind ih (glances_done _))

theorem glances_handleFile (uncancelled : ∀ dialogue, surroundings.isCancelled dialogue = false)
    (untyped : identity.repoType = none) (unscoped : TagScope.ofToken? identity.typeToken = none)
    (action : FileAction) (path : String) :
    surroundings.Glances (handleFile options identity reference action path) .clean := by
  have reconciles : reconcileFile options identity reference path action = pure .clean := by
    simp [reconcileFile, Reconcile.triggers, untyped]
  have readme : applyReadme options identity reference action = pure () := by
    simp only [applyReadme, RepoIdentity.scope, untyped, Option.bind_none]
  have library : updateLibrary identity path action = pure () := by
    cases action <;> simp only [updateLibrary, Tagging.updateLibrary, unscoped]
  refine glances_bind (glances_isCancelled uncancelled) ?_
  rw [if_neg Bool.false_ne_true, reconciles, readme, library, ite_self]
  exact glances_done _

theorem glances_handle (uncancelled : ∀ dialogue, surroundings.isCancelled dialogue = false)
    (parsed : event.identity = .ok identity) (untyped : identity.repoType = none) :
    surroundings.Glances (handle options event) (.ok ()) := by
  have unscoped : TagScope.ofToken? identity.typeToken = none := by
    rw [← RepoIdentity.scope_of_parse parsed, RepoIdentity.scope, untyped, Option.bind_none]
  have time : setUpdateTime event = pure () := by
    unfold setUpdateTime
    rw [parsed]
    refine (pure_bind identity _).trans ?_
    rw [untyped]
  have infos : surroundings.Glances (updateInfos options event) (.ok ()) := by
    unfold updateInfos
    rw [parsed]
    refine glances_bind (glances_each (fun commit => ?_) event.commits) (glances_done _)
    refine glances_each (fun action => glances_each (fun path => ?_) _) FileAction.order
    exact glances_handleFile uncancelled untyped unscoped action path
  have submission : submitForReview options event = pure () := by
    rw [submitForReview_eq parsed, untyped, ite_self]
  have revised : surroundings.Glances (revision options event) [] := by
    unfold revision
    rw [time]
    exact glances_bind (glances_done _) (glances_bind infos (glances_done _))
  have reviewed : surroundings.Glances (review options event) [] := by
    unfold review
    rw [submission]
    exact glances_bind (glances_isCancelled uncancelled) (glances_done _)
  rw [handle_eq parsed]
  exact glances_bind revised (glances_bind reviewed (glances_done _))

end Untyped

section Unregistered

theorem keeps_findRepository_absent {owner name : String} {α : Type} {next : Repository → Work α}
    (absent : store.repositoryRow? repoType owner name = none) :
    Work.Keeps (· = store) (Tagging.findRepository repoType owner name >>= next) fun _ => True := by
  refine keeps_of_leads fun other same => Work.leads_bind.mpr (Work.leads_bind.mpr ?_)
  subst same
  refine Work.leads_storeCall ?_ fun _ => rfl
  intro found after performed
  obtain ⟨answer, rfl⟩ := Prod.mk.inj performed
  simp only [Store.findRepository, absent] at answer
  obtain rfl := Except.ok.inj answer
  exact rfl

theorem setUpdateTime_eq (parsed : event.identity = .ok identity)
    (known : identity.repoType = some repoType) :
    setUpdateTime event = (do
      let repository ← Tagging.findRepository repoType identity.owner identity.name
      let now ← Work.ask .now
      if repository.isMirror then
        let instant ← ExceptT.mk (pure (headTime event))
        Work.askStore (.setUpdatedAt repository.id instant)
        let _ ← Work.askStore (.touchMirror repository.id now)
      else Work.askStore (.setUpdatedAt repository.id now)) := by
  unfold setUpdateTime
  rw [parsed]
  exact (pure_bind identity _).trans (by rw [known])

theorem handlers_absent (parsed : event.identity = .ok identity)
    (known : identity.repoType = some repoType)
    (absent : store.repositoryRow? repoType identity.owner identity.name = none) :
    Handlers (· = store) options event identity where
  config action isModel _ := by
    obtain rfl := Option.some.inj (known.symm.trans isModel)
    unfold Reconcile.reconcile
    split
    · exact keeps_pure trivial
    · exact keeps_findRepository_absent absent
  readme action _ := by
    unfold applyReadme
    split
    · exact keeps_pure trivial
    · next scope isOf =>
      obtain rfl := Option.some.inj (known.symm.trans (Scene.scope_eq_some isOf))
      split
      · exact keeps_bind (keeps_findRepository_absent absent) fun _ _ => keeps_pure trivial
      · refine keeps_bind Work.keeps_fetch fun content _ => ?_
        have applied : Work.Keeps (· = store)
            (Tagging.applyDeclared scope identity.owner identity.name content) fun _ => True :=
          Work.keeps_mk_bind fun declared _ => keeps_findRepository_absent absent
        exact keeps_bind applied fun _ _ => keeps_pure trivial
  library action path _ := by
    have update : ∀ oldFile newFile, Work.Keeps (· = store)
        (Tagging.updateLibrary identity.typeToken identity.owner identity.name oldFile newFile)
        fun _ => True := by
      intro oldFile newFile
      unfold Tagging.updateLibrary
      split
      · exact keeps_pure trivial
      · next scope isOf =>
        have inScope := (RepoIdentity.scope_of_parse parsed).trans isOf
        obtain rfl := Option.some.inj (known.symm.trans (Scene.scope_eq_some inScope))
        unfold Tagging.switchLibrary
        dsimp only
        split
        · exact keeps_pure trivial
        · exact keeps_findRepository_absent absent
    cases action with
    | modified => exact keeps_pure trivial
    | removed => exact update path ""
    | added => exact update "" path

theorem keeps_handle_absent (parsed : event.identity = .ok identity)
    (known : identity.repoType = some repoType)
    (absent : store.repositoryRow? repoType identity.owner identity.name = none) :
    Program.Keeps (· = store) (handle options event) fun _ => True := by
  refine keeps_handle ?_ fun other reparsed => ?_
  · rw [setUpdateTime_eq parsed known]
    exact keeps_findRepository_absent absent
  · obtain rfl := Except.ok.inj (parsed.symm.trans reparsed)
    exact handlers_absent parsed known absent

end Unregistered

section First

open Surroundings (leads_iff leads_performed leads_unfailing_before)

variable {before : Dialogue}

theorem first_of_setUpdateTime (parsed : event.identity = .ok identity) {isFirst : HubError → Prop}
    (time : Work.Leads surroundings.answers (setUpdateTime event) (.start store)
      (fun _ after => ¬after.Unfailing) fun e after => after.Unfailing → isFirst e)
    {result : PushResult} {dialogue : Dialogue}
    (ran : surroundings.run (handle options event) store = (result, dialogue))
    (unfailing : dialogue.Unfailing) :
    ∃ failure, result = .error failure ∧ isFirst failure.first := by
  have revised : Program.Leads surroundings.answers (revision options event) (.start store)
      fun errors after => after.Unfailing → ∃ e rest, errors = e :: rest ∧ isFirst e := by
    refine Program.leads_bind.mpr (Program.leads_bind.mpr (Program.Leads.mono time ?_))
    intro outcome timed ended
    refine Program.leads_bind.mpr (leads_unfailing_before.mono fun infos after before unfailing => ?_)
    cases outcome with
    | ok value => exact absurd (before unfailing) ended
    | error e => exact ⟨e, infos.errors, rfl, ended (before unfailing)⟩
  have ended : Program.Leads surroundings.answers (handle options event) (.start store)
      fun result after => after.Unfailing →
        ∃ failure, result = .error failure ∧ isFirst failure.first := by
    rw [handle_eq parsed]
    refine Program.leads_bind.mpr (revised.mono fun errors middle first => ?_)
    refine Program.leads_bind.mpr (leads_unfailing_before.mono fun _ after before unfailing => ?_)
    obtain ⟨e, rest, rfl, holds⟩ := first (before unfailing)
    exact ⟨_, rfl, holds⟩
  have reached := leads_iff.mp ended
  rw [← Surroundings.run, ran] at reached
  exact reached unfailing

theorem leads_setUpdateTime_absent (parsed : event.identity = .ok identity)
    (known : identity.repoType = some repoType)
    (absent : before.store.repositoryRow? repoType identity.owner identity.name = none) :
    Work.Leads surroundings.answers (setUpdateTime event) before
      (fun _ after => ¬after.Unfailing)
      fun e after => after.Unfailing → e = Tagging.missing repoType identity.owner identity.name := by
  rw [setUpdateTime_eq parsed known]
  refine Work.leads_bind.mpr (Work.leads_bind.mpr (leads_performed ?_ ?_))
  swap
  · exact fun _ _ failing unfailing => absurd unfailing failing
  intro found after performed
  have answer := (Prod.mk.inj performed).1
  simp only [Store.findRepository, absent] at answer
  obtain rfl := Except.ok.inj answer
  exact fun _ => rfl

theorem headTime_error (timeless : event.headTimestamp.bind Rfc3339.parse? = none) :
    ∃ e, headTime event = .error e ∧ e.kind = .malformed := by
  unfold headTime
  split
  · exact ⟨_, rfl, rfl⟩
  · next text isText =>
    rw [isText, Option.bind_some] at timeless
    rw [timeless]
    exact ⟨_, rfl, rfl⟩

theorem isMirror_of_findRepository {owner name : String} {row : RepositoryRow}
    {repository : Repository} (isRow : store.repositoryRow? repoType owner name = some row)
    (isMirror : (store.mirror? row.id).isSome)
    (found : store.findRepository repoType owner name = .ok (some repository)) :
    repository.isMirror := by
  simp only [Store.findRepository, isRow] at found
  obtain ⟨read, wasRead, same⟩ := map_eq_ok found
  obtain rfl := Option.some.inj same
  obtain ⟨time, -, rfl⟩ := map_eq_ok wasRead
  exact isMirror

theorem leads_setUpdateTime_mirror {row : RepositoryRow}
    (parsed : event.identity = .ok identity) (known : identity.repoType = some repoType)
    (isRow : before.store.repositoryRow? repoType identity.owner identity.name = some row)
    (isMirror : (before.store.mirror? row.id).isSome)
    (timeless : event.headTimestamp.bind Rfc3339.parse? = none) :
    Work.Leads surroundings.answers (setUpdateTime event) before
      (fun _ after => ¬after.Unfailing) fun e after => after.Unfailing → e.kind = .malformed := by
  obtain ⟨e, failed, kind⟩ := headTime_error timeless
  rw [setUpdateTime_eq parsed known]
  refine Work.leads_bind.mpr (Work.leads_bind.mpr (leads_performed ?_ ?_))
  swap
  · exact fun _ _ failing unfailing => absurd unfailing failing
  intro found after performed
  have answer := (Prod.mk.inj performed).1
  cases found with
  | none =>
    simp only [Store.findRepository, isRow] at answer
    obtain ⟨read, -, impossible⟩ := map_eq_ok answer
    cases impossible
  | some repository =>
    have mirrored := isMirror_of_findRepository isRow isMirror answer
    refine Work.leads_pure.mpr (Work.leads_bind.mpr (Surroundings.leads_now fun timed _ => ?_))
    rw [if_pos mirrored, failed]
    exact fun _ => kind

theorem keeps_setUpdateTime_mirror {row : RepositoryRow}
    (parsed : event.identity = .ok identity) (known : identity.repoType = some repoType)
    (isRow : store.repositoryRow? repoType identity.owner identity.name = some row)
    (isMirror : (store.mirror? row.id).isSome)
    (timeless : event.headTimestamp.bind Rfc3339.parse? = none) :
    Work.Keeps store.SameRecords (setUpdateTime event) fun _ => True := by
  obtain ⟨e, failed, -⟩ := headTime_error timeless
  rw [setUpdateTime_eq parsed known]
  refine keeps_of_leads fun before same => Work.leads_bind.mpr (Work.leads_bind.mpr ?_)
  refine Work.leads_storeCall ?_ fun _ => same
  intro found after performed
  obtain ⟨answer, rfl⟩ := Prod.mk.inj performed
  cases found with
  | none => exact same
  | some repository =>
    have isRowStill : before.repositoryRow? repoType identity.owner identity.name = some row := by
      rwa [Store.repositoryRow?, same.repositories]
    have isMirrorStill : (before.mirror? row.id).isSome := by rwa [Store.mirror?, same.mirrors]
    have mirrored := isMirror_of_findRepository isRowStill isMirrorStill answer
    refine Work.leads_pure.mpr (Work.leads_bind.mpr ?_)
    rintro reply _ rfl
    cases reply with
    | error other => exact same
    | ok now =>
      refine Work.leads_pure.mpr ?_
      rw [if_pos mirrored, failed]
      exact same

end First

/-- Where nothing is cancelled and no store call fails, only the servers' failures ask for a
redelivery. -/
theorem isServerFailure_of_retryable (uncancelled : surroundings.Uncancelled)
    (parsed : event.identity = .ok identity) {result : PushResult} {dialogue : Dialogue}
    (ran : surroundings.run (handle options event) store = (result, dialogue))
    (unfailing : dialogue.Unfailing) {e : HubError} (member : e ∈ result.errors)
    (retryable : e.isRetryable) : ∃ exchange ∈ dialogue.exchanges, exchange.isServerFailure := by
  have present := founded_of_parsed parsed ran e member retryable
  obtain ⟨exchange, noted, failed⟩ := Dialogue.mem_failures.mp present
  obtain ⟨asked, replied⟩ := Surroundings.heard_of_run ran exchange noted
  have performed := unfailing exchange noted
  refine ⟨exchange, noted, ?_⟩
  obtain ⟨call, reply⟩ := exchange
  change (surroundings.reply asked call).1 = reply at replied
  cases call with
  | store request =>
    cases reply with
    | ok value => cases failed
    | error other => cases performed
  | fetch request limit =>
    cases reply with
    | ok content => cases failed
    | error other =>
      obtain rfl := Option.some.inj failed
      exact retryable
  | submit repoType owner name limit =>
    cases reply with
    | ok _ => cases failed
    | error other => rfl
  | now =>
    obtain rfl := replied
    cases failed
  | isCancelled =>
    obtain rfl := replied
    simp [Surroundings.reply, uncancelled.token, Exchange.failure?] at failed
  | acquire repositoryId =>
    obtain rfl := replied
    simp [Surroundings.reply, uncancelled.queue, Exchange.failure?] at failed
  | release repositoryId =>
    obtain rfl := replied
    cases failed

/-- An event that resolves to nothing leaves nothing behind, whatever files it lists. A name that is
malformed is the only error, and nothing is asked. A type that is unknown is no error, and nothing but
the cancellation is asked about. For a repository that is not registered the store stays as it is, and
only a failing server asks for a redelivery. For a mirror without a time to take over the records of
repositories and mirrors stay as they are. -/
theorem unresolved_leaves_nothing {result : PushResult} {dialogue : Dialogue}
    (uncancelled : surroundings.Uncancelled)
    (ran : surroundings.run (handle options event) store = (result, dialogue))
    (unfailing : dialogue.Unfailing) :
    (∀ e, event.identity = .error e →
      (∃ message, e = .invalidEvent message) ∧ result = .error (.single e) ∧
        dialogue = .start store) ∧
    (∀ identity, event.identity = .ok identity → identity.repoType = none →
      result = .ok () ∧ dialogue.store = store ∧
        ∀ exchange ∈ dialogue.exchanges, exchange.call = .isCancelled) ∧
    (∀ identity repoType, event.identity = .ok identity → identity.repoType = some repoType →
      store.repositoryRow? repoType identity.owner identity.name = none →
      dialogue.store = store ∧ ∃ failure, result = .error failure ∧
        failure.first = .repositoryMissing repoType.name identity.owner identity.name ∧
        (failure.isRetryable → ∃ exchange ∈ dialogue.exchanges, exchange.isServerFailure)) ∧
    (∀ identity repoType row, event.identity = .ok identity → identity.repoType = some repoType →
      store.repositoryRow? repoType identity.owner identity.name = some row →
      (store.mirror? row.id).isSome → event.headTimestamp.bind Rfc3339.parse? = none →
      dialogue.store.repositories = store.repositories ∧ dialogue.store.mirrors = store.mirrors ∧
        ∃ failure, result = .error failure ∧ failure.first.kind = .malformed) := by
  refine ⟨?_, ?_, ?_, ?_⟩
  · intro e unparsed
    obtain ⟨rfl, rfl⟩ := Prod.mk.inj ((reports_of_unparsed unparsed store).1.symm.trans ran)
    exact ⟨RepoIdentity.parse_error unparsed, rfl, rfl⟩
  · intro identity parsed untyped
    have glances : surroundings.Glances (handle options event) (.ok ()) :=
      glances_handle uncancelled.token parsed untyped
    have glanced := glances (.start store)
    rw [← Surroundings.run, ran] at glanced
    obtain ⟨ended, unchanged, glanced⟩ := glanced
    refine ⟨ended, unchanged, fun exchange member => ?_⟩
    exact (glanced exchange member).resolve_left List.not_mem_nil
  · intro identity repoType parsed known absent
    have keeps : Program.Keeps (· = store) (handle options event) fun _ => True :=
      keeps_handle_absent parsed known absent
    have kept := surroundings.run_of_leads (keeps store rfl)
    rw [ran] at kept
    obtain ⟨failure, rfl, isFirst⟩ := first_of_setUpdateTime parsed
      (leads_setUpdateTime_absent parsed known absent) ran unfailing
    refine ⟨kept.1, failure, rfl, isFirst, fun retryable => ?_⟩
    obtain ⟨e, member, isRetryable⟩ := List.any_eq_true.mp retryable
    exact isServerFailure_of_retryable uncancelled parsed ran unfailing member isRetryable
  · intro identity repoType row parsed known isRow isMirror timeless
    have keeps : Program.Keeps store.SameRecords (handle options event) fun _ => True :=
      keeps_handle (keeps_setUpdateTime_mirror parsed known isRow isMirror timeless)
        fun identity _ => handlers_records store options event identity
    have kept := surroundings.run_of_leads (keeps store (.refl store))
    rw [ran] at kept
    have first := first_of_setUpdateTime parsed
      (leads_setUpdateTime_mirror parsed known isRow isMirror timeless) ran unfailing
    exact ⟨kept.1.repositories, kept.1.mirrors, first⟩

def strayPush (fullName : String) : PushEvent :=
  { bertPush with
    fullName := fullName
    commits := [{ modified := [modelConfigFile], removed := ["bert.onnx"], added := [readmeFile] }] }

def strayRun (fullName : String) (store : Store) : PushResult × Dialogue :=
  (Surroundings.calm bertFiles).run (handle .moderated (strayPush fullName)) store

theorem strays_leave_nothing :
    (∃ message, (strayRun "bert" Store.bert).1 = .error (.single (.invalidEvent message))) ∧
    (strayRun "notebooks_acme/bert" Store.bert).1 = .ok () ∧
    (strayRun "models_acme/gpt" Store.bert).2.store = Store.bert ∧
    (strayRun "models_acme/bert" mirroredBert).2.store.repositories =
      mirroredBert.repositories := by
  have uncancelled : (Surroundings.calm bertFiles).Uncancelled :=
    ⟨fun _ => rfl, fun _ _ => rfl, fun _ _ => nofun, fun _ _ _ => nofun⟩
  have ran : ∀ fullName store, (Surroundings.calm bertFiles).run
      (handle .moderated (strayPush fullName)) store =
        ((strayRun fullName store).1, (strayRun fullName store).2) :=
    fun fullName store => (Prod.eta (strayRun fullName store)).symm
  have nameless := (unresolved_leaves_nothing uncancelled (ran "bert" Store.bert)
    (by decide +kernel)).1
  have untyped := (unresolved_leaves_nothing uncancelled (ran "notebooks_acme/bert" Store.bert)
    (by decide +kernel)).2.1
  have unregistered := (unresolved_leaves_nothing uncancelled (ran "models_acme/gpt" Store.bert)
    (by decide +kernel)).2.2.1
  have timeless := (unresolved_leaves_nothing uncancelled (ran "models_acme/bert" mirroredBert)
    (by decide +kernel)).2.2.2
  refine ⟨?_, ?_, ?_, ?_⟩
  · let message := "repository full name has no '/': bert"
    exact ⟨message, (nameless (.invalidEvent message) (by decide +kernel)).2.1⟩
  · exact (untyped { typeToken := "notebooks", repoType := none, owner := "acme", name := "bert" }
      (by decide +kernel) rfl).1
  · exact (unregistered { Reconcile.bertIdentity with name := "gpt" } .model (by decide +kernel) rfl
      (by decide +kernel)).1
  · exact (timeless Reconcile.bertIdentity .model _ (by decide +kernel) rfl
      (by decide +kernel : _ = some
        { id := 1, repoType := .model, owner := "acme", name := "bert", defaultBranch := "main" })
      (by decide +kernel) rfl).1

end Push

end ModelHub
