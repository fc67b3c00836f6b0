import ModelHub.Proofs.Push.Effect

/-! What a push reports when no store call fails. It can be read off the files that the push names, the
record of its repository and the answer of the moderation service: tags, associations and all other
repositories have no part in it. -/

namespace ModelHub

open Reconcile (errorOf)

def Push.Progress.noting (errors : List HubError) : Progress :=
  { errors := errors, isStopped := false }

namespace Agenda

def lookUp (store : Store) (repoType : RepoType) (owner name : String) : Except HubError Unit :=
  match store.place? repoType owner name with
  | none => .error (Tagging.missing repoType owner name)
  | some _ => .ok ()

def timeOutcome (store : Store) (event : PushEvent) (identity : RepoIdentity) :
    Except HubError Unit :=
  match identity.repoType with
  | none => .ok ()
  | some repoType =>
    match store.place? repoType identity.owner identity.name with
    | none => .error (Tagging.missing repoType identity.owner identity.name)
    | some place =>
      if (store.mirror? place.id).isSome then (Push.headTime event).map fun _ => () else .ok ()

def configOutcome (store : Store) (config : SyncConfig)
    (files : FileRequest → Except HubError String) (owner name reference : String)
    (action : FileAction) : Except HubError Unit :=
  match store.place? .model owner name with
  | none => .error (Tagging.missing .model owner name)
  | some place =>
    if reference ≠ place.expectedReference config then .ok ()
    else if action = .removed then .ok ()
    else ((files (place.configRequest reference)).bind ModelConfig.architecture).map fun _ => ()

def readmeOutcome (store : Store) (files : FileRequest → Except HubError String)
    (identity : RepoIdentity) (reference : String) (action : FileAction) : Except HubError Unit :=
  match identity.scope with
  | none => .ok ()
  | some scope =>
    if action = .removed then lookUp store scope.repoType identity.owner identity.name
    else
      ((files (Push.readmeRequest scope.repoType identity reference)).bind MetaTags.declared).bind
        fun _ => lookUp store scope.repoType identity.owner identity.name

/-- A file without a library tag is not even looked up for its repository. -/
def libraryOutcome (store : Store) (identity : RepoIdentity) (path : String) (action : FileAction) :
    Except HubError Unit :=
  match TagScope.ofToken? identity.typeToken with
  | none => .ok ()
  | some scope =>
    if action = .modified ∨ Tagging.tagOf scope path = none then .ok ()
    else lookUp store scope.repoType identity.owner identity.name

def reviewOutcome (options : Push.Options)
    (review : RepoType → String → String → Except HubError Unit) (identity : RepoIdentity) :
    Except HubError Unit :=
  if options.hasModeration && options.config.sensitiveCheck then
    match identity.repoType with
    | none => .ok ()
    | some repoType => review repoType identity.owner identity.name
  else .ok ()

/-- Missing and malformed files are passed over. -/
def serious : Except HubError Unit → List HubError
  | .ok _ => []
  | .error e => if e.isSkippable then [] else [e]

def fileErrors (store : Store) (config : SyncConfig) (files : FileRequest → Except HubError String)
    (identity : RepoIdentity) (reference : String) (action : FileAction) (path : String) :
    List HubError :=
  (if Reconcile.triggers identity path then
    serious (configOutcome store config files identity.owner identity.name reference action)
    else []) ++
  errorOf (if path = readmeFile then readmeOutcome store files identity reference action
    else libraryOutcome store identity path action)

def errors (store : Store) (options : Push.Options) (files : FileRequest → Except HubError String)
    (review : RepoType → String → String → Except HubError Unit) (event : PushEvent) :
    List HubError :=
  match event.identity with
  | .error e => [e]
  | .ok identity =>
    errorOf (timeOutcome store event identity) ++
      (event.handled.flatMap fun entry =>
        fileErrors store options.config files identity event.reference entry.1 entry.2) ++
      errorOf (reviewOutcome options review identity)

end Agenda

theorem PushEvent.exists_target (event : PushEvent) (store : Store) :
    ∃ repositoryId, ∀ place, event.target? store = some place → place.id = repositoryId := by
  cases event.target? store with
  | none => exact ⟨0, fun place none => by cases none⟩
  | some place => exact ⟨place.id, fun other same => congrArg _ (Option.some.inj same).symm⟩

theorem Store.Revises.errors {repositoryId : Int} {before after : Store}
    (revises : Store.Revises repositoryId before after) (options : Push.Options)
    (files : FileRequest → Except HubError String)
    (review : RepoType → String → String → Except HubError Unit) (event : PushEvent) :
    Agenda.errors after options files review event = Agenda.errors before options files review event := by
  have places := Store.place?_congr revises.places
  have mirrors := Store.isSome_mirror?_congr revises.origins
  have lookUps : ∀ repoType owner name,
      Agenda.lookUp after repoType owner name = Agenda.lookUp before repoType owner name := by
    intro repoType owner name
    simp only [Agenda.lookUp, places]
  have times : ∀ identity,
      Agenda.timeOutcome after event identity = Agenda.timeOutcome before event identity := by
    intro identity
    simp only [Agenda.timeOutcome, places, mirrors]
  have files : ∀ identity action path,
      Agenda.fileErrors after options.config files identity event.reference action path =
        Agenda.fileErrors before options.config files identity event.reference action path := by
    intro identity action path
    simp only [Agenda.fileErrors, Agenda.configOutcome, Agenda.readmeOutcome, Agenda.libraryOutcome,
      places, lookUps]
  unfold Agenda.errors
  simp only [times, files]

namespace Scene

variable {scene : Scene} {α : Type}

def Ends (scene : Scene) (work : Work α) (outcome : Except HubError Unit) : Prop :=
  ∀ profile, scene.Does work profile (fun _ _ => outcome = .ok ())
    fun e _ => outcome = .error e ∧ e ≠ .cancelled

def Notes (scene : Scene) (program : Program Push.Progress) (errors : List HubError) : Prop :=
  ∀ profile, scene.Runs program profile fun progress _ => progress = .noting errors

theorem ends_discard {work : Work α} {outcome : Except HubError Unit}
    (ends : scene.Ends work outcome) : scene.Ends (do let _ ← work : Work Unit) outcome := by
  intro profile
  refine does_bind ((ends profile).mono ?_ fun _ _ => id)
  exact fun _ _ ended => does_pure ended

theorem notes_clean : scene.Notes (pure .clean) [] := fun _ => runs_done rfl

theorem notes_andThen {first second : Program Push.Progress} {earlier later : List HubError}
    (notesFirst : scene.Notes first earlier) (notesSecond : scene.Notes second later) :
    scene.Notes (Push.Progress.andThen first second) (earlier ++ later) := by
  intro profile
  refine runs_bind ((notesFirst profile).mono ?_)
  rintro _ middle rfl
  refine runs_bind ((notesSecond middle).mono ?_)
  rintro _ after rfl
  exact runs_done rfl

theorem notes_each {step : α → Program Push.Progress} {errors : α → List HubError}
    (values : List α) (notes : ∀ value ∈ values, scene.Notes (step value) (errors value)) :
    scene.Notes (Push.Progress.each step values) (values.flatMap errors) := by
  induction values with
  | nil => exact notes_clean
  | cons value rest ih =>
    rw [List.flatMap_cons]
    refine notes_andThen (notes value List.mem_cons_self) (ih ?_)
    exact fun other member => notes other (List.mem_cons_of_mem value member)

theorem notes_record {work : Work Unit} {outcome : Except HubError Unit}
    (ends : scene.Ends work outcome) : scene.Notes (Push.Progress.record work) (errorOf outcome) := by
  intro profile
  refine runs_bind (runs_attempt ((ends profile).mono ?_ ?_))
  · rintro _ after rfl
    exact runs_done rfl
  · intro e after ended
    obtain ⟨rfl, calm⟩ := ended
    refine runs_done ?_
    simp only [Push.Progress.ofOutcome, calm, decide_false, errorOf, Push.Progress.noting]

variable (smooth : ∀ e, ¬scene.faults e) {options : Push.Options} {identity : RepoIdentity}
  {reference path : String} {action : FileAction} {config : SyncConfig}

include smooth

/-- Work that looks a repository up first and cannot fail behind that. -/
theorem ends_lookUp {repoType : RepoType} {owner name : String} {next : Repository → Work α}
    (targets : scene.Targets repoType owner name)
    (succeeds : ∀ repository : Repository, repository.id = scene.repositoryId →
      scene.Ends (next repository) (.ok ())) :
    scene.Ends (Tagging.findRepository repoType owner name >>= next)
      (Agenda.lookUp scene.store repoType owner name) := by
  intro profile
  refine does_bind (does_findRepository ?_ ?_ fun e fault => (smooth e fault).elim)
  · intro repository found
    have present : Agenda.lookUp scene.store repoType owner name = .ok () := by
      simp only [Agenda.lookUp, found]
    rw [present]
    exact succeeds repository (targets _ found) profile
  · intro absent
    exact ⟨by simp only [Agenda.lookUp, absent], by simp [Tagging.missing]⟩

theorem ends_applyDeclared {scope : TagScope} {owner name content : String}
    (targets : scene.Targets scope.repoType owner name) :
    scene.Ends (Tagging.applyDeclared scope owner name content)
      ((MetaTags.declared content).bind fun _ =>
        Agenda.lookUp scene.store scope.repoType owner name) := by
  intro profile
  refine does_bind (does_mk ?_)
  cases parsed : MetaTags.declared content with
  | error e => exact ⟨rfl, declared_ne_cancelled parsed⟩
  | ok declared =>
    refine ends_lookUp smooth targets (fun repository here profile => ?_) profile
    refine does_of_leads fun store same revises => ?_
    refine Work.leads_bind.mpr ((leads_ensureDeclared scope declared store).mono ?_ ?_)
    · intro tags ensured ended
      obtain ⟨step, -, listed, -⟩ := ended
      have revised := revises.trans step
      refine Work.leads_bind.mpr
        ((leads_replaceTags here (revised.lawful scene.lawful) listed).mono ?_ ?_)
      · exact fun _ after replaced => ⟨revised.trans replaced.1, rfl⟩
      · exact fun e _ ended => (smooth e ended.1).elim
    · exact fun e _ ended => (smooth e ended.1).elim

theorem ends_applyReadme (pushes : scene.Pushes identity) :
    scene.Ends (Push.applyReadme options identity reference action)
      (Agenda.readmeOutcome scene.store scene.files identity reference action) := by
  unfold Push.applyReadme Agenda.readmeOutcome
  cases isOf : identity.scope with
  | none => exact fun profile => does_pure rfl
  | some scope =>
    have targets := pushes scope.repoType (scope_eq_some isOf)
    by_cases removed : action = .removed
    · simp only [removed, if_true]
      refine ends_discard (ends_lookUp smooth targets fun repository here profile => ?_)
      exact does_unlinkCategory here (fun _ => rfl) fun e fault => (smooth e fault).elim
    · simp only [removed, if_false]
      intro profile
      refine does_bind (does_fetch ?_)
      cases fetched : scene.files (Push.readmeRequest scope.repoType identity reference) with
      | error e =>
        refine ⟨rfl, ?_⟩
        rintro rfl
        exact scene.files_ne_cancelled _ fetched
      | ok content => exact ends_discard (ends_applyDeclared smooth targets) profile

theorem ends_unlinking {repositoryId : Int} (here : repositoryId = scene.repositoryId)
    (scope : TagScope) (name : String) :
    scene.Ends (Tagging.unlink repositoryId scope .library "" name) (.ok ()) :=
  fun _ => does_unlink here (fun _ => rfl) fun e fault => (smooth e fault).elim

theorem ends_linking {repositoryId : Int} (here : repositoryId = scene.repositoryId)
    (scope : TagScope) (name : String) :
    scene.Ends (Tagging.link repositoryId scope .library "" name) (.ok ()) :=
  fun _ => does_link here (fun _ => rfl) fun e fault => (smooth e fault).elim

theorem ends_updateLibrary (pushes : scene.Pushes identity)
    (known : identity.scope = TagScope.ofToken? identity.typeToken) :
    scene.Ends (Push.updateLibrary identity path action)
      (Agenda.libraryOutcome scene.store identity path action) := by
  unfold Push.updateLibrary Agenda.libraryOutcome Tagging.updateLibrary
  cases isOf : TagScope.ofToken? identity.typeToken with
  | none => cases action <;> exact fun profile => does_pure rfl
  | some scope =>
    have targets := pushes scope.repoType (scope_eq_some (known.trans isOf))
    have nothing : Tagging.tagOf scope "" = none := rfl
    cases action with
    | modified => exact fun profile => does_pure rfl
    | removed =>
      simp only [Tagging.switchLibrary, nothing]
      cases isOld : Tagging.tagOf scope path with
      | none => exact fun profile => does_pure rfl
      | some old =>
        refine ends_lookUp smooth targets fun repository here => ?_
        exact ends_discard (ends_unlinking smooth here scope old)
    | added =>
      simp only [Tagging.switchLibrary, nothing]
      cases isNew : Tagging.tagOf scope path with
      | none => exact fun profile => does_pure rfl
      | some new =>
        refine ends_lookUp smooth targets fun repository here => ?_
        exact ends_discard (ends_linking smooth here scope new)

omit smooth in
theorem reconciled_error {e : HubError} (calm : e ≠ .cancelled) :
    Push.reconciled (.error e) = .noting (Agenda.serious (.error e)) := by
  unfold Push.reconciled Agenda.serious
  dsimp only
  split
  · rfl
  · simp only [Push.Progress.ofOutcome, calm, decide_false, Push.Progress.noting]

/-- A configuration that counts is reported only if it cannot be had. -/
theorem does_recompute_quietly {repository : Repository} (here : repository.id = scene.repositoryId)
    (profile : Profile) :
    scene.Does (Reconcile.recompute config repository reference) profile
      (fun outcome _ => Push.reconciled (.ok outcome) = .noting (Agenda.serious
        (((scene.files (repository.place.configRequest reference)).bind
          ModelConfig.architecture).map fun _ => ())))
      fun e _ => Push.reconciled (.error e) = .noting (Agenda.serious
        (((scene.files (repository.place.configRequest reference)).bind
          ModelConfig.architecture).map fun _ => ())) := by
  cases read : (scene.files (repository.place.configRequest reference)).bind
      ModelConfig.architecture with
  | ok architecture =>
    refine (does_recompute here read).mono ?_ fun e _ ended => (smooth e ended.1).elim
    intro outcome _ ended
    obtain ⟨report, rfl, excused, -⟩ := ended
    simp only [Push.reconciled, failures_nil excused smooth]
    rfl
  | error e =>
    refine (does_recompute_unread read).mono (fun _ _ => id) ?_
    intro other _ ended
    obtain ⟨rfl, calm, -⟩ := ended
    exact reconciled_error calm

theorem notes_reconcileFile (pushes : scene.Pushes identity) :
    scene.Notes (Push.reconcileFile options identity reference path action)
      (if Reconcile.triggers identity path then
        Agenda.serious (Agenda.configOutcome scene.store options.config scene.files identity.owner
          identity.name reference action) else []) := by
  unfold Push.reconcileFile
  by_cases triggers : Reconcile.triggers identity path = true
  · rw [if_pos triggers, if_pos triggers]
    have isModel : identity.repoType = some .model := by
      simp only [Reconcile.triggers, Bool.and_eq_true, decide_eq_true_eq] at triggers
      exact triggers.1
    intro profile
    refine runs_bind (runs_attempt (Does.mono ?_ (fun _ _ => runs_done) fun _ _ => runs_done))
    unfold Reconcile.reconcile Agenda.configOutcome
    simp only [triggers]
    refine does_bind (does_findRepository ?_ ?_ fun e fault => (smooth e fault).elim)
    · intro repository found
      have here : repository.id = scene.repositoryId := pushes .model isModel _ found
      have expected : repository.place.expectedReference options.config =
        Reconcile.expectedReference options.config repository := rfl
      simp only [found, expected]
      by_cases isExpected : reference = Reconcile.expectedReference options.config repository
      · rw [if_neg (not_not_intro isExpected), if_neg (not_not_intro isExpected)]
        refine does_holding ?_
        cases action with
        | removed =>
          refine (does_clear here).mono ?_ fun e _ ended => (smooth e ended.1).elim
          intro outcome _ ended
          obtain ⟨⟨associations, tags, rfl⟩, -⟩ := ended
          rfl
        | modified => exact does_recompute_quietly smooth here profile
        | added => exact does_recompute_quietly smooth here profile
      · rw [if_pos isExpected, if_pos isExpected]
        exact does_pure rfl
    · intro absent
      simp only [absent]
      exact reconciled_error (by simp [Tagging.missing])
  · rw [if_neg triggers, if_neg triggers]
    exact notes_clean

theorem notes_handleFile (pushes : scene.Pushes identity)
    (known : identity.scope = TagScope.ofToken? identity.typeToken) :
    scene.Notes (Push.handleFile options identity reference action path)
      (Agenda.fileErrors scene.store options.config scene.files identity reference action path) := by
  intro profile
  refine runs_bind (runs_isCancelled ?_)
  refine notes_andThen (notes_reconcileFile smooth pushes) (notes_record ?_) profile
  split
  · exact ends_applyReadme smooth pushes
  · exact ends_updateLibrary smooth pushes known

theorem notes_handleCommit (pushes : scene.Pushes identity)
    (known : identity.scope = TagScope.ofToken? identity.typeToken) (commit : Commit) :
    scene.Notes (Push.handleCommit options identity reference commit)
      (commit.handled.flatMap fun entry => Agenda.fileErrors scene.store options.config scene.files
        identity reference entry.1 entry.2) := by
  unfold Commit.handled
  rw [List.flatMap_assoc]
  refine notes_each _ fun action _ => ?_
  rw [List.flatMap_map]
  exact notes_each _ fun path _ => notes_handleFile smooth pushes known

variable {event : PushEvent}

theorem runs_updateInfos_errors (parsed : event.identity = .ok identity)
    (pushes : scene.Pushes identity) (profile : Profile) :
    scene.Runs (Push.updateInfos options event) profile fun result _ =>
      result.errors = event.handled.flatMap fun entry => Agenda.fileErrors scene.store
        options.config scene.files identity event.reference entry.1 entry.2 := by
  have known : identity.scope = TagScope.ofToken? identity.typeToken :=
    RepoIdentity.scope_of_parse parsed
  unfold Push.updateInfos PushEvent.handled
  rw [parsed, List.flatMap_assoc]
  have notes : scene.Notes
      (Push.Progress.each (Push.handleCommit options identity event.reference) event.commits) _ :=
    notes_each event.commits fun commit _ => notes_handleCommit smooth pushes known commit
  refine runs_bind ((notes profile).mono ?_)
  rintro _ after rfl
  exact runs_done (PushResult.errors_ofErrors _)

theorem runs_setUpdateTime_errors (parsed : event.identity = .ok identity)
    (pushes : scene.Pushes identity) (profile : Profile) :
    scene.Runs (Push.errorsOf (Push.setUpdateTime event)) profile fun errors _ =>
      errors = errorOf (Agenda.timeOutcome scene.store event identity) := by
  refine runs_bind (runs_attempt (Does.mono ?_ (fun _ _ => runs_done) fun _ _ => runs_done))
  refine does_bind (does_mk ?_)
  rw [parsed]
  show scene.Does _ profile _ _
  unfold Agenda.timeOutcome
  cases known : identity.repoType with
  | none => exact does_pure rfl
  | some repoType =>
    refine does_bind
      (does_findRecord (fun repository found mirrors => ?_) ?_ fun e fault => (smooth e fault).elim)
    · have here : repository.id = scene.repositoryId := pushes repoType known _ found
      simp only [found]
      refine does_bind (does_now fun now => ?_)
      cases isMirror : repository.isMirror with
      | true =>
        have stamped : (scene.store.mirror? repository.place.id).isSome = true :=
          mirrors.symm.trans isMirror
        simp only [stamped, if_true]
        refine does_bind (does_mk ?_)
        cases Push.headTime event with
        | error e => rfl
        | ok instant =>
          refine does_bind (does_setUpdatedAt here ?_ fun e fault => (smooth e fault).elim)
          exact does_bind (does_touchMirror here (fun _ => does_pure rfl)
            fun e fault => (smooth e fault).elim)
      | false =>
        have unstamped : (scene.store.mirror? repository.place.id).isSome = false :=
          mirrors.symm.trans isMirror
        simp only [unstamped]
        exact does_setUpdatedAt here rfl fun e fault => (smooth e fault).elim
    · intro absent
      simp only [absent]

end Scene

namespace Push

variable {conditions : Conditions} {options : Options} {event : PushEvent} {store : Store}
  {result : Option PushResult} {last : Course} {identity : RepoIdentity}
  {files : FileRequest → Except HubError String}
  {review : RepoType → String → String → Except HubError Unit}

theorem leads_submitForReview (parsed : event.identity = .ok identity) :
    Program.Leads (Store.reviewedAnswers files review) (errorsOf (submitForReview options event)) store
      fun errors _ => errors = errorOf (Agenda.reviewOutcome options review identity) := by
  have leads : Work.Leads (Store.reviewedAnswers files review) (submitForReview options event) store
      (fun _ _ => Agenda.reviewOutcome options review identity = .ok ())
      fun e _ => Agenda.reviewOutcome options review identity = .error e := by
    unfold submitForReview Agenda.reviewOutcome
    split
    · rw [parsed]
      show Work.Leads _ ((pure identity : Work RepoIdentity) >>= _) store _ _
      rw [pure_bind]
      cases identity.repoType with
      | none => rfl
      | some repoType =>
        rintro reply after ⟨rfl, rfl⟩
        cases answered : review repoType identity.owner identity.name with
        | ok _ => exact answered
        | error e => exact answered
    · rfl
  refine Program.leads_bind.mpr (Program.Leads.mono leads ?_)
  intro outcome after ended
  cases outcome with
  | ok _ =>
    have accepted : Agenda.reviewOutcome options review identity = .ok () := ended
    exact congrArg errorOf accepted.symm
  | error e =>
    have refused : Agenda.reviewOutcome options review identity = .error e := ended
    exact congrArg errorOf refused.symm

theorem leads_handle_errors (files_ne_cancelled : ∀ request, files request ≠ .error .cancelled)
    (lawful : store.Lawful) :
    Program.Leads (Store.reviewedAnswers files review) (handle options event) store
      fun result _ => result = .ofErrors (Agenda.errors store options files review event) := by
  obtain ⟨repositoryId, targets⟩ := event.exists_target store
  let scene : Scene :=
    { faults := fun _ => False
      faults_ne_cancelled := fun _ => False.elim
      files := files
      files_ne_cancelled := files_ne_cancelled
      repositoryId := repositoryId
      store := store
      lawful := lawful }
  have smooth : ∀ e, ¬scene.faults e := fun _ => id
  unfold handle Agenda.errors
  cases parsed : event.identity with
  | error e => rfl
  | ok identity =>
    have pushes : scene.Pushes identity := Scene.pushes_of_target targets parsed
    have timed := Scene.runs_setUpdateTime_errors smooth parsed pushes (store.profile repositoryId)
      store rfl (.refl repositoryId store)
    refine Program.leads_bind.mpr ((timed.narrow Store.answers_of_reviewed).mono ?_)
    rintro _ middle ⟨revises, rfl⟩
    have handled := @Scene.runs_updateInfos_errors scene smooth options _ event parsed pushes _ middle
      rfl revises
    refine Program.leads_bind.mpr ((handled.narrow Store.answers_of_reviewed).mono ?_)
    intro infos later ended
    rw [ended.2]
    refine Program.leads_bind.mpr ?_
    rintro reply _ ⟨rfl, rfl⟩
    show Program.Leads _ (errorsOf (submitForReview options event) >>= _) _ _
    refine Program.leads_bind.mpr ((leads_submitForReview parsed).mono ?_)
    rintro _ _ rfl
    rfl

/-- A push during which no store call fails reports the errors that its files, the record of its
repository and the moderation service make for. -/
theorem reports_of_unfailing (steady : conditions.Steady) (lawful : store.Lawful)
    (runs : conditions.run (handle options event) store = (result, last))
    (unfailing : last.Unfailing) :
    result = some (.ofErrors
      (Agenda.errors store options conditions.files conditions.review event)) := by
  obtain ⟨value, last', ran⟩ := conditions.run_answers (handle options event) (.start store)
  obtain ⟨rfl, rfl⟩ := Prod.mk.inj (runs.symm.trans ran)
  have leads : Program.Leads (Store.reviewedAnswers conditions.files conditions.review)
      (handle options event) store _ := leads_handle_errors steady.files_ne_cancelled lawful
  exact congrArg some (Conditions.leads_reviewed steady leads ran unfailing)

end Push

end ModelHub
