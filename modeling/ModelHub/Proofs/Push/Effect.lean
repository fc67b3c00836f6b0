import ModelHub.Proofs.Domain.Identity
import ModelHub.Proofs.Reconcile.Settling

namespace ModelHub

open Push (Progress)

namespace Scene

variable {scene : Scene} {profile : Profile}

structure Proceeds (scene : Scene) (program : Program Progress) (changes : List Change) : Prop where
  runs : ∀ profile, scene.Runs program profile fun progress after =>
    progress.isStopped = false ∧ Change.Outcomes scene.faults changes profile after

theorem proceeds_clean : scene.Proceeds (pure .clean) [] :=
  ⟨fun profile => runs_done ⟨rfl, outcomes_nil profile⟩⟩

theorem ofOutcome_isStopped {outcome : Except HubError Unit}
    (calm : ∀ e, outcome = .error e → e ≠ .cancelled) :
    (Progress.ofOutcome outcome).isStopped = false := by
  cases outcome with
  | ok _ => rfl
  | error e => exact decide_eq_false (calm e rfl)

theorem proceeds_andThen {first second : Program Progress} {earlier later : List Change}
    (proceedsFirst : scene.Proceeds first earlier) (proceedsSecond : scene.Proceeds second later) :
    scene.Proceeds (Progress.andThen first second) (earlier ++ later) := by
  refine ⟨fun profile => ?_⟩
  refine runs_bind ((proceedsFirst.runs profile).mono ?_)
  intro progress middle ended
  obtain ⟨goesOn, before⟩ := ended
  simp only [goesOn, Bool.false_eq_true, if_false]
  refine runs_bind ((proceedsSecond.runs middle).mono ?_)
  intro last after ended
  exact runs_done ⟨ended.1, Change.outcomes_append.mpr ⟨middle, before, ended.2⟩⟩

theorem proceeds_each {α : Type} {step : α → Program Progress} {changes : α → List Change}
    (values : List α) (proceeds : ∀ value ∈ values, scene.Proceeds (step value) (changes value)) :
    scene.Proceeds (Progress.each step values) (values.flatMap changes) := by
  induction values with
  | nil => exact proceeds_clean
  | cons value rest ih =>
    rw [List.flatMap_cons]
    refine proceeds_andThen (proceeds value List.mem_cons_self) (ih ?_)
    intro other member
    exact proceeds other (List.mem_cons_of_mem value member)

theorem proceeds_record {work : Work Unit} {changes : List Change}
    (carries : scene.Carries work changes) : scene.Proceeds (Progress.record work) changes := by
  refine ⟨fun profile => ?_⟩
  refine runs_bind (runs_attempt ((carries.does profile).mono ?_ ?_))
  · intro _ after ended
    exact runs_done ⟨rfl, ended⟩
  · intro e after ended
    refine runs_done ⟨ofOutcome_isStopped ?_, ended.2⟩
    intro other same
    obtain rfl := Except.error.inj same
    exact ended.1

theorem carries_discard {α : Type} {work : Work α} {changes : List Change}
    (carries : scene.Carries work changes) :
    scene.Carries (do let _ ← work : Work Unit) changes := by
  refine ⟨fun profile => ?_⟩
  refine does_bind ((carries.does profile).mono ?_ fun _ _ => id)
  intro _ after ended
  exact does_pure ended

variable {options : Push.Options} {identity : RepoIdentity} {reference path : String}
  {action : FileAction}

/-- The pushed repository, if it is of a known type and registered, is the one that is written to.
-/
def Pushes (scene : Scene) (identity : RepoIdentity) : Prop :=
  ∀ repoType, identity.repoType = some repoType →
    scene.Targets repoType identity.owner identity.name

theorem proceeds_reconcileFile (pushes : scene.Pushes identity) :
    scene.Proceeds (Push.reconcileFile options identity reference path action)
      (if Reconcile.triggers identity path then
        Agenda.reconcile scene.store options.config scene.files identity.owner identity.name
          reference action else []) := by
  unfold Push.reconcileFile
  by_cases triggers : Reconcile.triggers identity path = true
  · rw [if_pos triggers, if_pos triggers]
    have isModel : identity.repoType = some .model := by
      simp only [Reconcile.triggers, Bool.and_eq_true, decide_eq_true_eq] at triggers
      exact triggers.1
    refine ⟨fun profile => ?_⟩
    refine runs_bind (runs_attempt
      ((carries_reconcile triggers (pushes .model isModel) action).does profile |>.mono ?_ ?_))
    · intro outcome after ended
      refine runs_done ⟨?_, ended⟩
      cases outcome <;> rfl
    · intro e after ended
      refine runs_done ⟨?_, ended.2⟩
      unfold Push.reconciled
      split
      · rfl
      · rfl
      · next other same =>
        obtain rfl := Except.error.inj same
        split
        · rfl
        · exact ofOutcome_isStopped fun another same => Except.error.inj same ▸ ended.1
  · rw [if_neg triggers, if_neg triggers]
    exact proceeds_clean

theorem scope_eq_some {scope : TagScope} (isOf : identity.scope = some scope) :
    identity.repoType = some scope.repoType := by
  unfold RepoIdentity.scope at isOf
  obtain ⟨repoType, known, bears⟩ := Option.bind_eq_some_iff.mp isOf
  rw [known]
  cases repoType <;> simp [TagScope.ofRepoType?] at bears <;> subst bears <;> rfl

theorem carries_applyReadme (pushes : scene.Pushes identity) :
    scene.Carries (Push.applyReadme options identity reference action)
      (Agenda.readme scene.store scene.files identity reference action) := by
  unfold Push.applyReadme Agenda.readme
  cases isOf : identity.scope with
  | none => exact ⟨fun profile => does_pure (outcomes_nil profile)⟩
  | some scope =>
    have targets := pushes scope.repoType (scope_eq_some isOf)
    by_cases removed : action = .removed
    · simp only [removed, if_true]
      exact carries_discard (carries_clearDeclared targets)
    · simp only [removed, if_false]
      refine ⟨fun profile => ?_⟩
      refine does_bind (does_fetch ?_)
      cases fetched : scene.files (Push.readmeRequest scope.repoType identity reference) with
      | error e =>
        refine ⟨?_, outcomes_nil profile⟩
        rintro rfl
        exact scene.files_ne_cancelled _ fetched
      | ok content => exact (carries_discard (carries_applyDeclared targets)).does profile

theorem carries_updateLibraryFile (pushes : scene.Pushes identity)
    (known : identity.scope = TagScope.ofToken? identity.typeToken) :
    scene.Carries (Push.updateLibrary identity path action)
      (Agenda.library scene.store identity path action) := by
  unfold Agenda.library Push.updateLibrary
  cases isOf : TagScope.ofToken? identity.typeToken with
  | none =>
    unfold Tagging.updateLibrary
    rw [isOf]
    cases action <;> exact ⟨fun profile => does_pure (outcomes_nil profile)⟩
  | some scope =>
    have targets := pushes scope.repoType (scope_eq_some (known.trans isOf))
    cases action with
    | modified => exact ⟨fun profile => does_pure (outcomes_nil profile)⟩
    | removed =>
      dsimp only
      exact carries_updateLibrary isOf targets
    | added =>
      dsimp only
      exact carries_updateLibrary isOf targets

theorem proceeds_handleFile (pushes : scene.Pushes identity)
    (known : identity.scope = TagScope.ofToken? identity.typeToken) :
    scene.Proceeds (Push.handleFile options identity reference action path)
      (Agenda.file scene.store options.config scene.files identity reference action path) := by
  refine ⟨fun profile => ?_⟩
  refine runs_bind (runs_isCancelled ?_)
  have record : scene.Proceeds (Progress.record (if path = readmeFile then
        Push.applyReadme options identity reference action
      else Push.updateLibrary identity path action))
      (if path = readmeFile then Agenda.readme scene.store scene.files identity reference action
        else Agenda.library scene.store identity path action) := by
    refine proceeds_record ?_
    split
    · exact carries_applyReadme pushes
    · exact carries_updateLibraryFile pushes known
  exact (proceeds_andThen (proceeds_reconcileFile pushes) record).runs profile

theorem proceeds_handleCommit (pushes : scene.Pushes identity)
    (known : identity.scope = TagScope.ofToken? identity.typeToken) (commit : Commit) :
    scene.Proceeds (Push.handleCommit options identity reference commit)
      (commit.handled.flatMap fun entry => Agenda.file scene.store options.config
        scene.files identity reference entry.1 entry.2) := by
  unfold Commit.handled
  rw [List.flatMap_assoc]
  refine proceeds_each _ fun action _ => ?_
  rw [List.flatMap_map]
  exact proceeds_each _ fun path _ => proceeds_handleFile pushes known

theorem runs_errorsOf {work : Work Unit}
    (idle : scene.Does work profile (fun _ after => after = profile)
      fun _ after => after = profile) :
    scene.Runs (Push.errorsOf work) profile fun _ after => after = profile := by
  refine runs_bind (runs_attempt (idle.mono ?_ ?_))
  · rintro _ after rfl
    exact runs_done rfl
  · rintro e after rfl
    exact runs_done rfl

theorem does_setUpdateTime {event : PushEvent} (parsed : event.identity = .ok identity)
    (pushes : scene.Pushes identity) :
    scene.Does (Push.setUpdateTime event) profile (fun _ after => after = profile)
      fun _ after => after = profile := by
  refine does_bind (does_mk ?_)
  rw [parsed]
  show scene.Does _ profile _ _
  cases known : identity.repoType with
  | none => exact does_pure rfl
  | some repoType =>
    refine does_bind
      (does_findRepository (fun repository found => ?_) (fun _ => rfl) fun _ _ => rfl)
    have here : repository.id = scene.repositoryId := pushes repoType known _ found
    refine does_bind (does_now fun now => ?_)
    by_cases isMirror : repository.isMirror = true
    · simp only [isMirror, if_true]
      refine does_bind (does_mk ?_)
      cases Push.headTime event with
      | error e => rfl
      | ok instant =>
        refine does_bind (does_setUpdatedAt here ?_ fun _ _ => rfl)
        exact does_bind (does_touchMirror here (fun _ => does_pure rfl) fun _ _ => rfl)
    · simp only [isMirror]
      exact does_setUpdatedAt here rfl fun _ _ => rfl

theorem does_submitForReview {event : PushEvent} :
    scene.Does (Push.submitForReview options event) profile (fun _ after => after = profile)
      fun _ after => after = profile := by
  unfold Push.submitForReview
  split
  · refine does_bind (does_mk ?_)
    cases event.identity with
    | error e => rfl
    | ok identity =>
      show scene.Does _ profile _ _
      cases identity.repoType with
      | none => exact does_pure rfl
      | some repoType =>
        intro store same revises reply after answer
        obtain rfl : after = store := answer
        cases reply with
        | ok _ => exact ⟨revises, same⟩
        | error e => exact ⟨revises, same⟩
  · exact does_pure rfl

theorem runs_updateInfos {event : PushEvent} (parsed : event.identity = .ok identity)
    (pushes : scene.Pushes identity) :
    scene.Runs (Push.updateInfos options event) profile fun _ after =>
      Change.Outcomes scene.faults
        (Agenda.changes scene.store options.config scene.files event) profile after := by
  have known : identity.scope = TagScope.ofToken? identity.typeToken :=
    RepoIdentity.scope_of_parse parsed
  unfold Push.updateInfos Agenda.changes
  rw [parsed]
  have proceeds : scene.Proceeds
      (Progress.each (Push.handleCommit options identity event.reference) event.commits) _ :=
    proceeds_each event.commits fun commit _ => proceeds_handleCommit pushes known commit
  refine runs_bind ((proceeds.runs profile).mono ?_)
  intro progress after ended
  refine runs_done ?_
  show Change.Outcomes scene.faults (List.flatMap _ (List.flatMap _ _)) profile after
  rw [List.flatMap_assoc]
  exact ended.2

theorem runs_handle {event : PushEvent}
    (pushes : ∀ identity, event.identity = .ok identity → scene.Pushes identity) :
    scene.Runs (Push.handle options event) profile fun _ after =>
      Change.Outcomes scene.faults
        (Agenda.changes scene.store options.config scene.files event) profile after := by
  cases parsed : event.identity with
  | error e =>
    have refused : Push.handle options event = pure (.error (.single e)) := by
      unfold Push.handle
      rw [parsed]
    have nothing : Agenda.changes scene.store options.config scene.files event = [] := by
      unfold Agenda.changes
      rw [parsed]
    rw [refused, nothing]
    exact runs_done (outcomes_nil profile)
  | ok identity =>
    unfold Push.handle
    rw [parsed]
    refine runs_bind ((runs_errorsOf (does_setUpdateTime parsed (pushes identity parsed))).mono ?_)
    rintro timeErrors _ rfl
    refine runs_bind ((runs_updateInfos parsed (pushes identity parsed)).mono ?_)
    intro infos updated outcomes
    refine runs_bind (runs_isCancelled ?_)
    refine runs_bind ((runs_errorsOf does_submitForReview).mono ?_)
    rintro reviewErrors _ rfl
    exact runs_done outcomes

theorem pushes_of_target {event : PushEvent}
    (targets : ∀ place, event.target? scene.store = some place → place.id = scene.repositoryId)
    (parsed : event.identity = .ok identity) : scene.Pushes identity := by
  intro repoType known place found
  refine targets place ?_
  unfold PushEvent.target?
  rw [parsed]
  exact Option.bind_eq_some_iff.mpr ⟨repoType, known, found⟩

end Scene

theorem Store.Revises.changes {repositoryId : Int} {before after : Store}
    (revises : Store.Revises repositoryId before after) (config : SyncConfig)
    (files : FileRequest → Except HubError String) (event : PushEvent) :
    Agenda.changes after config files event = Agenda.changes before config files event := by
  have places := Store.place?_congr revises.places
  have plans : ∀ place architecture,
      after.plan place architecture = before.plan place architecture := by
    intro place architecture
    simp only [Store.plan, Store.offer, Store.runs, revises.frameworks, revises.compatibilities]
  have reconciles : ∀ owner name reference action,
      Agenda.reconcile after config files owner name reference action =
        Agenda.reconcile before config files owner name reference action := by
    intro owner name reference action
    unfold Agenda.reconcile Agenda.recompute Agenda.settling
    simp only [places, plans, revises.resourceNames]
  have readmes : ∀ identity reference action,
      Agenda.readme after files identity reference action =
        Agenda.readme before files identity reference action := by
    intro identity reference action
    unfold Agenda.readme Agenda.declare
    simp only [places]
  have libraries : ∀ identity path action,
      Agenda.library after identity path action = Agenda.library before identity path action := by
    intro identity path action
    unfold Agenda.library Agenda.switchLibrary
    simp only [places]
  unfold Agenda.changes Agenda.file
  simp only [reconciles, readmes, libraries]

theorem Store.Revises.target? {repositoryId : Int} {before after : Store}
    (revises : Store.Revises repositoryId before after) (event : PushEvent) :
    event.target? after = event.target? before := by
  have places := Store.place?_congr revises.places
  simp only [PushEvent.target?, places]

namespace Push

variable {conditions : Conditions} {options : Options} {event : PushEvent} {store : Store}
  {result : Option PushResult} {last : Course} {repositoryId : Int}

/-- A push during which no store call fails carries out its whole agenda. -/
theorem profile_of_unfailing (steady : conditions.Steady) (lawful : store.Lawful)
    (targets : ∀ place, event.target? store = some place → place.id = repositoryId)
    (runs : conditions.run (handle options event) store = (result, last))
    (unfailing : last.Unfailing) :
    store.Revises repositoryId last.store ∧ last.store.profile repositoryId =
      Change.result (Agenda.changes store options.config conditions.files event)
        (store.profile repositoryId) := by
  obtain ⟨value, last', ran⟩ := conditions.run_answers (handle options event) (.start store)
  obtain ⟨rfl, rfl⟩ := Prod.mk.inj (runs.symm.trans ran)
  have does := @Scene.runs_handle (Conditions.smoothScene steady lawful repositoryId)
    (store.profile repositoryId) options event fun _ parsed => Scene.pushes_of_target targets parsed
  obtain ⟨revises, outcomes⟩ := Conditions.ends_smoothly does ran unfailing
  exact ⟨revises, outcomes.eq_result fun _ => id⟩

theorem profile_of_faulty (steady : conditions.Steady) (lawful : store.Lawful)
    (planned : ∀ number e, conditions.storeFault number = some e → ∃ message, e = .database message)
    (targets : ∀ place, event.target? store = some place → place.id = repositoryId)
    (runs : conditions.run (handle options event) store = (result, last)) :
    store.Revises repositoryId last.store ∧
      Change.Outcomes (fun e => ∃ message, e = .database message)
        (Agenda.changes store options.config conditions.files event)
        (store.profile repositoryId) (last.store.profile repositoryId) := by
  obtain ⟨value, last', ran⟩ := conditions.run_answers (handle options event) (.start store)
  obtain ⟨rfl, rfl⟩ := Prod.mk.inj (runs.symm.trans ran)
  have does := @Scene.runs_handle (Conditions.faultyScene steady lawful repositoryId)
    (store.profile repositoryId) options event fun _ parsed => Scene.pushes_of_target targets parsed
  obtain ⟨revises, outcomes⟩ := Conditions.ends_faulty planned does ran
  exact ⟨revises, outcomes⟩

end Push

end ModelHub
