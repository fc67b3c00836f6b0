import ModelHub.Proofs.Engine.Calm
import ModelHub.Proofs.Reconcile.Descent
import ModelHub.Proofs.Reconcile.Settling

/-! A reconciliation in the terms of its waits: what it does before the lock of its model is
requested, between the lock and the answer of the git server, and after that answer until the lock is
released. All writing is done in one pass, after the last wait. -/

namespace ModelHub

namespace Work

variable {α β : Type}

def unlessCancelled (program : Program (Except HubError α)) :
    Except HubError Bool → Program (Except HubError α)
  | .ok true => .done (.error .cancelled)
  | .ok false | .error _ => program

theorem run_checkpoint_bind (next : Unit → Work α) :
    (checkpoint >>= next).run = .ask .isCancelled (unlessCancelled (next ()).run) := by
  refine congrArg (Program.ask Call.isCancelled) (funext fun reply => ?_)
  cases reply with
  | error e => rfl
  | ok isCancelled => cases isCancelled <;> rfl

def releasing (repositoryId : Int) (work : Work α) : Program (Except HubError α) :=
  work.run >>= fun outcome => .ask (.release repositoryId) fun _ => .done outcome

def ifGranted (program : Program (Except HubError α)) :
    Except HubError Unit → Program (Except HubError α)
  | .error e => .done (.error e)
  | .ok () => program

theorem run_holding (repositoryId : Int) (work : Work α) :
    (holding repositoryId work).run =
      .ask .isCancelled
        (unlessCancelled
          (.ask (.acquire repositoryId) (ifGranted (releasing repositoryId work)))) := by
  unfold holding
  rw [run_checkpoint_bind]
  refine congrArg (fun program => Program.ask .isCancelled (unlessCancelled program)) ?_
  refine congrArg (Program.ask (Call.acquire repositoryId)) (funext fun reply => ?_)
  cases reply with
  | error e => rfl
  | ok _ => exact Program.bind_assoc (attempt work) _ _

end Work

namespace Reconcile

/-- All that is done to a model, once it is clear whether there is a configuration for it. -/
def pass (repository : Repository) (action : FileAction) (fetched : Except HubError String) :
    Work Outcome :=
  if action = .removed then clear repository
  else
    match fetched.bind ModelConfig.architecture with
    | .error e => throw e
    | .ok architecture => return .reconciled (← settle repository architecture)

theorem run_revise (config : SyncConfig) (repository : Repository) (reference : String)
    {action : FileAction} (notRemoved : action ≠ .removed) :
    (revise config repository reference action).run =
      .ask .isCancelled (Work.unlessCancelled
        (.ask (.fetch (configRequest repository reference) config.fetchTimeout) fun fetched =>
          (pass repository action fetched).run)) := by
  have recomputes : revise config repository reference action =
      recompute config repository reference := by
    cases action with
    | removed => exact absurd rfl notRemoved
    | added => rfl
    | modified => rfl
  rw [recomputes]
  unfold recompute Work.fetch
  rw [bind_assoc, Work.run_checkpoint_bind]
  refine congrArg (fun program => Program.ask .isCancelled (Work.unlessCancelled program)) ?_
  refine congrArg (Program.ask _) (funext fun fetched => ?_)
  unfold pass
  rw [if_neg notRemoved]
  cases fetched with
  | error e => rfl
  | ok content =>
    show (ExceptT.mk (pure (ModelConfig.architecture content)) >>= fun architecture =>
        settle repository architecture >>= fun report => pure (.reconciled report)).run =
      (match ModelConfig.architecture content with
        | .error e => throw e
        | .ok architecture =>
          return .reconciled (← settle repository architecture) : Work Outcome).run
    cases ModelConfig.architecture content <;> rfl

def opening (config : SyncConfig) (identity : RepoIdentity) (reference : String)
    (action : FileAction) : Except HubError (Option Repository) → Program (Except HubError Outcome)
  | .error e => .done (.error e)
  | .ok none => .done (.error (Tagging.missing .model identity.owner identity.name))
  | .ok (some repository) =>
    if reference = expectedReference config repository then
      (Work.holding repository.id (revise config repository reference action)).run
    else .done (.ok (.notDefaultBranch reference (expectedReference config repository)))

theorem run_reconcile (config : SyncConfig) {identity : RepoIdentity} {path : String}
    (triggered : triggers identity path = true) (reference : String) (action : FileAction) :
    (reconcile config identity reference path action).run =
      .ask (.store (.findRepository .model identity.owner identity.name))
        (opening config identity reference action) := by
  unfold reconcile
  simp only [triggered, Bool.not_true, Bool.false_eq_true, if_false]
  refine congrArg (Program.ask _) (funext fun found => ?_)
  cases found with
  | error e => rfl
  | ok found =>
    cases found with
    | none => rfl
    | some repository =>
      show (if reference ≠ expectedReference config repository then
          pure (.notDefaultBranch reference (expectedReference config repository))
        else Work.holding repository.id (revise config repository reference action) :
          Work Outcome).run = opening config identity reference action (.ok (some repository))
      simp only [opening, ne_eq, ite_not, apply_ite ExceptT.run]
      rfl

def Acts (action : FileAction) (fetched : Except HubError String) : Prop :=
  action = .removed ∨ ∃ architecture, fetched.bind ModelConfig.architecture = .ok architecture

def passChanges (store : Store) (repository : Repository) (action : FileAction)
    (fetched : Except HubError String) : List Change :=
  if action = .removed then [.clear] else Agenda.recompute store repository.place fetched

variable {repository : Repository} {action : FileAction} {fetched : Except HubError String}

theorem pass_of_not_acts (idle : ¬Acts action fetched) :
    ∃ e, pass repository action fetched = throw e := by
  obtain ⟨notRemoved, unread⟩ := not_or.mp idle
  unfold pass
  rw [if_neg notRemoved]
  cases read : fetched.bind ModelConfig.architecture with
  | error e => exact ⟨e, rfl⟩
  | ok architecture => exact absurd ⟨architecture, read⟩ unread

theorem abides_pass : Work.Abides (Call.Belongs repository.id) (pass repository action fetched) := by
  unfold pass
  split
  · exact abides_clear repository
  · split
    · exact Work.abides_throw _
    · exact Work.abides_bind (abides_settle repository _) fun _ => Work.abides_pure _

theorem passes_resolve {wanted : StoreCall} (candidates : List Candidate) (desired : Desired) :
    Work.Passes wanted (resolve candidates desired) := by
  induction candidates generalizing desired with
  | nil => exact Work.passes_pure _
  | cons candidate rest ih =>
    unfold resolve
    split
    · exact ih desired
    · refine Work.passes_bind (Work.passes_askStore _) fun found => ?_
      cases found with
      | none => exact ih desired
      | some framework => exact ih _

theorem passes_tagNamesOf {wanted : StoreCall} (stored : List Association) :
    Work.Passes wanted (tagNamesOf stored) := by
  induction stored with
  | nil => exact Work.passes_pure _
  | cons row rest ih =>
    refine Work.passes_bind (Work.passes_askStore _) fun _ => ?_
    exact Work.passes_bind ih fun _ => Work.passes_pure _

theorem asks_pruneTags (repositoryId : Int) (desired : Desired) :
    Work.Asks (.listTags repositoryId (some .runtimeFramework)) (pruneTags repositoryId desired) := by
  refine Work.asks_bind (Work.passes_askStore _) fun stored => ?_
  refine Work.asks_bind (passes_tagNamesOf stored) fun names => ?_
  exact (Work.asks_askStore _).bind _

theorem asks_settle (repository : Repository) (architecture : String) :
    Work.Asks (.listTags repository.id (some .runtimeFramework))
      (settle repository architecture) := by
  refine Work.asks_bind (Work.passes_askStore _) fun resources => ?_
  refine Work.asks_bind (Work.passes_attemptEach _ _) fun linked => ?_
  refine Work.asks_bind (Work.passes_bind (Work.passes_askStore _) fun candidates =>
    passes_resolve candidates {}) fun desired => ?_
  refine Work.asks_bind (Work.passes_askStore _) fun stored => ?_
  refine Work.asks_bind (Work.passes_attemptEach _ _) fun removed => ?_
  refine Work.asks_bind (Work.passes_attemptEach _ _) fun added => ?_
  refine Work.asks_bind Work.passes_checkpoint fun _ => ?_
  exact (asks_pruneTags repository.id desired).attempt.bind _

theorem asks_clear (repository : Repository) :
    Work.Asks (.listTags repository.id (some .runtimeFramework)) (clear repository) := by
  refine Work.asks_bind Work.passes_checkpoint fun _ => ?_
  refine Work.asks_bind (Work.passes_askStore _) fun _ => ?_
  exact (Work.asks_askStore _).bind _

/-- A pass that may write lists the framework tags. -/
theorem asks_pass (acts : Acts action fetched) :
    Work.Asks (.listTags repository.id (some .runtimeFramework))
      (pass repository action fetched) := by
  unfold pass
  split
  · exact asks_clear repository
  · next notRemoved =>
    obtain ⟨architecture, read⟩ := acts.resolve_left notRemoved
    rw [read]
    exact (asks_settle repository architecture).bind _

end Reconcile

theorem StoreCall.Belongs.performs {repositoryId : Int} {store : Store} {request : StoreCall}
    (belongs : request.Belongs repositoryId store)
    (legible : (store.profile repositoryId).Legible) :
    ∃ value, (store.perform request).1 = .ok value := by
  cases request with
  | listTags id category =>
    obtain ⟨rfl, rfl⟩ := belongs
    exact Store.tagsOf_of_legible legible
  | findRepository | setUpdatedAt | touchMirror | replaceTags | unlinkCategory => exact belongs.elim
  | _ => exact ⟨_, rfl⟩

namespace Conditions

variable {files : FileRequest → Except HubError String} {α : Type} {program : Program α}
  {value : α} {course last : Course} {repositoryId : Int}

/-- Where the framework tags can be listed, nothing that belongs to the repository fails. -/
theorem unfailing_of_legible
    (abides : program.Abides (Call.Belongs repositoryId) course.store)
    (lawful : course.store.Lawful) (legible : (course.store.profile repositoryId).Legible)
    (ran : Program.run (calm files).answer program course = (some value, last))
    (unfailing : course.Unfailing) : last.Unfailing := by
  induction program generalizing course with
  | done result =>
    obtain ⟨-, rfl⟩ := Prod.mk.inj ran
    exact unfailing
  | ask call next ih =>
    obtain ⟨belongs, rest⟩ := abides
    have answer := (calm files).anyAnswers_after call course
    have descends := belongs.descends answer
    refine ih _ (rest _ _ answer) (descends.lawful lawful)
      ((descends.legible_iff lawful repositoryId).mpr legible) ran ?_
    intro request e member
    rcases List.mem_cons.mp member with same | earlier
    · obtain ⟨rfl, failed⟩ := Prod.mk.inj same
      obtain ⟨value, performed⟩ := StoreCall.Belongs.performs belongs legible
      have replied : ((calm files).reply course.log.length (.store request) course.store).1 =
        .ok value := performed
      rw [replied] at failed
      cases failed
    · exact unfailing request e earlier

/-- Where nothing fails, the framework tags could be listed if they were to be. -/
theorem legible_of_unfailing
    (abides : program.Abides (Call.Belongs repositoryId) course.store)
    (lawful : course.store.Lawful)
    (finds : program.Finds (.listTags repositoryId (some .runtimeFramework)) fun _ => False)
    (ran : Program.run (calm files).answer program course = (some value, last))
    (unfailing : last.Unfailing) : (course.store.profile repositoryId).Legible := by
  induction program generalizing course with
  | done result => exact finds.elim
  | ask call next ih =>
    obtain ⟨belongs, rest⟩ := abides
    have answer := (calm files).anyAnswers_after call course
    have descends := belongs.descends answer
    have onward := fun finds => (descends.legible_iff lawful repositoryId).mp
      (@ih _ ((calm files).after call course) (rest _ _ answer) (descends.lawful lawful) finds ran)
    cases call with
    | store request =>
      have fine : ((calm files).after (.store request) course).Unfailing :=
        unfailing_of_run ran unfailing
      have replied : ∀ outcome, (course.store.perform request).1 = outcome →
          ((calm files).reply course.log.length (.store request) course.store).1 = outcome :=
        fun _ => id
      cases performed : (course.store.perform request).1 with
      | error e =>
        refine absurd (List.mem_cons.mpr (Or.inl ?_)) (fine request e)
        rw [replied _ performed]
        rfl
      | ok value =>
        rcases finds with rfl | finds
        · exact Store.tagsOf_legible performed
        · exact onward (replied _ performed ▸ finds value)
    | isCancelled => exact onward finds
    | _ => exact belongs.elim

/-- Whatever belongs to a repository has no use for the git server. -/
theorem run_calm_congr (abides : program.Abides (Call.Belongs repositoryId) course.store)
    (files other : FileRequest → Except HubError String) :
    Program.run (calm files).answer program course =
      Program.run (calm other).answer program course := by
  induction program generalizing course with
  | done result => rfl
  | ask call next ih =>
    obtain ⟨belongs, rest⟩ := abides
    have answer := (calm files).anyAnswers_after call course
    have onward := ih _ (rest _ _ answer)
    cases call with
    | store request => exact onward
    | isCancelled => exact onward
    | _ => exact belongs.elim

theorem run_of_abides {conditions : Conditions}
    (abides : program.Abides (Call.Belongs repositoryId) course.store)
    (ran : Program.run conditions.answer program course = (some value, last)) :
    course.store.Revises repositoryId last.store ∧ course.store.Descends last.store := by
  let kept (after : Store) : Prop :=
    course.store.Revises repositoryId after ∧ course.store.Descends after
  have leads : Program.Leads Store.anyAnswers program course.store fun _ after => kept after := by
    refine Program.Abides.keeps ?_ abides ⟨.refl _ _, .refl _⟩
    intro call store reply after belongs holds answered
    exact ⟨holds.1.trans (belongs.revises answered), holds.2.trans (belongs.descends answered)⟩
  exact run_of_leads leads ran

end Conditions

theorem Scene.does_pass {scene : Scene} {profile : Profile} {repository : Repository}
    (here : repository.id = scene.repositoryId) (action : FileAction)
    (fetched : Except HubError String) :
    scene.Does (Reconcile.pass repository action fetched) profile
      (fun _ after => Change.Outcomes scene.faults
        (Reconcile.passChanges scene.store repository action fetched) profile after)
      fun _ after => Change.Outcomes scene.faults
        (Reconcile.passChanges scene.store repository action fetched) profile after := by
  unfold Reconcile.pass Reconcile.passChanges Agenda.recompute
  split
  · exact (does_clear here).mono (fun _ _ => And.right) fun _ _ => And.right
  · cases fetched.bind ModelConfig.architecture with
    | error e => exact does_throw (outcomes_nil profile)
    | ok architecture =>
      refine does_bind ((does_settle here architecture).mono ?_ fun _ _ => And.right)
      intro report after ended
      exact does_pure ended.2

namespace Reconcile

variable {files : FileRequest → Except HubError String} {repository : Repository}
  {action : FileAction} {fetched : Except HubError String} {start store : Store}
  {value : Except HubError Outcome} {last : Course}

theorem unfailing_pass (lawful : store.Lawful)
    (ready : Acts action fetched → (store.profile repository.id).Legible)
    (ran : (Conditions.calm files).run (pass repository action fetched).run store =
      (some value, last)) : last.Unfailing := by
  by_cases acts : Acts action fetched
  · exact Conditions.unfailing_of_legible (abides_pass store) lawful (ready acts) ran
      fun _ _ => nofun
  · obtain ⟨e, throws⟩ := pass_of_not_acts acts
    rw [throws] at ran
    obtain ⟨-, rfl⟩ := Prod.mk.inj ran
    exact fun _ _ => nofun

theorem ready_of_unfailing (lawful : store.Lawful)
    (ran : (Conditions.calm files).run (pass repository action fetched).run store =
      (some value, last)) (unfailing : last.Unfailing) (acts : Acts action fetched) :
    (store.profile repository.id).Legible :=
  Conditions.legible_of_unfailing (abides_pass (Course.start store).store) lawful (asks_pass acts)
    ran unfailing

theorem profile_of_pass (lawful : store.Lawful)
    (ran : (Conditions.calm files).run (pass repository action fetched).run store =
      (some value, last)) (unfailing : last.Unfailing) :
    last.store.profile repository.id =
      Change.result (passChanges store repository action fetched)
        (store.profile repository.id) := by
  let quiet : FileRequest → Except HubError String := fun _ => .ok ""
  have steady : (Conditions.calm quiet).Steady := Conditions.calm_steady fun _ => nofun
  have ranQuietly : (Conditions.calm quiet).run (pass repository action fetched).run store =
      (some value, last) :=
    (Conditions.run_calm_congr (abides_pass (Course.start store).store) quiet files).trans ran
  have does := @Scene.does_pass (Conditions.smoothScene steady lawful repository.id)
    (store.profile repository.id) repository rfl action fetched
  obtain ⟨-, ended⟩ := Conditions.ends_smoothly does ranQuietly unfailing
  cases value with
  | ok outcome => exact Change.Outcomes.eq_result ended fun _ => id
  | error e => exact Change.Outcomes.eq_result ended fun _ => id

theorem passChanges_congr (descends : start.Descends store) :
    passChanges store repository action fetched = passChanges start repository action fetched := by
  unfold passChanges Agenda.recompute Agenda.settling
  simp only [descends.plan, descends.resourceNames]

end Reconcile

end ModelHub
