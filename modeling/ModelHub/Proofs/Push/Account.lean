import ModelHub.Proofs.Reconcile.Account
import ModelHub.Push.Processing

namespace ModelHub

namespace Push

/-- Progress tells of the failures met, and stops only for a cancellation that it reports. -/
structure Progress.Accounted (surroundings : Surroundings) (progress : Progress)
    (met : List HubError) : Prop where
  covers : surroundings.Covers progress.errors met
  stopped : progress.isStopped → .cancelled ∈ progress.errors

namespace Progress

variable {surroundings : Surroundings} {met more : List HubError}

theorem Accounted.after {earlier later : Progress} (first : earlier.Accounted surroundings met)
    (second : later.Accounted surroundings more) :
    (earlier.after later).Accounted surroundings (met ++ more) where
  covers := first.covers.append second.covers
  stopped stops := List.mem_append_right earlier.errors (second.stopped stops)

theorem accounted_clean : clean.Accounted surroundings [] where
  covers := .refl []
  stopped stops := by cases stops

theorem accounted_error {e : HubError} (covers : surroundings.Covers [e] met) :
    (ofOutcome (.error e)).Accounted surroundings met where
  covers := covers
  stopped stops := List.mem_singleton.mpr (of_decide_eq_true stops).symm

theorem yields_andThen {first second : Program Progress}
    (firstYields : surroundings.Yields first (Accounted surroundings))
    (secondYields : surroundings.Yields second (Accounted surroundings)) :
    surroundings.Yields (andThen first second) (Accounted surroundings) := by
  refine Surroundings.yields_bind (firstYields.mono ?_)
  intro earlier met accounted
  split
  · refine Surroundings.yields_done ?_
    rwa [List.append_nil]
  · refine Surroundings.yields_bind (secondYields.mono ?_)
    intro later more accountedLater
    refine Surroundings.yields_done ?_
    rw [List.append_nil]
    exact accounted.after accountedLater

theorem yields_each {α : Type} {step : α → Program Progress} (values : List α)
    (yields : ∀ value, surroundings.Yields (step value) (Accounted surroundings)) :
    surroundings.Yields (each step values) (Accounted surroundings) := by
  induction values with
  | nil => exact Surroundings.yields_done accounted_clean
  | cons value rest ih => exact yields_andThen (yields value) ih

theorem yields_record {work : Work Unit}
    (accounts : surroundings.Accounts work [] fun _ after => after = []) :
    surroundings.Yields (record work) (Accounted surroundings) := by
  refine Surroundings.yields_bind (Surroundings.Yields.mono accounts ?_)
  intro outcome met accounted
  refine Surroundings.yields_done ?_
  rw [List.append_nil]
  cases outcome with
  | error e => exact accounted_error accounted.1
  | ok value =>
    obtain ⟨reported, covers, none⟩ := accounted
    obtain rfl : reported = [] := none
    exact ⟨covers, fun stops => by cases stops⟩

end Progress

end Push

namespace Surroundings

variable {surroundings : Surroundings} {options : Push.Options} {identity : RepoIdentity}
  {event : PushEvent} {reference path : String} {action : FileAction}

theorem accounts_applyReadme :
    surroundings.Accounts (Push.applyReadme options identity reference action) []
      fun _ after => after = [] := by
  unfold Push.applyReadme
  split
  · exact accounts_pure rfl
  · split
    · refine accounts_bind (accounts_clearDeclared.mono ?_)
      rintro count _ rfl
      exact accounts_pure rfl
    · refine accounts_bind (accounts_fetch fun content => accounts_bind ?_)
      refine accounts_applyDeclared.mono ?_
      rintro tags _ rfl
      exact accounts_pure rfl

theorem accounts_updateLibraryOf :
    surroundings.Accounts (Push.updateLibrary identity path action) []
      fun _ after => after = [] := by
  cases action with
  | modified => exact accounts_pure rfl
  | removed => exact accounts_updateLibrary
  | added => exact accounts_updateLibrary

theorem accounted_reconciled {outcome : Except HubError Reconcile.Outcome} {met : List HubError}
    (accounted : surroundings.Accounted [] (fun value after => after = value.failures) outcome met) :
    (Push.reconciled outcome).Accounted surroundings met := by
  cases outcome with
  | error e =>
    simp only [Push.reconciled]
    split
    · next skippable => exact ⟨accounted.1.pass_over skippable, fun stops => by cases stops⟩
    · exact Push.Progress.accounted_error accounted.1
  | ok value =>
    obtain ⟨reported, covers, same⟩ := accounted
    obtain rfl : reported = value.failures := same
    cases value <;> exact ⟨covers, fun stops => by cases stops⟩

theorem yields_reconcileFile :
    surroundings.Yields (Push.reconcileFile options identity reference path action)
      (Push.Progress.Accounted surroundings) := by
  unfold Push.reconcileFile
  split
  · refine yields_bind (Yields.mono accounts_reconcile ?_)
    intro outcome met accounted
    refine yields_done ?_
    rw [List.append_nil]
    exact accounted_reconciled accounted
  · exact yields_done Push.Progress.accounted_clean

theorem yields_handleFile :
    surroundings.Yields (Push.handleFile options identity reference action path)
      (Push.Progress.Accounted surroundings) := by
  have handled : surroundings.Yields (Push.Progress.andThen
      (Push.reconcileFile options identity reference path action)
      (Push.Progress.record (if path = readmeFile then
        Push.applyReadme options identity reference action
        else Push.updateLibrary identity path action))) (Push.Progress.Accounted surroundings) := by
    refine Push.Progress.yields_andThen yields_reconcileFile (Push.Progress.yields_record ?_)
    split
    · exact accounts_applyReadme
    · exact accounts_updateLibraryOf
  exact yields_bind (yields_isCancelled handled
    (yields_done (Push.Progress.accounted_error (.refl _))))

theorem yields_handleCommit {commit : Commit} :
    surroundings.Yields (Push.handleCommit options identity reference commit)
      (Push.Progress.Accounted surroundings) :=
  Push.Progress.yields_each _ fun _ => Push.Progress.yields_each _ fun _ => yields_handleFile

theorem yields_updateInfos (parsed : event.identity = .ok identity) :
    surroundings.Yields (Push.updateInfos options event)
      fun result met => surroundings.Covers result.errors met := by
  unfold Push.updateInfos
  rw [parsed]
  refine yields_bind ((Push.Progress.yields_each _ fun _ => yields_handleCommit).mono ?_)
  intro progress met accounted
  refine yields_done ?_
  rw [List.append_nil, PushResult.errors_ofErrors]
  exact accounted.covers

theorem isSkippable_of_headTime {e : HubError} (failed : Push.headTime event = .error e) :
    e.isSkippable := by
  unfold Push.headTime at failed
  split at failed
  · obtain rfl := Except.error.inj failed
    rfl
  · split at failed
    · cases failed
    · obtain rfl := Except.error.inj failed
      rfl

theorem accounts_setUpdateTime (parsed : event.identity = .ok identity) :
    surroundings.Accounts (Push.setUpdateTime event) [] fun _ after => after = [] := by
  unfold Push.setUpdateTime
  rw [parsed]
  refine accounts_bind (accounts_pure ?_)
  split
  · exact accounts_pure rfl
  · refine accounts_bind (accounts_findRepository.mono ?_)
    rintro repository _ rfl
    refine accounts_bind (accounts_now fun now => ?_)
    split
    · refine accounts_bind (accounts_mk ?_ fun e failed => isSkippable_of_headTime failed)
      intro instant _
      refine accounts_bind (accounts_askStore fun _ _ _ _ => accounts_bind (accounts_askStore ?_))
      intro _ _ _ _
      exact accounts_pure rfl
    · exact accounts_askStore fun _ _ _ _ => rfl

theorem yields_errorsOf {work : Work Unit}
    (accounts : surroundings.Accounts work [] fun _ after => after = []) :
    surroundings.Yields (Push.errorsOf work) surroundings.Covers := by
  refine yields_bind (Yields.mono accounts ?_)
  intro outcome met accounted
  refine yields_done ?_
  rw [List.append_nil]
  cases outcome with
  | error e => exact accounted.1
  | ok value =>
    obtain ⟨reported, covers, none⟩ := accounted
    obtain rfl : reported = [] := none
    exact covers

end Surroundings

namespace Push

variable {surroundings : Surroundings} {options : Options} {identity : RepoIdentity}
  {event : PushEvent}

inductive Reviewed (options : Options) (identity : RepoIdentity) (before : Dialogue) :
    List HubError → Dialogue → Prop
  | cancelled : Reviewed options identity before [] (before.noting ⟨.isCancelled, .ok true⟩)
  | notDue (spared : options.hasModeration && options.config.sensitiveCheck →
      identity.repoType = none) :
      Reviewed options identity before [] (before.noting ⟨.isCancelled, .ok false⟩)
  | submitted (due : options.hasModeration && options.config.sensitiveCheck) {repoType : RepoType}
      (known : identity.repoType = some repoType) (outcome : Except HubError Unit) :
      Reviewed options identity before (Reconcile.errorOf outcome)
        ((before.noting ⟨.isCancelled, .ok false⟩).noting
          ⟨.submit repoType identity.owner identity.name options.config.moderationTimeout, outcome⟩)

def revision (options : Options) (event : PushEvent) : Program (List HubError) := do
  let timeErrors ← errorsOf (setUpdateTime event)
  let result ← updateInfos options event
  return timeErrors ++ result.errors

def review (options : Options) (event : PushEvent) : Program (List HubError) := do
  if ← Work.isCancelled then return []
  else errorsOf (submitForReview options event)

theorem handle_eq (parsed : event.identity = .ok identity) :
    handle options event = (do
      let errors ← revision options event
      let reviewErrors ← review options event
      return .ofErrors (errors ++ reviewErrors)) := by
  unfold handle revision review
  rw [parsed]
  simp only [bind_assoc, pure_bind]
  refine bind_congr fun timeErrors => bind_congr fun result => bind_congr fun cancelled => ?_
  cases cancelled <;> rfl

theorem yields_revision (parsed : event.identity = .ok identity) :
    surroundings.Yields (revision options event) surroundings.Covers := by
  have timed : surroundings.Yields (errorsOf (setUpdateTime event)) surroundings.Covers :=
    Surroundings.yields_errorsOf (Surroundings.accounts_setUpdateTime parsed)
  refine Surroundings.yields_bind (timed.mono fun timeErrors timeMet timeCovers => ?_)
  refine Surroundings.yields_bind ((Surroundings.yields_updateInfos parsed).mono ?_)
  intro result infoMet infoCovers
  refine Surroundings.yields_done ?_
  rw [List.append_nil]
  exact timeCovers.append infoCovers

theorem submitForReview_eq (parsed : event.identity = .ok identity) :
    submitForReview options event =
      if options.hasModeration && options.config.sensitiveCheck then
        match identity.repoType with
        | none => pure ()
        | some repoType =>
          Work.ask (.submit repoType identity.owner identity.name options.config.moderationTimeout)
      else pure () := by
  unfold submitForReview
  rw [parsed]
  split
  · cases known : identity.repoType <;> exact (pure_bind identity _).trans (by rw [known])
  · rfl

theorem reviewed_review (parsed : event.identity = .ok identity) (before : Dialogue) :
    Reviewed options identity before (surroundings.converse (review options event) before).1
      (surroundings.converse (review options event) before).2 := by
  unfold review errorsOf
  rw [submitForReview_eq parsed, Surroundings.converse_bind]
  have asked : surroundings.converse Work.isCancelled before =
      (surroundings.isCancelled before,
        before.noting ⟨.isCancelled, .ok (surroundings.isCancelled before)⟩) := rfl
  rw [asked]
  cases surroundings.isCancelled before with
  | true => exact .cancelled
  | false =>
    simp only [Bool.false_eq_true, ↓reduceIte]
    split
    · next due =>
      cases known : identity.repoType with
      | none => exact .notDue fun _ => known
      | some repoType => exact .submitted due known _
    · next notDue => exact .notDue fun due => absurd due notDue

/-- A push ends with its review, and till then it accounts for the failures it met. -/
theorem handle_ends (parsed : event.identity = .ok identity) {store : Store} {result : PushResult}
    {dialogue : Dialogue}
    (ran : surroundings.run (handle options event) store = (result, dialogue)) :
    ∃ errors met before reviewErrors,
      (Dialogue.start store).Meets met before ∧ surroundings.Covers errors met ∧
        Reviewed options identity before reviewErrors dialogue ∧
        result = .ofErrors (errors ++ reviewErrors) := by
  have yields : surroundings.Yields (revision options event) surroundings.Covers :=
    yields_revision parsed
  obtain ⟨met, meets, covers⟩ := yields (.start store)
  rw [Surroundings.run, handle_eq parsed, Surroundings.converse_bind,
    Surroundings.converse_bind] at ran
  obtain ⟨rfl, rfl⟩ := Prod.mk.inj ran
  exact ⟨_, met, _, _, meets, covers, reviewed_review parsed _, rfl⟩

end Push

end ModelHub
