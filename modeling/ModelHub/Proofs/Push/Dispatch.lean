import ModelHub.Proofs.Push.Account
import ModelHub.Proofs.Push.Agenda
import ModelHub.Proofs.Push.Reachable
import ModelHub.Proofs.Reconcile.Settlement

namespace ModelHub

namespace Surroundings

/-- The push is not cancelled, and neither the store nor the git server speaks of a cancellation. -/
structure Uncancelled (surroundings : Surroundings) : Prop where
  token : ∀ dialogue, surroundings.isCancelled dialogue = false
  queue : ∀ dialogue repositoryId, surroundings.isCancelledInQueue dialogue repositoryId = false
  store : ∀ dialogue request, surroundings.storeFault dialogue request ≠ some .cancelled
  server : ∀ dialogue request limit, surroundings.fetch dialogue request limit ≠ .error .cancelled

variable {surroundings : Surroundings} {α : Type}

/-- Who can speak of a cancellation. -/
theorem speaker_of_cancelled {exchange : Exchange} {before : Dialogue}
    (replied : (surroundings.reply before exchange.call).1 = exchange.reply)
    (cancelled : exchange.failure? = some .cancelled) :
    (∃ request, exchange = ⟨.store request, .error .cancelled⟩ ∧
      surroundings.storeFault before request = some .cancelled) ∨
    (∃ request limit, exchange = ⟨.fetch request limit, .error .cancelled⟩ ∧
      surroundings.fetch before request limit = .error .cancelled) ∨
    (∃ repositoryId, exchange = ⟨.acquire repositoryId, .error .cancelled⟩ ∧
      surroundings.isCancelledInQueue before repositoryId = true) ∨
    (exchange = ⟨.isCancelled, .ok true⟩ ∧ surroundings.isCancelled before = true) ∨
    exchange.submission?.isSome := by
  obtain ⟨call, answer⟩ := exchange
  change (surroundings.reply before call).1 = answer at replied
  cases call with
  | store request =>
    refine Or.inl ⟨request, ?_⟩
    subst replied
    simp only [reply] at cancelled ⊢
    split at cancelled
    · exfalso
      cases performed : before.store.perform request with
      | mk answer after =>
        rw [performed] at cancelled
        cases answer with
        | ok value => cases cancelled
        | error e =>
          obtain ⟨-, message, rfl⟩ := Store.perform_error performed
          cases cancelled
    · next e planned =>
      obtain rfl : e = .cancelled := Option.some.inj cancelled
      exact ⟨rfl, planned⟩
  | fetch request limit =>
    refine Or.inr (Or.inl ⟨request, limit, ?_⟩)
    have fetched : surroundings.fetch before request limit = answer := replied
    cases answer with
    | ok content => cases cancelled
    | error e =>
      obtain rfl : e = .cancelled := Option.some.inj cancelled
      exact ⟨rfl, fetched⟩
  | acquire repositoryId =>
    refine Or.inr (Or.inr (Or.inl ⟨repositoryId, ?_⟩))
    subst replied
    cases left : surroundings.isCancelledInQueue before repositoryId with
    | true => simp [reply, left]
    | false => simp [reply, left, Exchange.failure?] at cancelled
  | isCancelled =>
    refine Or.inr (Or.inr (Or.inr (Or.inl ?_)))
    subst replied
    cases fired : surroundings.isCancelled before with
    | true => simp [reply, fired]
    | false => simp [reply, fired, Exchange.failure?] at cancelled
  | submit repoType owner name limit => exact Or.inr (Or.inr (Or.inr (Or.inr rfl)))
  | now | release =>
    subst replied
    cases cancelled

theorem Uncancelled.submission_of_reply (uncancelled : surroundings.Uncancelled)
    {exchange : Exchange} {before : Dialogue}
    (replied : (surroundings.reply before exchange.call).1 = exchange.reply)
    (cancelled : exchange.failure? = some .cancelled) : exchange.submission?.isSome := by
  obtain ⟨request, -, planned⟩ | ⟨request, limit, -, fetched⟩ | ⟨repositoryId, -, left⟩ |
    ⟨-, fired⟩ | submitted := speaker_of_cancelled replied cancelled
  · exact absurd planned (uncancelled.store before request)
  · exact absurd fetched (uncancelled.server before request limit)
  · exact absurd ((uncancelled.queue before repositoryId).symm.trans left) Bool.false_ne_true
  · exact absurd ((uncancelled.token before).symm.trans fired) Bool.false_ne_true
  · exact submitted

structure Preparing (surroundings : Surroundings) (dialogue : Dialogue) : Prop where
  heard : surroundings.Heard dialogue
  nothing : dialogue.submissions = []

theorem preparing_start (store : Store) : surroundings.Preparing (.start store) :=
  ⟨fun _ absent => absurd absent List.not_mem_nil, rfl⟩

theorem Preparing.not_submission {dialogue : Dialogue} (preparing : surroundings.Preparing dialogue)
    {exchange : Exchange} (present : exchange ∈ dialogue.exchanges) :
    ¬ exchange.submission?.isSome := by
  intro submitted
  obtain ⟨submission, same⟩ := Option.isSome_iff_exists.mp submitted
  have handedIn : submission ∈ dialogue.submissions :=
    List.mem_filterMap.mpr ⟨exchange, List.mem_reverse.mpr present, same⟩
  rw [preparing.nothing] at handedIn
  exact absurd handedIn List.not_mem_nil

theorem Preparing.cancelled_not_mem {dialogue : Dialogue} (uncancelled : surroundings.Uncancelled)
    (preparing : surroundings.Preparing dialogue) : .cancelled ∉ dialogue.failures := by
  intro member
  obtain ⟨exchange, present, cancelled⟩ := Dialogue.mem_failures.mp member
  obtain ⟨before, replied⟩ := preparing.heard exchange present
  exact preparing.not_submission present (uncancelled.submission_of_reply replied cancelled)

theorem Preparing.converse {before : Dialogue} (preparing : surroundings.Preparing before)
    {program : Program α} {fits : α → List HubError → Prop}
    (yields : surroundings.Yields program fits) :
    surroundings.Preparing (surroundings.converse program before).2 := by
  obtain ⟨met, meets, -⟩ := yields before
  exact ⟨converse_keeps heard_answer program preparing.heard,
    meets.submissions.trans preparing.nothing⟩

/-- Work that accounts for its failures does not make up a cancellation. -/
theorem Preparing.outcome_ne_cancelled {before : Dialogue}
    (uncancelled : surroundings.Uncancelled) (preparing : surroundings.Preparing before)
    {work : Work α} {good : α → List HubError → Prop} (accounts : surroundings.Accounts work [] good) :
    (surroundings.converse work.attempt before).1 ≠ .error .cancelled := by
  intro cancelled
  obtain ⟨met, meets, accounted⟩ := accounts before
  have after := preparing.converse accounts
  refine after.cancelled_not_mem uncancelled ?_
  rw [Work.attempt] at cancelled
  rw [cancelled] at accounted
  rw [meets.failures]
  exact List.mem_append_right _
    (accounted.1.mem_of_not_skippable List.mem_cons_self Bool.false_ne_true)

end Surroundings

namespace Push

open Work (attempt)

variable {surroundings : Surroundings} {options : Options} {identity : RepoIdentity}
  {event : PushEvent} {reference path : String} {action : FileAction}

/-- The errors of a reconciliation. Missing and malformed files are none. -/
def reconcileErrors : Except HubError Reconcile.Outcome → List HubError
  | .ok outcome => outcome.failures
  | .error e => if e.kind = .absent ∨ e.kind = .malformed then [] else [e]

def configErrors (options : Options) (identity : RepoIdentity) (reference path : String)
    (action : FileAction) : Program (List HubError) :=
  if Reconcile.triggers identity path then do
    return reconcileErrors
      (← attempt (Reconcile.reconcile options.config identity reference path action))
  else pure []

def tagging (options : Options) (identity : RepoIdentity) (reference path : String)
    (action : FileAction) : Work Unit :=
  if path = readmeFile then applyReadme options identity reference action
  else updateLibrary identity path action

def fileErrors (options : Options) (identity : RepoIdentity) (reference : String) :
    FileAction × String → Program (List HubError)
  | (action, path) => do
    let _ ← Work.isCancelled
    let reconcileErrors ← configErrors options identity reference path action
    let tagErrors ← errorsOf (tagging options identity reference path action)
    return reconcileErrors ++ tagErrors

def errorsOfFiles (options : Options) (identity : RepoIdentity) (reference : String)
    (files : List (FileAction × String)) : Program (List (List HubError)) :=
  files.mapM (fileErrors options identity reference)

/-- A part of a push handles some files, all of them and nothing else. -/
def Handles (surroundings : Surroundings) (options : Options) (identity : RepoIdentity)
    (reference : String) (program : Program Progress) (files : List (FileAction × String)) : Prop :=
  ∀ before, surroundings.Preparing before →
    surroundings.converse program before =
      ({ errors :=
          (surroundings.converse (errorsOfFiles options identity reference files) before).1.flatten
         isStopped := false },
        (surroundings.converse (errorsOfFiles options identity reference files) before).2)

theorem handles_nil :
    Handles surroundings options identity reference (pure Progress.clean) [] :=
  fun _ _ => rfl

theorem handles_andThen {first second : Program Progress} {files others : List (FileAction × String)}
    (yields : surroundings.Yields first (Progress.Accounted surroundings))
    (handles : Handles surroundings options identity reference first files)
    (handlesOthers : Handles surroundings options identity reference second others) :
    Handles surroundings options identity reference (Progress.andThen first second)
      (files ++ others) := by
  intro before preparing
  have between := handles before preparing
  have onward := preparing.converse yields
  rw [between] at onward
  have rest := handlesOthers _ onward
  have split : errorsOfFiles options identity reference (files ++ others) = (do
      let errors ← errorsOfFiles options identity reference files
      let otherErrors ← errorsOfFiles options identity reference others
      return errors ++ otherErrors) := List.mapM_append
  rw [split, Progress.andThen]
  simp only [Surroundings.converse_bind, between, Bool.false_eq_true, ↓reduceIte, rest,
    Program.pure_eq, Surroundings.converse_done, Progress.after, List.flatten_append]

theorem handles_each {α : Type} {step : α → Program Progress} (values : List α)
    {files : α → List (FileAction × String)}
    (yields : ∀ value, surroundings.Yields (step value) (Progress.Accounted surroundings))
    (handles : ∀ value, Handles surroundings options identity reference (step value) (files value)) :
    Handles surroundings options identity reference (Progress.each step values)
      (values.flatMap files) := by
  induction values with
  | nil => exact handles_nil
  | cons value rest ih =>
    rw [List.flatMap_cons]
    exact handles_andThen (yields value) (handles value) ih

theorem reconciled_eq {outcome : Except HubError Reconcile.Outcome}
    (goesOn : outcome ≠ .error .cancelled) :
    reconciled outcome = { errors := reconcileErrors outcome, isStopped := false } := by
  cases outcome with
  | ok value => cases value <;> rfl
  | error e =>
    have differs : e ≠ .cancelled := fun same => goesOn (congrArg Except.error same)
    simp only [reconciled, reconcileErrors, HubError.isSkippable_iff]
    split
    · rfl
    · simp [Progress.ofOutcome, differs]

theorem converse_reconcileFile_of_ne {before : Dialogue}
    (goesOn : (surroundings.converse (attempt (Reconcile.reconcile options.config identity reference
      path action)) before).1 ≠ .error .cancelled) :
    surroundings.converse (reconcileFile options identity reference path action) before =
      ({ errors :=
          (surroundings.converse (configErrors options identity reference path action) before).1
         isStopped := false },
        (surroundings.converse (configErrors options identity reference path action) before).2) := by
  unfold reconcileFile configErrors
  split
  · simp only [Surroundings.converse_bind, Program.pure_eq, Surroundings.converse_done,
      reconciled_eq goesOn]
  · rfl

theorem converse_reconcileFile (uncancelled : surroundings.Uncancelled) {before : Dialogue}
    (preparing : surroundings.Preparing before) :
    surroundings.converse (reconcileFile options identity reference path action) before =
      ({ errors :=
          (surroundings.converse (configErrors options identity reference path action) before).1
         isStopped := false },
        (surroundings.converse (configErrors options identity reference path action) before).2) :=
  converse_reconcileFile_of_ne
    (preparing.outcome_ne_cancelled uncancelled Surroundings.accounts_reconcile)

theorem converse_record_of_ne {before : Dialogue} {work : Work Unit}
    (goesOn : (surroundings.converse work.attempt before).1 ≠ .error .cancelled) :
    surroundings.converse (Progress.record work) before =
      ({ errors := (surroundings.converse (errorsOf work) before).1, isStopped := false },
        (surroundings.converse (errorsOf work) before).2) := by
  unfold Progress.record errorsOf
  simp only [Surroundings.converse_bind, Program.pure_eq, Surroundings.converse_done]
  cases outcome : (surroundings.converse work.attempt before).1 with
  | ok value => rfl
  | error e =>
    have differs : e ≠ .cancelled := by
      rintro rfl
      exact goesOn outcome
    simp [Progress.ofOutcome, Reconcile.errorOf, differs]

theorem converse_record (uncancelled : surroundings.Uncancelled) {before : Dialogue}
    (preparing : surroundings.Preparing before) {work : Work Unit}
    (accounts : surroundings.Accounts work [] fun _ after => after = []) :
    surroundings.converse (Progress.record work) before =
      ({ errors := (surroundings.converse (errorsOf work) before).1, isStopped := false },
        (surroundings.converse (errorsOf work) before).2) :=
  converse_record_of_ne (preparing.outcome_ne_cancelled uncancelled accounts)

theorem accounts_tagging :
    surroundings.Accounts (tagging options identity reference path action) []
      fun _ after => after = [] := by
  unfold tagging
  split
  · exact Surroundings.accounts_applyReadme
  · exact Surroundings.accounts_updateLibraryOf

theorem handles_handleFile (uncancelled : surroundings.Uncancelled) :
    Handles surroundings options identity reference
      (handleFile options identity reference action path) [(action, path)] := by
  intro before preparing
  obtain ⟨between, looked⟩ : ∃ between,
      surroundings.converse Work.isCancelled before = (false, between) :=
    ⟨_, Prod.ext (uncancelled.token before) rfl⟩
  have looks : surroundings.Yields Work.isCancelled fun _ _ => True :=
    Surroundings.yields_isCancelled trivial trivial
  have listening := preparing.converse looks
  rw [looked] at listening
  have onward : surroundings.Preparing (surroundings.converse
      (reconcileFile options identity reference path action) between).2 :=
    listening.converse Surroundings.yields_reconcileFile
  rw [converse_reconcileFile uncancelled listening] at onward
  have recorded := converse_record uncancelled onward
    (@accounts_tagging surroundings options identity reference path action)
  have single : errorsOfFiles options identity reference [(action, path)] = (do
      let errors ← fileErrors options identity reference (action, path)
      return [errors]) := by
    simp [errorsOfFiles]
  rw [single]
  unfold tagging at recorded
  unfold handleFile Progress.andThen fileErrors tagging
  simp only [Surroundings.converse_bind, looked, converse_reconcileFile uncancelled listening,
    recorded, Bool.false_eq_true, ↓reduceIte, Program.pure_eq, Surroundings.converse_done,
    Progress.after, List.flatten_cons, List.flatten_nil, List.append_nil]

theorem handles_handleCommit (uncancelled : surroundings.Uncancelled) (commit : Commit) :
    Handles surroundings options identity reference
      (handleCommit options identity reference commit) commit.handled := by
  refine handles_each _ (fun action => Progress.yields_each _ fun _ => Surroundings.yields_handleFile)
    fun action => ?_
  rw [List.map_eq_flatMap]
  exact handles_each _ (fun _ => Surroundings.yields_handleFile)
    fun path => handles_handleFile uncancelled

theorem untilReadme_eq_take (files : List String) :
    untilReadme files = files.take (files.idxOf readmeFile + 1) := by
  induction files with
  | nil => rfl
  | cons path rest ih =>
    unfold untilReadme
    split
    · next isReadme => simp [isReadme]
    · next other => simp [List.idxOf_cons_ne rest other, ih]

/-- The files of a push in the order in which they are handled, with all their errors, whatever fails
on the way: in each commit the modified, the removed and the added ones, each list up to its first
README. -/
theorem updateInfos_in_order (uncancelled : surroundings.Uncancelled)
    (parsed : event.identity = .ok identity) (store : Store) :
    event.handled = (event.commits.flatMap fun commit =>
      [(.modified, commit.modified), (.removed, commit.removed), (.added, commit.added)].flatMap
        fun (action, files) => (files.take (files.idxOf readmeFile + 1)).map (action, ·)) ∧
    ∃ errors dialogue,
      surroundings.run (errorsOfFiles options identity event.reference event.handled) store =
        (errors, dialogue) ∧
      surroundings.run (updateInfos options event) store = (.ofErrors errors.flatten, dialogue) ∧
      (PushResult.ofErrors errors.flatten = .ok () ↔ errors.flatten = []) := by
  refine ⟨?_, _, _, rfl, ?_, ?_⟩
  · refine List.flatMap_congr fun commit _ => ?_
    simp only [Commit.handled, FileAction.order, Commit.files, untilReadme_eq_take,
      List.flatMap_cons, List.flatMap_nil]
  · have preparing : surroundings.Preparing (.start store) :=
      ⟨fun _ absent => absurd absent List.not_mem_nil, rfl⟩
    have handled : Handles surroundings options identity event.reference
        (Progress.each (handleCommit options identity event.reference) event.commits) event.handled :=
      handles_each _ (fun _ => Surroundings.yields_handleCommit) fun commit =>
        handles_handleCommit uncancelled commit
    unfold updateInfos Surroundings.run
    rw [parsed]
    simp only [Surroundings.converse_bind, handled _ preparing, Program.pure_eq,
      Surroundings.converse_done]
    rfl
  · cases errors : List.flatten _ <;> simp [PushResult.ofErrors]

/-- Neither the configuration nor the README can be fetched, and then the configuration is removed. -/
def mixedPush : PushEvent :=
  { bertPush with
    commits := [{ modified := [modelConfigFile, readmeFile, "model.onnx"]
                  removed := [modelConfigFile] }] }

def unreachableFiles (_ : FileRequest) : Except HubError String :=
  .error (.unavailable "git server" "no route to host")

theorem mixedPush_in_order :
    (Surroundings.calm unreachableFiles).Uncancelled ∧ mixedPush.identity = .ok Reconcile.bertIdentity ∧
      ∃ errors dialogue,
        (Surroundings.calm unreachableFiles).run (errorsOfFiles .plain Reconcile.bertIdentity
          "refs/heads/main" [(.modified, modelConfigFile), (.modified, readmeFile),
            (.removed, modelConfigFile)]) Store.bert = (errors, dialogue) ∧
        (Surroundings.calm unreachableFiles).run (updateInfos .plain mixedPush) Store.bert =
          (.ofErrors errors.flatten, dialogue) := by
  have uncancelled : (Surroundings.calm unreachableFiles).Uncancelled :=
    { token := fun _ => rfl
      queue := fun _ _ => rfl
      store := fun _ _ => by simp [Surroundings.calm]
      server := fun _ _ _ => by simp [Surroundings.calm, unreachableFiles] }
  have parsed : mixedPush.identity = .ok Reconcile.bertIdentity := by decide +kernel
  obtain ⟨-, errors, dialogue, one, all, -⟩ :=
    @updateInfos_in_order _ .plain _ _ uncancelled parsed Store.bert
  exact ⟨uncancelled, parsed, errors, dialogue, one, all⟩

end Push

end ModelHub
