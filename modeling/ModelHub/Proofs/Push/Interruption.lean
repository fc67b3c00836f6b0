import ModelHub.Proofs.Engine.Heeding
import ModelHub.Proofs.Push.Calls
import ModelHub.Proofs.Push.Handlers
import ModelHub.Proofs.Push.Walk

namespace ModelHub

open Program (closes_done)
open Work (Abides Heeds heeds_askStore heeds_bind heeds_checkpoint heeds_fetch heeds_of_store
  heeds_pure)

theorem Call.IsErrand.isOfStore {call : Call} {store : Store} (errand : call.IsErrand store) :
    call.IsOfStore store := by
  cases call with
  | store request => trivial
  | _ => exact errand.elim

theorem asksStore_of_errand {α : Type} {work : Work α} (errand : Abides Call.IsErrand work) :
    Abides Call.IsOfStore work :=
  errand.mono fun _ _ isErrand => isErrand.isOfStore

theorem heeds_of_errand {α : Type} {work : Work α} (errand : Abides Call.IsErrand work) : Heeds work :=
  heeds_of_store (asksStore_of_errand errand)

namespace Reconcile

variable {repositoryId : Int} {α : Type}

theorem asksStore_of_tends {work : Work α} (tends : Abides (Call.Tends repositoryId) work) :
    Abides Call.IsOfStore work :=
  asksStore_of_errand (Tagging.errand_of_tends tends)

theorem heeds_of_tends {work : Work α} (tends : Abides (Call.Tends repositoryId) work) : Heeds work :=
  heeds_of_store (asksStore_of_tends tends)

theorem heeds_settle (repository : Repository) (architecture : String) :
    Heeds (settle repository architecture) := by
  have linking : ∀ resource, Abides Call.IsOfStore (linkResource repository.id resource) :=
    fun resource => asksStore_of_tends (abides_linkResource resource)
  have removing : ∀ desired row, Abides Call.IsOfStore (removeAssociation repository.id desired row) :=
    fun desired row => asksStore_of_tends (abides_removeAssociation desired row)
  have adding : ∀ desired candidate,
      Abides Call.IsOfStore (addAssociation repository.id desired candidate) :=
    fun desired candidate => asksStore_of_tends (abides_addAssociation desired candidate)
  refine heeds_bind (heeds_askStore _) fun resources => ?_
  refine heeds_bind (Work.heeds_attemptEach linking resources) fun linked => ?_
  refine heeds_bind (heeds_of_tends (@abides_desiredFor repository.id _ _)) fun desired => ?_
  refine heeds_bind (heeds_askStore _) fun stored => ?_
  refine heeds_bind (Work.heeds_attemptEach (removing desired) _) fun removed => ?_
  refine heeds_bind (Work.heeds_attemptEach (adding desired) _) fun added => ?_
  refine heeds_bind heeds_checkpoint fun _ => ?_
  have pruning : (Work.attempt (pruneTags repository.id desired)).Heeds fun _ => False :=
    Program.heeds_of_store (asksStore_of_tends (abides_pruneTags desired))
  exact Work.heeds_perform_bind pruning (fun _ => heeds_pure _) nofun

theorem heeds_revise (config : SyncConfig) (repository : Repository) (reference : String)
    (action : FileAction) : Heeds (revise config repository reference action) := by
  have recomputes : Heeds (recompute config repository reference) := by
    refine heeds_bind (heeds_fetch _ _) fun content => ?_
    refine heeds_bind (heeds_of_errand (Tagging.errand_mk _)) fun architecture => ?_
    exact heeds_bind (heeds_settle repository architecture) fun report => heeds_pure _
  cases action with
  | added => exact recomputes
  | modified => exact recomputes
  | removed =>
    refine heeds_bind heeds_checkpoint fun _ => heeds_bind (heeds_askStore _) fun _ => ?_
    refine heeds_bind (heeds_askStore _) fun tags => ?_
    exact heeds_bind (heeds_of_tends (abides_unlinkAll tags)) fun _ => heeds_pure _

theorem heeds_reconcile (config : SyncConfig) (identity : RepoIdentity) (reference path : String)
    (action : FileAction) : Heeds (reconcile config identity reference path action) := by
  unfold reconcile
  split
  · exact heeds_pure _
  · have found := Tagging.errand_findRepository .model identity.owner identity.name
    refine heeds_bind (heeds_of_errand found) fun repository => ?_
    dsimp only
    split
    · exact heeds_pure _
    · exact Work.heeds_holding (heeds_revise config repository reference action)

end Reconcile

namespace Push

open Progress (andThen each)

variable {options : Options} {identity : RepoIdentity} {reference path : String} {action : FileAction}

def Progress.halted : Progress := { errors := [.cancelled], isStopped := true }

theorem heeds_applyReadme : Heeds (applyReadme options identity reference action) := by
  unfold applyReadme
  split
  · exact heeds_pure ()
  · next scope _ =>
    split
    · have cleared := Tagging.errand_clearDeclared scope identity.owner identity.name
      exact heeds_bind (heeds_of_errand cleared) fun _ => heeds_pure ()
    · refine heeds_bind (heeds_fetch _ _) fun content => ?_
      have applied := Tagging.errand_applyDeclared scope identity.owner identity.name content
      exact heeds_bind (heeds_of_errand applied) fun _ => heeds_pure ()

theorem heeds_reconcileFile :
    (reconcileFile options identity reference path action).Heeds (· = .halted) := by
  unfold reconcileFile
  split
  · refine Program.heeds_bind (Reconcile.heeds_reconcile _ _ _ _ _) ?_ ?_
    · exact fun _ => Program.heeds_done _
    · rintro _ rfl
      exact closes_done rfl
  · exact Program.heeds_done _

theorem heeds_record {work : Work Unit} (heeds : Heeds work) :
    (Progress.record work).Heeds (· = .halted) := by
  refine Program.heeds_bind heeds (fun _ => Program.heeds_done _) ?_
  rintro _ rfl
  exact closes_done rfl

theorem reconcileFile_readme :
    reconcileFile options identity reference readmeFile action = pure .clean := by
  have other : readmeFile ≠ modelConfigFile := by decide
  unfold reconcileFile Reconcile.triggers
  simp [other]

theorem heeds_andThen {first second : Program Progress} {ends last : Progress → Prop}
    (heeds : first.Heeds ends) (heedsThen : second.Heeds last)
    (stops : ∀ progress, ends progress → progress.isStopped = true)
    (after : ∀ earlier later, last later → ends (Progress.after earlier later)) :
    (andThen first second).Heeds ends := by
  refine Program.heeds_bind heeds (fun earlier => ?_) fun earlier ended => ?_
  · split
    · exact Program.heeds_done _
    · exact Program.heeds_bind heedsThen (fun _ => Program.heeds_done _) fun later ended =>
        closes_done (after earlier later ended)
  · rw [if_pos (stops earlier ended)]
    exact closes_done ended

/-- Behind a reconciliation there are only library tags left to set, which is a matter of the store. So
a file that is stopped has no other error than the cancellation. -/
theorem heeds_handleEntry (entry : FileAction × String) :
    (handleEntry options identity reference entry).Heeds (· = .halted) := by
  obtain ⟨action, path⟩ := entry
  refine Program.heeds_bind Program.heeds_isCancelled (fun isCancelled => ?_) ?_
  · split
    · exact Program.heeds_done _
    · by_cases isReadme : path = readmeFile
      · subst isReadme
        rw [reconcileFile_readme, Progress.clean_andThen, if_pos rfl]
        exact heeds_record heeds_applyReadme
      · rw [if_neg isReadme]
        have quiet : (Progress.record (updateLibrary identity path action)).Heeds fun _ => False :=
          Program.heeds_bind (Program.heeds_of_store (asksStore_of_errand
            (Tagging.errand_updateLibrary identity path action))) (fun _ => Program.heeds_done _)
            fun _ => False.elim
        exact heeds_andThen heeds_reconcileFile quiet (fun _ ended => ended ▸ rfl) nofun
  · rintro _ rfl
    exact closes_done rfl

theorem heeds_each (files : List (FileAction × String)) :
    (each (handleEntry options identity reference) files).Heeds (·.isStopped = true) := by
  induction files with
  | nil => exact Program.heeds_done _
  | cons entry rest ih =>
    refine heeds_andThen ((heeds_handleEntry entry).mono ?_) ih (fun _ => id) fun _ _ => id
    rintro _ rfl
    rfl

variable {surroundings : Surroundings} {event : PushEvent} {store : Store} {before dialogue : Dialogue}
  {result : PushResult}

theorem cancelled_not_mem_of_quiet
    (faultless : ∀ dialogue request, surroundings.storeFault dialogue request ≠ some .cancelled)
    {progress : Progress} {files : List (FileAction × String)}
    (handled : surroundings.run (each (handleEntry options identity reference) files) store =
      (progress, dialogue))
    (quiet : ∀ exchange ∈ dialogue.exchanges, exchange.notices = false) :
    .cancelled ∉ progress.errors := by
  intro reported
  have yields : surroundings.Yields (each (handleEntry options identity reference) files)
      (Progress.Accounted surroundings) :=
    Progress.yields_each files fun _ => Surroundings.yields_handleFile
  have ended := (surroundings.preparing_start store).converse yields
  obtain ⟨met, meets, accounted⟩ := yields (.start store)
  rw [← Surroundings.run, handled] at ended meets accounted
  have isMet := accounted.covers.mem_of_not_skippable reported Bool.false_ne_true
  obtain ⟨exchange, member, isCancelled⟩ := Dialogue.mem_failures.mp
    (meets.failures ▸ List.mem_append_right _ isMet)
  obtain ⟨earlier, replied⟩ := ended.heard exchange member
  obtain ⟨request, -, planned⟩ | ⟨request, limit, rfl, -⟩ | ⟨repositoryId, rfl, -⟩ | ⟨rfl, -⟩ |
    submitted := Surroundings.speaker_of_cancelled replied isCancelled
  · exact faultless earlier request planned
  · exact Bool.false_ne_true (quiet _ member).symm
  · exact Bool.false_ne_true (quiet _ member).symm
  · exact Bool.false_ne_true (quiet _ member).symm
  · exact ended.not_submission member submitted

theorem handled_ne_nil {commit : Commit} (member : commit ∈ event.commits)
    (touched : commit.files action ≠ []) : event.handled ≠ [] := by
  obtain ⟨path, rest, isList⟩ := List.exists_cons_of_ne_nil touched
  have isFirst : path ∈ untilReadme (commit.files action) := by
    rw [isList, untilReadme]
    split <;> exact List.mem_cons_self
  exact List.ne_nil_of_mem (mem_handled member isFirst)

theorem converse_handleEntry_cancelled {entry : FileAction × String}
    (fired : surroundings.isCancelled before = true) :
    surroundings.converse (handleEntry options identity reference entry) before =
      (.halted,
        { store := before.store, exchanges := ⟨.isCancelled, .ok true⟩ :: before.exchanges }) := by
  unfold handleEntry handleFile Work.isCancelled
  rw [Program.ask_bind, Surroundings.converse_ask]
  simp only [Surroundings.answer, Surroundings.reply, fired]
  rfl

/-- Where the walk over files notices a cancellation, it stops. -/
theorem stopped_of_notice
    (faultless : ∀ dialogue request, surroundings.storeFault dialogue request ≠ some .cancelled)
    {files : List (FileAction × String)} {progress : Progress} {before after : List Exchange}
    {wait : Exchange}
    (walked : surroundings.run (each (handleEntry options identity reference) files) store =
      (progress, dialogue))
    (isSplit : dialogue.exchanges.reverse = before ++ wait :: after)
    (noticed : wait.notices = true) :
    (∀ exchange ∈ after, exchange.call.IsRelease) ∧
    ∃ done entry rest errors middle, files = done ++ entry :: rest ∧
      surroundings.run (errorsOfFiles options identity reference done) store = (errors, middle) ∧
      surroundings.converse (handleEntry options identity reference entry) middle =
        (.halted, dialogue) ∧
      middle.exchanges.reverse <+: before ∧ .cancelled ∉ errors.flatten ∧
      progress.errors = errors.flatten ++ [.cancelled] := by
  obtain ⟨released, stopped⟩ :=
    Surroundings.heed_of_run (heeds_each files) walked before wait after isSplit noticed
  have walk : Walk surroundings options identity reference (.start store) files _ _ :=
    walk_each files (.start store)
  rw [← Surroundings.run, walked] at walk
  refine ⟨released, ?_⟩
  cases walk with
  | through handled => cases stopped
  | @stopped done rest entry errors middle _ last isFile goesOn handled stops isStopped =>
    obtain ⟨later, noted, heed⟩ := surroundings.heed_of_converse
      (@heeds_handleEntry options identity reference entry) middle
    rw [stops] at noted heed
    have quiet : ∀ exchange ∈ middle.exchanges.reverse, exchange.notices = false :=
      (Surroundings.heed_of_run (heeds_each done) goesOn).quiet Bool.false_ne_true
    have isBoth : middle.exchanges.reverse ++ later = before ++ wait :: after := by
      rw [← isSplit, noted, List.reverse_append, List.reverse_reverse]
    obtain ⟨isBefore, rfl⟩ := heed.behind quiet isBoth noticed
    refine ⟨done, entry, rest, errors, middle, isFile, handled, stops, isBefore, ?_, rfl⟩
    exact cancelled_not_mem_of_quiet faultless goesOn fun exchange member =>
      quiet exchange (List.mem_reverse.mpr member)

/-- A push that is cancelled from the start does nothing, and one that notices a cancellation on the way
only gives its lock back then, whatever it was waiting for. The files before are handled, with all
their errors, and the cancellation is the only error of the file at hand, and the last one. -/
theorem cancellation_stops_push
    (faultless : ∀ dialogue request, surroundings.storeFault dialogue request ≠ some .cancelled)
    (parsed : event.identity = .ok identity)
    (ran : surroundings.run (updateInfos options event) store = (result, dialogue)) :
    (surroundings.isCancelled (.start store) = true →
      (∃ commit ∈ event.commits, ∃ action, commit.files action ≠ []) →
        result = .error (.single .cancelled) ∧ dialogue.store = store ∧
          dialogue.exchanges = [⟨.isCancelled, .ok true⟩]) ∧
    ∀ before wait after, dialogue.exchanges.reverse = before ++ wait :: after →
      wait.notices = true →
        (∀ exchange ∈ after, exchange.call.IsRelease) ∧
        ∃ done entry rest errors middle, event.handled = done ++ entry :: rest ∧
          surroundings.run (errorsOfFiles options identity event.reference done) store =
            (errors, middle) ∧
          surroundings.converse (handleEntry options identity event.reference entry) middle =
            (.halted, dialogue) ∧
          middle.exchanges.reverse <+: before ∧ .cancelled ∉ errors.flatten ∧
          result = .ofErrors (errors.flatten ++ [.cancelled]) := by
  cases walked : surroundings.run (each (handleEntry options identity event.reference) event.handled)
    store with
  | mk progress last =>
    obtain ⟨rfl, rfl⟩ := Prod.mk.inj (ran.symm.trans (converse_updateInfos parsed walked))
    refine ⟨?_, ?_⟩
    · rintro fired ⟨commit, member, action, touched⟩
      obtain ⟨entry, rest, isList⟩ := List.exists_cons_of_ne_nil (handled_ne_nil member touched)
      have stops := @converse_handleEntry_cancelled options identity event.reference surroundings
        (.start store) entry fired
      rw [isList, each, Surroundings.run, converse_andThen, stops] at walked
      obtain ⟨rfl, rfl⟩ := Prod.mk.inj walked
      exact ⟨rfl, rfl, rfl⟩
    · intro before wait after isSplit noticed
      obtain ⟨released, done, entry, rest, errors, middle, isFile, handled, stops, isBefore, once,
        isLast⟩ := stopped_of_notice faultless walked isSplit noticed
      exact ⟨released, done, entry, rest, errors, middle, isFile, handled, stops, isBefore, once,
        isLast ▸ rfl⟩

/-- The push is cancelled while the configuration is fetched. -/
def interrupted : Surroundings := .calm fun _ => .error .cancelled

def cancelledAhead : Surroundings := { interrupted with isCancelled := fun _ => true }

def haltedPush : PushEvent :=
  { bertPush with
    commits := [{ added := ["a.onnx"] }, { modified := [modelConfigFile], added := ["b.gguf"] }] }

theorem interrupted_push_stops :
    (cancelledAhead.run (updateInfos .plain haltedPush) Store.bert).1 =
        .error (.single .cancelled) ∧
      (cancelledAhead.run (updateInfos .plain haltedPush) Store.bert).2.store = Store.bert ∧
    ∃ done entry rest errors, haltedPush.handled = done ++ entry :: rest ∧
      (interrupted.run (errorsOfFiles .plain Reconcile.bertIdentity "refs/heads/main" done)
        Store.bert).1 = errors ∧
      (interrupted.run (updateInfos .plain haltedPush) Store.bert).1 =
        .ofErrors (errors.flatten ++ [.cancelled]) := by
  have parsed : haltedPush.identity = .ok Reconcile.bertIdentity := by decide +kernel
  have ahead := @cancellation_stops_push .plain _ cancelledAhead _ _ _ _ (fun _ _ => nofun) parsed
    (Prod.eta (cancelledAhead.run (updateInfos .plain haltedPush) Store.bert)).symm
  have within := @cancellation_stops_push .plain _ interrupted _ _ _ _ (fun _ _ => nofun) parsed
    (Prod.eta (interrupted.run (updateInfos .plain haltedPush) Store.bert)).symm
  obtain ⟨failed, unchanged, -⟩ := ahead.1 rfl ⟨_, List.mem_cons_self, .added, List.cons_ne_nil _ _⟩
  have waited : ∃ exchange ∈ (interrupted.run (updateInfos .plain haltedPush)
      Store.bert).2.exchanges.reverse, exchange.notices = true := by
    decide +kernel
  obtain ⟨wait, member, noticed⟩ := waited
  obtain ⟨before, after, isSplit⟩ := List.append_of_mem member
  obtain ⟨-, done, entry, rest, errors, middle, isFile, handled, -, -, -, result⟩ :=
    within.2 before wait after isSplit noticed
  exact ⟨failed, unchanged, done, entry, rest, errors, isFile, congrArg Prod.fst handled, result⟩

end Push

end ModelHub
