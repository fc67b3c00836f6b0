import ModelHub.Proofs.Engine.Keeps
import ModelHub.Proofs.Push.Agenda

namespace ModelHub.Push

open Program (keeps_bind keeps_done keeps_isCancelled)
open Work (keeps_attempt keeps_pure)

variable {kept : Store → Prop} {options : Options} {identity : RepoIdentity} {event : PushEvent}

theorem keeps_andThen {first second : Program Progress}
    (keepsFirst : Program.Keeps kept first fun _ => True)
    (keepsSecond : Program.Keeps kept second fun _ => True) :
    Program.Keeps kept (Progress.andThen first second) fun _ => True := by
  refine keeps_bind keepsFirst fun earlier _ => ?_
  split
  · exact keeps_done trivial
  · exact keeps_bind keepsSecond fun later _ => keeps_done trivial

theorem keeps_each {α : Type} {step : α → Program Progress} {values : List α}
    (keeps : ∀ value ∈ values, Program.Keeps kept (step value) fun _ => True) :
    Program.Keeps kept (Progress.each step values) fun _ => True := by
  induction values with
  | nil => exact keeps_done trivial
  | cons value rest ih =>
    obtain ⟨keepsFirst, keepsRest⟩ := List.forall_mem_cons.mp keeps
    exact keeps_andThen keepsFirst (ih keepsRest)

theorem keeps_errorsOf {work : Work Unit} (keeps : Work.Keeps kept work fun _ => True) :
    Program.Keeps kept (errorsOf work) fun _ => True :=
  keeps_bind (keeps_attempt keeps) fun _ _ => keeps_done trivial

theorem mem_handled {commit : Commit} {action : FileAction} {path : String}
    (touched : commit ∈ event.commits) (member : path ∈ untilReadme (commit.files action)) :
    (action, path) ∈ event.handled := by
  refine List.mem_flatMap.mpr ⟨commit, touched, List.mem_flatMap.mpr ⟨action, ?_, ?_⟩⟩
  · cases action <;> decide
  · exact List.mem_map_of_mem member

/-- The handlers of an event keep a condition, each for the files that it is set off by. -/
structure Handlers (kept : Store → Prop) (options : Options) (event : PushEvent)
    (identity : RepoIdentity) : Prop where
  config : ∀ action, identity.repoType = some .model →
    (action, modelConfigFile) ∈ event.handled →
    Work.Keeps kept (Reconcile.reconcile options.config identity event.reference modelConfigFile
      action) fun _ => True
  readme : ∀ action, (action, readmeFile) ∈ event.handled →
    Work.Keeps kept (applyReadme options identity event.reference action) fun _ => True
  library : ∀ action path, (action, path) ∈ event.handled →
    Work.Keeps kept (updateLibrary identity path action) fun _ => True

theorem keeps_handleFile (handlers : Handlers kept options event identity) {action : FileAction}
    {path : String} (handled : (action, path) ∈ event.handled) :
    Program.Keeps kept (handleFile options identity event.reference action path) fun _ => True := by
  have config : Program.Keeps kept
      (reconcileFile options identity event.reference path action) fun _ => True := by
    unfold reconcileFile
    split
    · next triggers =>
      simp only [Reconcile.triggers, Bool.and_eq_true, decide_eq_true_eq] at triggers
      obtain ⟨isModel, rfl⟩ := triggers
      exact keeps_bind (keeps_attempt (handlers.config action isModel handled)) fun _ _ =>
        keeps_done trivial
    · exact keeps_done trivial
  have tagging : Work.Keeps kept (if path = readmeFile then
        applyReadme options identity event.reference action
      else updateLibrary identity path action) fun _ => True := by
    split
    · next isReadme => exact handlers.readme action (isReadme ▸ handled)
    · exact handlers.library action path handled
  refine keeps_bind keeps_isCancelled fun isCancelled _ => ?_
  split
  · exact keeps_done trivial
  · refine keeps_andThen config ?_
    exact keeps_bind (keeps_attempt tagging) fun _ _ => keeps_done trivial

theorem keeps_updateInfos
    (handlers : ∀ identity, event.identity = .ok identity → Handlers kept options event identity) :
    Program.Keeps kept (updateInfos options event) fun _ => True := by
  unfold updateInfos
  split
  · exact keeps_done trivial
  · next identity parsed =>
    refine keeps_bind (keeps_each fun commit touched => ?_) fun progress _ => keeps_done trivial
    refine keeps_each fun action _ => keeps_each fun path member => ?_
    exact keeps_handleFile (handlers identity parsed) (mem_handled touched member)

theorem keeps_submitForReview :
    Work.Keeps kept (submitForReview options event) fun _ => True := by
  unfold submitForReview
  split
  · refine Work.keeps_mk_bind fun identity _ => ?_
    split
    · exact Work.keeps_ask fun _ _ _ => id
    · exact keeps_pure trivial
  · exact keeps_pure trivial

theorem keeps_handle (time : Work.Keeps kept (setUpdateTime event) fun _ => True)
    (handlers : ∀ identity, event.identity = .ok identity → Handlers kept options event identity) :
    Program.Keeps kept (handle options event) fun _ => True := by
  unfold handle
  split
  · exact keeps_done trivial
  · refine keeps_bind (keeps_errorsOf time) fun _ _ => ?_
    refine keeps_bind (keeps_updateInfos handlers) fun infos _ => ?_
    refine keeps_bind keeps_isCancelled fun isCancelled _ => ?_
    cases isCancelled
    · exact keeps_bind (keeps_errorsOf keeps_submitForReview) fun _ _ => keeps_done trivial
    · exact keeps_done trivial

end ModelHub.Push
