import ModelHub.Proofs.Push.Dispatch

/-! A push as one walk over the files that it handles, across lists and commits: it goes through all
of them, or stops at one of them and touches none behind it. -/

namespace ModelHub.Push

open Progress (andThen clean each)

namespace Progress

variable {α β : Type}

theorem clean_andThen (second : Program Progress) : andThen (pure clean) second = second :=
  bind_pure second

theorem andThen_assoc (first second third : Program Progress) :
    andThen (andThen first second) third = andThen first (andThen second third) := by
  unfold andThen
  rw [bind_assoc]
  refine bind_congr fun earlier => ?_
  cases stopped : earlier.isStopped with
  | true =>
    rw [if_pos rfl, if_pos rfl, pure_bind, stopped]
    rfl
  | false =>
    simp only [Bool.false_eq_true, if_false, bind_assoc, pure_bind]
    refine bind_congr fun middle => ?_
    cases stoppedThen : middle.isStopped with
    | true => simp [after, stoppedThen]
    | false => simp [after, stoppedThen, List.append_assoc]

theorem each_append (step : α → Program Progress) (first rest : List α) :
    each step (first ++ rest) = andThen (each step first) (each step rest) := by
  induction first with
  | nil => exact (clean_andThen _).symm
  | cons value first ih => rw [List.cons_append, each, ih, each, andThen_assoc]

theorem each_map (step : β → Program Progress) (view : α → β) (values : List α) :
    each step (values.map view) = each (fun value => step (view value)) values := by
  induction values with
  | nil => rfl
  | cons value rest ih => rw [List.map_cons, each, each, ih]

theorem each_flatMap (step : β → Program Progress) (parts : α → List β) (values : List α) :
    each step (values.flatMap parts) = each (fun value => each step (parts value)) values := by
  induction values with
  | nil => rfl
  | cons value rest ih => rw [List.flatMap_cons, each_append, each, ih]

end Progress

variable {surroundings : Surroundings} {options : Options} {identity : RepoIdentity}
  {event : PushEvent} {reference : String} {before : Dialogue}

def handleEntry (options : Options) (identity : RepoIdentity) (reference : String)
    (entry : FileAction × String) : Program Progress :=
  handleFile options identity reference entry.1 entry.2

/-- Lists and commits make no difference but for the order of the files. -/
theorem updateInfos_eq (parsed : event.identity = .ok identity) :
    updateInfos options event = (do
      let progress ← each (handleEntry options identity event.reference) event.handled
      return .ofErrors progress.errors) := by
  have commits : each (handleEntry options identity event.reference) event.handled =
      each (handleCommit options identity event.reference) event.commits := by
    simp only [PushEvent.handled, Commit.handled, Progress.each_flatMap, Progress.each_map]
    rfl
  unfold updateInfos
  rw [parsed, commits]

theorem converse_updateInfos (parsed : event.identity = .ok identity) {progress : Progress}
    {last : Dialogue}
    (walked : surroundings.converse (each (handleEntry options identity event.reference)
      event.handled) before = (progress, last)) :
    surroundings.converse (updateInfos options event) before =
      (.ofErrors progress.errors, last) := by
  rw [updateInfos_eq parsed, Surroundings.converse_bind, walked]
  rfl

theorem converse_andThen (first second : Program Progress) :
    surroundings.converse (andThen first second) before =
      if (surroundings.converse first before).1.isStopped then surroundings.converse first before
      else
        ((surroundings.converse first before).1.after
          (surroundings.converse second (surroundings.converse first before).2).1,
        (surroundings.converse second (surroundings.converse first before).2).2) := by
  unfold andThen
  rw [Surroundings.converse_bind]
  split
  · rfl
  · rw [Surroundings.converse_bind]
    rfl

theorem converse_reconcileFile_of_going {path : String} {action : FileAction}
    (goesOn : (surroundings.converse (reconcileFile options identity reference path action)
      before).1.isStopped = false) :
    surroundings.converse (reconcileFile options identity reference path action) before =
      ({ errors :=
          (surroundings.converse (configErrors options identity reference path action) before).1
         isStopped := false },
        (surroundings.converse (configErrors options identity reference path action) before).2) := by
  by_cases cancelled : (surroundings.converse (Work.attempt (Reconcile.reconcile options.config identity
      reference path action)) before).1 = .error .cancelled
  · unfold reconcileFile configErrors at *
    split at goesOn
    · rw [Surroundings.converse_bind, cancelled] at goesOn
      cases goesOn
    · next untouched =>
      rw [if_neg untouched, if_neg untouched]
      rfl
  · exact converse_reconcileFile_of_ne cancelled

theorem converse_record_of_going {work : Work Unit}
    (goesOn : (surroundings.converse (Progress.record work) before).1.isStopped = false) :
    surroundings.converse (Progress.record work) before =
      ({ errors := (surroundings.converse (errorsOf work) before).1, isStopped := false },
        (surroundings.converse (errorsOf work) before).2) := by
  refine converse_record_of_ne fun cancelled => ?_
  unfold Progress.record at goesOn
  rw [Surroundings.converse_bind, cancelled] at goesOn
  cases goesOn

theorem converse_handleEntry {entry : FileAction × String}
    (goesOn : (surroundings.converse (handleEntry options identity reference entry)
      before).1.isStopped = false) :
    surroundings.converse (handleEntry options identity reference entry) before =
      ({ errors := (surroundings.converse (fileErrors options identity reference entry) before).1
         isStopped := false },
        (surroundings.converse (fileErrors options identity reference entry) before).2) := by
  obtain ⟨action, path⟩ := entry
  unfold handleEntry handleFile at goesOn ⊢
  unfold fileErrors tagging
  simp only [Surroundings.converse_bind, Program.pure_eq, Surroundings.converse_done] at goesOn ⊢
  cases looked : (surroundings.converse Work.isCancelled before).1 with
  | true =>
    rw [looked] at goesOn
    cases goesOn
  | false =>
    rw [looked] at goesOn
    simp only [Bool.false_eq_true, if_false, converse_andThen] at goesOn ⊢
    split at goesOn
    · next stopped => cases stopped.symm.trans goesOn
    · next going =>
      rw [if_neg going, converse_record_of_going goesOn]
      rw [converse_reconcileFile_of_going (Bool.eq_false_iff.mpr going)]
      rfl

/-- How a walk over files ends: behind the last one, or within one that stops it. Those before are
handled to their end, and those behind are not touched. -/
inductive Walk (surroundings : Surroundings) (options : Options) (identity : RepoIdentity)
    (reference : String) (before : Dialogue) (files : List (FileAction × String)) :
    Progress → Dialogue → Prop
  | through {errors : List (List HubError)} {last : Dialogue}
      (handled : surroundings.converse (errorsOfFiles options identity reference files) before =
        (errors, last)) :
      Walk surroundings options identity reference before files
        { errors := errors.flatten, isStopped := false } last
  | stopped {done rest : List (FileAction × String)} {entry : FileAction × String}
      {errors : List (List HubError)} {middle last : Dialogue} {progress : Progress}
      (isSplit : files = done ++ entry :: rest)
      (goesOn : surroundings.converse (each (handleEntry options identity reference) done) before =
        ({ errors := errors.flatten, isStopped := false }, middle))
      (handled : surroundings.converse (errorsOfFiles options identity reference done) before =
        (errors, middle))
      (stops : surroundings.converse (handleEntry options identity reference entry) middle =
        (progress, last))
      (isStopped : progress.isStopped = true) :
      Walk surroundings options identity reference before files
        { errors := errors.flatten ++ progress.errors, isStopped := true } last

namespace Walk

variable {files : List (FileAction × String)} {entry : FileAction × String} {progress : Progress}
  {last : Dialogue}

theorem here (rest : List (FileAction × String))
    (stops : surroundings.converse (handleEntry options identity reference entry) before =
      (progress, last))
    (isStopped : progress.isStopped = true) :
    Walk surroundings options identity reference before (entry :: rest) progress last := by
  obtain ⟨errors, stopped⟩ := progress
  obtain rfl : stopped = true := isStopped
  have isSplit : entry :: rest = [] ++ entry :: rest := rfl
  have nothing : surroundings.converse (errorsOfFiles options identity reference []) before =
    ([], before) := rfl
  exact Walk.stopped isSplit rfl nothing stops rfl

theorem cons
    (goesOn : (surroundings.converse (handleEntry options identity reference entry)
      before).1.isStopped = false)
    (walk : Walk surroundings options identity reference
      (surroundings.converse (fileErrors options identity reference entry) before).2 files
      progress last) :
    Walk surroundings options identity reference before (entry :: files)
      (Progress.after
        { errors := (surroundings.converse (fileErrors options identity reference entry) before).1
          isStopped := false } progress) last := by
  have behind : ∀ {others : List (FileAction × String)} {errors : List (List HubError)}
      {middle : Dialogue},
      surroundings.converse (errorsOfFiles options identity reference others)
        (surroundings.converse (fileErrors options identity reference entry) before).2 =
          (errors, middle) →
      surroundings.converse (errorsOfFiles options identity reference (entry :: others)) before =
        ((surroundings.converse (fileErrors options identity reference entry) before).1 :: errors,
          middle) := by
    intro others errors middle handled
    unfold errorsOfFiles at handled ⊢
    rw [List.mapM_cons, Surroundings.converse_bind, Surroundings.converse_bind, handled]
    rfl
  cases walk with
  | through handled => exact .through (behind handled)
  | @stopped done rest stopping errors middle _ progress isSplit goesOnThen handled stops isStopped =>
    rw [Progress.after, ← List.append_assoc, ← List.flatten_cons]
    have isSplitThen : entry :: files = entry :: done ++ stopping :: rest :=
      congrArg (entry :: ·) isSplit
    refine .stopped isSplitThen ?_ (behind handled) stops isStopped
    rw [each, converse_andThen, converse_handleEntry goesOn, if_neg Bool.false_ne_true, goesOnThen]
    rfl

end Walk

theorem walk_each (files : List (FileAction × String)) (before : Dialogue) :
    Walk surroundings options identity reference before files
      (surroundings.converse (each (handleEntry options identity reference) files) before).1
      (surroundings.converse (each (handleEntry options identity reference) files) before).2 := by
  induction files generalizing before with
  | nil => exact .through rfl
  | cons entry rest ih =>
    unfold each
    rw [converse_andThen]
    cases stops : (surroundings.converse (handleEntry options identity reference entry)
        before).1.isStopped with
    | true =>
      rw [if_pos rfl]
      exact .here rest rfl stops
    | false =>
      rw [if_neg Bool.false_ne_true, converse_handleEntry stops]
      exact .cons stops (ih _)

end ModelHub.Push
