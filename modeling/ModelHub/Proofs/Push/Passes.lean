import ModelHub.Proofs.Push.Calls
import ModelHub.Proofs.Push.Outage
import ModelHub.Proofs.Reconcile.Breach

/-! Which failures of its reconciliations a push reports. Each reconciliation holds the lock of its
repository, so it is known by what is asked in between.

All failures of a reconciliation are reported in order, unless it is broken off. Of one that is broken
off only the last failure is reported; those noted before are lost. -/

namespace ModelHub

namespace Exchange

def takesLock : Exchange → Bool
  | ⟨.acquire _, .ok _⟩ => true
  | _ => false

def freesLock : Exchange → Bool
  | ⟨.release _, _⟩ => true
  | _ => false

/-- What is asked while a lock is held, a list for each time. If a lock is held already, the list of that
time has been begun. -/
def passes : Option (List Exchange) → List Exchange → List (List Exchange)
  | _, [] => []
  | none, exchange :: rest => passes (if exchange.takesLock then some [] else none) rest
  | some pass, exchange :: rest =>
    if exchange.freesLock then pass :: passes none rest else passes (some (pass ++ [exchange])) rest

variable {said rest : List Exchange}

theorem passes_quiet (quiet : ∀ exchange ∈ said, exchange.takesLock = false)
    (rest : List Exchange) : passes none (said ++ rest) = passes none rest := by
  induction said with
  | nil => rfl
  | cons exchange said ih =>
    obtain ⟨first, later⟩ := List.forall_mem_cons.mp quiet
    rw [List.cons_append, passes, first]
    exact ih later

theorem passes_held (held : ∀ exchange ∈ said, exchange.freesLock = false) (pass : List Exchange)
    (rest : List Exchange) : passes (some pass) (said ++ rest) = passes (some (pass ++ said)) rest := by
  induction said generalizing pass with
  | nil => rw [List.nil_append, List.append_nil]
  | cons exchange said ih =>
    obtain ⟨first, later⟩ := List.forall_mem_cons.mp held
    rw [List.cons_append, passes, first, if_neg Bool.false_ne_true, ih later, List.append_assoc]
    rfl

end Exchange

def Dialogue.passes (dialogue : Dialogue) : List (List Exchange) :=
  Exchange.passes none dialogue.exchanges.reverse

/-- The blocks stand in the list, in order and apart from each other. -/
inductive HubError.Blocks : List (List HubError) → List HubError → Prop
  | none (errors : List HubError) : Blocks [] errors
  | next (others block : List HubError) {blocks : List (List HubError)} {errors : List HubError}
      (later : Blocks blocks errors) : Blocks (block :: blocks) (others ++ (block ++ errors))

namespace HubError.Blocks

variable {blocks more : List (List HubError)} {errors others : List HubError}

theorem behind (before : List HubError) (stand : Blocks blocks errors) :
    Blocks blocks (before ++ errors) := by
  cases stand with
  | none => exact .none _
  | next others block later =>
    rw [← List.append_assoc]
    exact .next (before ++ others) block later

theorem append (first : Blocks blocks errors) (second : Blocks more others) :
    Blocks (blocks ++ more) (errors ++ others) := by
  induction first with
  | none errors => exact second.behind errors
  | next others block later ih =>
    rw [List.append_assoc, List.append_assoc]
    exact .next others block ih

theorem single (block : List HubError) : Blocks [block] block := by
  simpa using Blocks.next [] block (.none [])

end HubError.Blocks

def Call.IsLockFree : Call → Store → Prop
  | .acquire _, _ | .release _, _ => False
  | _, _ => True

namespace Push

open Work (Abides)

variable {options : Options} {identity : RepoIdentity} {reference path : String}
  {action : FileAction} {α : Type}

theorem lockFree_of_asks {work : Work α} (asks : Abides Call.IsOfHandler work) :
    Abides Call.IsLockFree work := by
  refine asks.mono fun call before ofHandler => ?_
  cases call with
  | acquire | release => exact ofHandler.elim
  | _ => trivial

open Exchange (passes passes_held passes_quiet)
open Program (Transcript)
open Progress (andThen each record)
open Reconcile (reported)
open Store (possibleAnswers)

variable {faults : HubError → Prop}

/-- No lock is held at the end, and the errors report on all passes. -/
structure Tallied (errors : List HubError) (said : List Exchange) : Prop where
  closed : ∀ rest, passes none (said ++ rest) = passes none said ++ passes none rest
  reports : HubError.Blocks ((passes none said).map reported) errors

theorem tallied_quiet {said : List Exchange} (errors : List HubError)
    (quiet : ∀ exchange ∈ said, exchange.takesLock = false) : Tallied errors said := by
  have nothing : passes none said = [] := by
    have gone := passes_quiet quiet []
    rwa [List.append_nil] at gone
  constructor
  · intro rest
    rw [passes_quiet quiet, nothing, List.nil_append]
  · rw [nothing]
    exact .none errors

theorem Tallied.append {errors others : List HubError} {said more : List Exchange}
    (first : Tallied errors said) (second : Tallied others more) :
    Tallied (errors ++ others) (said ++ more) := by
  constructor
  · intro rest
    rw [List.append_assoc, first.closed, second.closed, first.closed, List.append_assoc]
  · rw [first.closed, List.map_append]
    exact first.reports.append second.reports

theorem Tallied.behind {errors : List HubError} {said more : List Exchange}
    (quiet : ∀ exchange ∈ said, exchange.takesLock = false) (tallied : Tallied errors more) :
    Tallied errors (said ++ more) := (tallied_quiet [] quiet).append tallied

theorem tallied_held {repositoryId : Int} {said : List Exchange} {freed : Except HubError Unit}
    (held : ∀ exchange ∈ said, exchange.freesLock = false) :
    Tallied (reported said)
      (⟨.acquire repositoryId, .ok ()⟩ :: (said ++ [⟨.release repositoryId, freed⟩])) := by
  have one : ∀ rest, passes none
      (⟨.acquire repositoryId, .ok ()⟩ :: (said ++ [⟨.release repositoryId, freed⟩]) ++ rest) =
        said :: passes none rest := by
    intro rest
    rw [List.cons_append, List.append_assoc]
    exact passes_held held [] _
  have whole := one []
  rw [List.append_nil] at whole
  constructor
  · intro rest
    rw [one, whole]
    rfl
  · rw [whole]
    exact .single (reported said)

theorem quiet_of_lockFree {work : Work α} (lockFree : Abides Call.IsLockFree work)
    {store after : Store} {said : List Exchange} {outcome : Except HubError α}
    (transcript : Transcript (possibleAnswers faults) work.run store said outcome after) :
    ∀ exchange ∈ said, exchange.takesLock = false ∧ exchange.freesLock = false := by
  intro exchange member
  obtain ⟨before, _, isFree, _⟩ := transcript.allowed
    (fun _ _ _ _ => Store.anyAnswers_of_possible) (lockFree store) exchange member
  obtain ⟨call, reply⟩ := exchange
  cases call with
  | acquire | release => exact isFree.elim
  | _ => exact ⟨rfl, rfl⟩

/-- Work under a lock is not begun, or is a pass of its own. -/
theorem transcript_holding {repositoryId : Int} {work : Work α} {store after : Store}
    {said : List Exchange} {outcome : Except HubError α}
    (transcript : Transcript (possibleAnswers faults) (Work.holding repositoryId work).run store said
      outcome after) :
    (∀ exchange ∈ said, exchange.takesLock = false) ∨
      ∃ pass freed middle,
        said = ⟨.isCancelled, .ok false⟩ :: ⟨.acquire repositoryId, .ok ()⟩ ::
          (pass ++ [⟨.release repositoryId, freed⟩]) ∧
        Transcript (possibleAnswers faults) work.run store pass outcome middle := by
  rcases Work.transcript_bind transcript with ⟨_, -, stopped⟩ |
    ⟨_, later, _, _, rfl, passed, entered⟩
  · obtain ⟨-, ⟨rfl, -⟩ | ⟨-, impossible⟩⟩ := Work.transcript_checkpoint stopped
    · exact Or.inl (by simp [Exchange.takesLock])
    · cases impossible
  obtain ⟨rfl, ⟨-, impossible⟩ | ⟨rfl, -⟩⟩ := Work.transcript_checkpoint passed
  · cases impossible
  rcases Work.transcript_bind entered with ⟨_, -, refused⟩ | ⟨_, held, _, _, rfl, taken, inside⟩
  · obtain ⟨rfl, granted | refused, -⟩ := Work.transcript_ask refused
    · cases granted
    · exact Or.inl (by simp [Exchange.takesLock])
  obtain ⟨rfl, -, rfl⟩ := Work.transcript_ask taken
  obtain ⟨_, rest, _, _, rfl, attempted, left⟩ := Transcript.of_bind inside
  obtain ⟨pass, _, result, middle, rfl, worked, rfl, rfl, rfl⟩ := Transcript.of_bind attempted
  obtain ⟨freed, _, _, rfl, -, rfl, rfl, -⟩ := left
  refine Or.inr ⟨pass, freed, _, ?_, worked⟩
  rw [List.append_nil]
  rfl

theorem tallied_reconcile (ofStore : ∀ e, faults e → e.kind = .store) (config : SyncConfig)
    {store after : Store} {said : List Exchange} {outcome : Except HubError Reconcile.Outcome}
    (transcript : Transcript (possibleAnswers faults)
      (Reconcile.reconcile config identity reference path action).run store said outcome after) :
    Tallied (reconciled outcome).errors said := by
  have nothing : ∀ errors, Tallied errors [] := fun errors =>
    tallied_quiet errors fun _ member => absurd member List.not_mem_nil
  unfold Reconcile.reconcile at transcript
  split at transcript
  · obtain ⟨rfl, rfl, rfl⟩ := transcript
    exact nothing _
  have found := lockFree_of_asks (asks_findRepository .model identity.owner identity.name)
  rcases Work.transcript_bind transcript with ⟨e, rfl, missing⟩ |
    ⟨first, rest, repository, _, rfl, present, transcript⟩
  · exact tallied_quiet _ fun exchange member => (quiet_of_lockFree found missing exchange member).1
  refine Tallied.behind
    (fun exchange member => (quiet_of_lockFree found present exchange member).1) ?_
  dsimp only at transcript
  split at transcript
  · obtain ⟨rfl, rfl, rfl⟩ := transcript
    exact nothing _
  rcases transcript_holding transcript with quiet | ⟨pass, freed, middle, rfl, revised⟩
  · exact tallied_quiet _ quiet
  · have errors : (reconciled outcome).errors = reported pass :=
      Reconcile.reported_revise ofStore revised
    have lockFree := lockFree_of_asks (asks_revise config repository reference action)
    have held : ∀ exchange ∈ pass, exchange.freesLock = false := fun exchange member =>
      (quiet_of_lockFree lockFree revised exchange member).2
    have asked : ∀ exchange ∈ [(⟨.isCancelled, .ok false⟩ : Exchange)],
        exchange.takesLock = false := by simp [Exchange.takesLock]
    have tallied := (@tallied_held repository.id pass freed held).behind asked
    rwa [← errors] at tallied

def Tallies (faults : HubError → Prop) (program : Program Progress) : Prop :=
  Program.Tells (possibleAnswers faults) program fun progress said => Tallied progress.errors said

theorem tallies_pure (progress : Progress) : Tallies faults (pure progress) :=
  Program.tells_done (tallied_quiet _ fun _ member => absurd member List.not_mem_nil)

theorem tallies_andThen {first second : Program Progress} (begun : Tallies faults first)
    (onward : Tallies faults second) : Tallies faults (andThen first second) := by
  refine Program.tells_bind (Program.Tells.mono begun fun earlier said tallied => ?_)
  split
  · refine Program.tells_done ?_
    rwa [List.append_nil]
  · refine Program.tells_bind (Program.Tells.mono onward fun later rest tailed => ?_)
    refine Program.tells_done ?_
    rw [List.append_nil]
    exact tallied.append tailed

theorem tallies_each {step : α → Program Progress} (steps : ∀ value, Tallies faults (step value))
    (values : List α) : Tallies faults (each step values) := by
  induction values with
  | nil => exact tallies_pure .clean
  | cons value rest ih => exact tallies_andThen (steps value) ih

theorem tallies_record {work : Work Unit} (lockFree : Abides Call.IsLockFree work) :
    Tallies faults (record work) := by
  intro store said progress after transcript
  obtain ⟨first, rest, outcome, _, rfl, worked, rfl, rfl, rfl⟩ := transcript.of_bind
  rw [List.append_nil]
  exact tallied_quiet _ fun exchange member => (quiet_of_lockFree lockFree worked exchange member).1

theorem tallies_reconcileFile (ofStore : ∀ e, faults e → e.kind = .store) :
    Tallies faults (reconcileFile options identity reference path action) := by
  unfold reconcileFile
  split
  · intro store said progress after transcript
    obtain ⟨first, rest, outcome, _, rfl, worked, rfl, rfl, rfl⟩ := transcript.of_bind
    rw [List.append_nil]
    exact tallied_reconcile ofStore options.config worked
  · exact tallies_pure .clean

theorem tallies_handleFile (ofStore : ∀ e, faults e → e.kind = .store) :
    Tallies faults (handleFile options identity reference action path) := by
  have rest : Tallies faults (andThen (reconcileFile options identity reference path action)
      (record (if path = readmeFile then applyReadme options identity reference action
        else updateLibrary identity path action))) := by
    refine tallies_andThen (tallies_reconcileFile ofStore) (tallies_record ?_)
    split
    · exact lockFree_of_asks (asks_applyReadme options identity reference action)
    · exact lockFree_of_asks (asks_updateLibrary identity path action)
  intro store said progress after transcript
  obtain ⟨first, later, isCancelled, middle, rfl, asked, onward⟩ := transcript.of_bind
  have quiet : ∀ exchange ∈ first, exchange.takesLock = false := by
    obtain ⟨_, _, _, rfl, ⟨⟨answer, rfl⟩, -⟩, rfl, -, -⟩ := asked
    simp [Exchange.takesLock]
  refine Tallied.behind quiet ?_
  cases isCancelled with
  | true => exact tallies_pure _ _ _ _ _ onward
  | false => exact rest _ _ _ _ onward

theorem tallies_handleCommit (ofStore : ∀ e, faults e → e.kind = .store) (commit : Commit) :
    Tallies faults (handleCommit options identity reference commit) :=
  tallies_each (fun _ => tallies_each (fun _ => tallies_handleFile ofStore) _) _

/-- The errors of a push hold, in order, all failures of each of its reconciliations. Only of a
reconciliation that is broken off they hold no more than the failure that did so. -/
theorem passes_are_reported {surroundings : Surroundings} (ofStore : surroundings.FailsAsStore)
    {event : PushEvent} {store : Store} {result : PushResult} {dialogue : Dialogue}
    (ran : surroundings.run (updateInfos options event) store = (result, dialogue)) :
    HubError.Blocks (dialogue.passes.map reported) result.errors := by
  have transcript := surroundings.transcript_run
    (@Surroundings.possibleAnswers_reply surroundings (fun e => e.kind = .store) ofStore) ran
  unfold updateInfos at transcript
  split at transcript
  · next e _ =>
    obtain ⟨nothing, -, -⟩ := transcript
    unfold Dialogue.passes
    rw [nothing]
    exact .none result.errors
  · next identity _ =>
    obtain ⟨first, rest, progress, _, whole, worked, rfl, rfl, rfl⟩ := transcript.of_bind
    have tallied := tallies_each (tallies_handleCommit (fun _ => id)) event.commits _ _ _ _ worked
    unfold Dialogue.passes
    rw [whole, List.append_nil, PushResult.errors_ofErrors]
    exact tallied.reports

/-- The tag of a resource cannot be stored, and the candidates cannot be listed behind it. -/
def unlisting : Surroundings :=
  { Surroundings.calm bertFiles with
    storeFault := fun _ request =>
      match request with
      | .ensureTag .. => some (.database "disk full")
      | .listCandidates .. => some (.database "database is locked")
      | _ => none }

def unlistedPush : PushResult × Dialogue :=
  unlisting.run (updateInfos .plain bertPush) (Store.bert.addResource "H100" "bert")

theorem failed_link_is_lost :
    unlisting.FailsAsStore ∧
      unlistedPush.2.passes.map Exchange.failures =
        [[.database "disk full", .database "database is locked"]] ∧
      unlistedPush.1.errors = [.database "database is locked"] ∧
      HubError.Blocks (unlistedPush.2.passes.map reported) unlistedPush.1.errors := by
  have ofStore : unlisting.FailsAsStore := by
    intro dialogue request e planned
    simp only [unlisting] at planned
    split at planned
    · obtain rfl := Option.some.inj planned
      rfl
    · obtain rfl := Option.some.inj planned
      rfl
    · cases planned
  exact ⟨ofStore, by decide +kernel, by decide +kernel,
    passes_are_reported ofStore (Prod.eta unlistedPush).symm⟩

end Push

end ModelHub
