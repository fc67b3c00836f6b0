import ModelHub.Concurrency.LockTable
import ModelHub.Concurrency.Race
import ModelHub.Engine.Program
import ModelHub.Git.Memory
import ModelHub.Store.Perform

/-!
A closed world for programs: a store, a git server in memory, a moderation service that takes
everything, locks, a clock that moves only while a call waits, and faults that are planned in advance.
-/

namespace ModelHub

inductive FaultEffect where
  | fails (e : HubError)
  | cancels
  | hides
  | refuses
  /-- Candidates are listed twice, the second time with other types. -/
  | doubles
  /-- A framework is found under another number. -/
  | renames (id : Int)
  | stalls
  deriving DecidableEq, Repr

structure Fault where
  applies : Call → Bool
  /-- So many calls are passed by. -/
  skip : Nat
  effect : FaultEffect

namespace Fault

/-- What the faults do to a call: whether they cancel the push, the first other effect, and the faults
that are left. Those behind that effect are not reached. -/
def consult (call : Call) : List Fault → Bool × Option FaultEffect × List Fault
  | [] => (false, none, [])
  | fault :: rest =>
    if !fault.applies call then
      let (cancels, effect, rest) := consult call rest
      (cancels, effect, fault :: rest)
    else
      match fault.skip, fault.effect with
      | skip + 1, _ =>
        let (cancels, effect, rest) := consult call rest
        (cancels, effect, { fault with skip := skip } :: rest)
      | 0, .cancels =>
        let (_, effect, rest) := consult call rest
        (true, effect, fault :: rest)
      | 0, effect => (false, some effect, fault :: rest)

end Fault

inductive LockParty where
  | push
  | visitor (repositoryId : Int)
  deriving DecidableEq, Repr

structure Trial where
  store : Store := {}
  git : MemoryGit := {}
  locks : LockTable LockParty := []
  faults : List Fault := []
  now : Instant
  isCancelled : Bool := false
  /-- Nanoseconds since the start. -/
  elapsed : Nat := 0
  /-- When the push is cancelled, in nanoseconds from the start. It is noticed only in a wait. -/
  deadline : Option Nat := none
  /-- The calls made, last one first, with their failures. -/
  log : List (Call × Option HubError) := []

namespace Trial

def consult (call : Call) (trial : Trial) : Option FaultEffect × Trial :=
  let (cancels, effect, faults) := Fault.consult call trial.faults
  (effect, { trial with faults := faults, isCancelled := trial.isCancelled || cancels })

def doubled (candidates : List Candidate) : List Candidate :=
  candidates ++ candidates.map fun candidate =>
    { candidate with associationType := candidate.associationType + 100 }

/-- A store call under an effect. One that does not fit the call does nothing. -/
def performUnder (effect : Option FaultEffect) (store : Store) :
    (call : StoreCall) → Except HubError call.Reply × Store
  | .findRepository repoType owner name =>
    match effect with
    | some (.fails e) => (.error e, store)
    | some .hides => (.ok none, store)
    | _ => store.perform (.findRepository repoType owner name)
  | .findTag scope category group name =>
    match effect with
    | some (.fails e) => (.error e, store)
    | some .hides => (.ok none, store)
    | _ => store.perform (.findTag scope category group name)
  | .findFramework id =>
    match effect with
    | some (.fails e) => (.error e, store)
    | some .hides => (.ok none, store)
    | some (.renames other) =>
      (.ok ((store.framework? id).map fun found => { found with id := other }), store)
    | _ => store.perform (.findFramework id)
  | .touchMirror repositoryId instant =>
    match effect with
    | some (.fails e) => (.error e, store)
    | some .refuses => (.ok false, store)
    | _ => store.perform (.touchMirror repositoryId instant)
  | .unlink repositoryId tagId =>
    match effect with
    | some (.fails e) => (.error e, store)
    | some .refuses => (.ok false, store)
    | _ => store.perform (.unlink repositoryId tagId)
  | .listCandidates architecture model =>
    match effect with
    | some (.fails e) => (.error e, store)
    | some .doubles => (.ok (doubled (store.candidates architecture model)), store)
    | _ => store.perform (.listCandidates architecture model)
  | call =>
    match effect with
    | some (.fails e) => (.error e, store)
    | _ => store.perform call

def cancellation (trial : Trial) : Option Nat :=
  if trial.isCancelled then some trial.elapsed else trial.deadline.map (max trial.elapsed)

/-- Time passes; a deadline before the new time cancels the push. -/
def passTo (instant : Nat) (trial : Trial) : Trial :=
  { trial with
    elapsed := instant
    isCancelled := trial.isCancelled || trial.deadline.any fun deadline => deadline < instant }

def cancel (trial : Trial) : Trial := { trial with isCancelled := true }

def after {α : Type} (delay : Option Nat) (value : α) (trial : Trial) : Timed α :=
  delay.map fun delay => (value, trial.elapsed + delay)

def bounded {α : Type} (limit : Duration) (wait : Timed α) (trial : Trial) :
    Timed (Except Elapsed α) :=
  wait.race (some ({}, trial.elapsed + limit.nanos))

def await {α : Type} (wait : Timed α) (trial : Trial) : Option α × Trial :=
  match wait with
  | some (value, instant) => (some value, trial.passTo instant)
  | none => (none, trial)

def awaitUncancelled {α : Type} (wait : Timed α) (trial : Trial) :
    Option (Except Interrupted α) × Trial :=
  match trial.await (wait.race (trial.cancellation.map fun instant => ({}, instant))) with
  | (some (.error interrupted), trial) => (some (.error interrupted), trial.cancel)
  | ended => ended

def unbounded {α : Type} (limit : Duration) : Except Elapsed (Except HubError α) → Except HubError α
  | .error _ => .error (.timedOut limit)
  | .ok reply => reply

/-- A reply under a time limit, and that under a token. -/
def unwound {α : Type} (limit : Duration) :
    Except Interrupted (Except Elapsed (Except HubError α)) → Except HubError α
  | .error _ => .error .cancelled
  | .ok reply => unbounded limit reply

def askStore (call : StoreCall) (trial : Trial) :
    Option (Except HubError call.Reply) × Trial :=
  let (effect, trial) := trial.consult (.store call)
  let (reply, store) := performUnder effect trial.store call
  (some reply, { trial with store := store })

def awaitFile (delay : Option Nat) (reply : Except HubError String) (limit : Duration)
    (trial : Trial) : Option (Except HubError String) × Trial :=
  let (outcome, trial) := trial.awaitUncancelled (trial.bounded limit (trial.after delay reply))
  (outcome.map (unwound limit), trial)

def fetch (request : FileRequest) (limit : Duration) (trial : Trial) :
    Option (Except HubError String) × Trial :=
  match trial.consult (.fetch request limit) with
  | (some (.fails e), trial) => (some (.error e), trial)
  | (some .stalls, trial) => trial.awaitFile none (trial.git.fetch request) limit
  | (_, trial) => trial.awaitFile trial.git.delay (trial.git.fetch request) limit

/-- The wait for the review is bounded, but goes on when the push is cancelled. -/
def submit (repoType : RepoType) (owner name : String) (limit : Duration) (trial : Trial) :
    Option (Except HubError Unit) × Trial :=
  match trial.consult (.submit repoType owner name limit) with
  | (some (.fails e), trial) => (some (.error e), trial)
  | (some .stalls, trial) =>
    let (outcome, trial) := trial.await (trial.bounded limit (trial.after none (.ok ())))
    (outcome.map (unbounded limit), trial)
  | (_, trial) => (some (.ok ()), trial)

def leaveLocks (trial : Trial) : Trial := { trial with locks := trial.locks.leave .push }

/-- The push has at most one lock at a time. -/
def acquire (repositoryId : Int) (trial : Trial) : Option (Except HubError Unit) × Trial :=
  let trial := { trial with locks := trial.locks.request repositoryId .push }
  if trial.locks.holds .push then (some (.ok ()), trial)
  else
    let (outcome, trial) := trial.awaitUncancelled (trial.after none ())
    (outcome.map fun granted => granted.mapError fun _ => .cancelled, trial.leaveLocks)

def respond : (call : Call) → Trial → Option (Except HubError call.Reply) × Trial
  | .store call, trial => trial.askStore call
  | .fetch request limit, trial => trial.fetch request limit
  | .submit repoType owner name limit, trial => trial.submit repoType owner name limit
  | .now, trial => (some (.ok trial.now), trial)
  | .isCancelled, trial => (some (.ok trial.isCancelled), trial)
  | .acquire repositoryId, trial => trial.acquire repositoryId
  | .release _, trial => (some (.ok ()), trial.leaveLocks)

def failureOf {α : Type} : Option (Except HubError α) → Option HubError
  | some (.error e) => some e
  | _ => none

def answer : Program.Handler Trial := fun call trial =>
  let (reply, trial) := respond call trial
  (reply, { trial with log := (call, failureOf reply) :: trial.log })

/-- The same world before the next push, with a token that may be cancelled already, or will be. -/
def renewed (trial : Trial) (isCancelled : Bool) (deadline : Option Nat) : Trial :=
  { trial with isCancelled := isCancelled, deadline := deadline, elapsed := 0, log := [] }

/-- The value of a program, unless it waits for ever, and the world behind it. No lock of the push
remains. -/
def run {α : Type} (program : Program α) (trial : Trial) : Option α × Trial :=
  let (value, trial) := Program.run answer program trial
  (value, trial.leaveLocks)

def submission? : Call × Option HubError → Option (RepoType × String × String)
  | (.submit repoType owner name _, _) => some (repoType, owner, name)
  | _ => none

def submissions (trial : Trial) : List (RepoType × String × String) :=
  trial.log.reverse.filterMap submission?

end Trial

end ModelHub
