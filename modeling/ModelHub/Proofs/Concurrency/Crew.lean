import Mathlib.Logic.Function.Basic
import ModelHub.Concurrency.LockTable
import ModelHub.Proofs.Reconcile.Pass

/-! Reconciliations side by side, over one store and one table of locks. Each goes on alone until it
has to wait, for a lock or for the git server; while it waits, others may go on, and it may be
cancelled. -/

namespace ModelHub

open Reconcile (Outcome)

structure ReconcileCall where
  config : SyncConfig
  identity : RepoIdentity
  reference : String
  path : String
  action : FileAction

namespace ReconcileCall

def task (call : ReconcileCall) : Program (Except HubError Outcome) :=
  Work.attempt (Reconcile.reconcile call.config call.identity call.reference call.path call.action)

/-- A call that has not fetched anything has no use for a file. -/
def fetchedOr (fetched : Option (Except HubError String)) : Except HubError String :=
  fetched.getD (.error .cancelled)

def alone (call : ReconcileCall) (fetched : Option (Except HubError String)) (store : Store) :
    Store :=
  ((Conditions.calm fun _ => fetchedOr fetched).run call.task store).2.store

end ReconcileCall

/-- The store after calls have run one after another. -/
def serially {P : Type} (calls : P → ReconcileCall)
    (fetched : P → Option (Except HubError String)) (order : List P) (start : Store) : Store :=
  order.foldl (fun store party => (calls party).alone (fetched party) store) start

inductive CrewStage where
  | idle
  | running
  | queued (repositoryId : Int) (next : Except HubError Unit → Program (Except HubError Outcome))
  | fetching (next : Except HubError String → Program (Except HubError Outcome))
  | returned (outcome : Except HubError Outcome)

structure CrewMember where
  stage : CrewStage := .idle
  isCancelled : Bool := false
  /-- The repository whose lock was acquired and is yet to be released. -/
  inside : Option Int := none
  fetched : Option (Except HubError String) := none

/-- What is asked is answered at once, the waits apart. -/
def CrewMember.conditions (member : CrewMember) : Conditions :=
  { Conditions.calm fun _ => ReconcileCall.fetchedOr member.fetched with
    isCancelled := fun _ => member.isCancelled }

structure Crew (P : Type) where
  course : Course
  locks : LockTable P := []
  members : P → CrewMember := fun _ => {}
  /-- The calls that acquired their lock, in order. -/
  order : List P := []

inductive CrewMove (P : Type) where
  | begin (party : P)
  | cancel (party : P)
  | resume (party : P)
  | answer (party : P) (reply : Except HubError String)

namespace Crew

variable {P : Type} [DecidableEq P]

def edit (party : P) (change : CrewMember → CrewMember) (crew : Crew P) : Crew P :=
  { crew with members := Function.update crew.members party (change (crew.members party)) }

def advance (party : P) : Program (Except HubError Outcome) → Crew P → Crew P
  | .done outcome, crew => crew.edit party fun member => { member with stage := .returned outcome }
  | .ask (.acquire repositoryId) next, crew =>
    { crew.edit party fun member => { member with stage := .queued repositoryId next } with
      locks := crew.locks.request repositoryId party }
  | .ask (.fetch _ _) next, crew =>
    crew.edit party fun member => { member with stage := .fetching next }
  | .ask (.release _) next, crew =>
    advance party (next (.ok ()))
      { crew.edit party fun member => { member with inside := none } with
        locks := crew.locks.leave party }
  | .ask call next, crew =>
    let (reply, store) :=
      (crew.members party).conditions.reply crew.course.log.length call crew.course.store
    advance party (next reply)
      { crew with course := { store := store, log := (call, failure? reply) :: crew.course.log } }

/-- A move that is not possible changes nothing. Where a call has been cancelled, that comes before
the lock and before the answer of the git server. -/
def step (calls : P → ReconcileCall) (crew : Crew P) : CrewMove P → Crew P
  | .begin party =>
    match (crew.members party).stage with
    | .idle =>
      advance party (calls party).task
        (crew.edit party fun member => { member with stage := .running })
    | _ => crew
  | .cancel party => crew.edit party fun member => { member with isCancelled := true }
  | .resume party =>
    match (crew.members party).stage with
    | .queued repositoryId next =>
      if (crew.members party).isCancelled then
        advance party (next (.error .cancelled))
          { crew.edit party fun member => { member with stage := .running } with
            locks := crew.locks.leave party }
      else if crew.locks.holder? repositoryId = some party then
        advance party (next (.ok ()))
          { crew.edit party fun member =>
              { member with stage := .running, inside := some repositoryId } with
            order := crew.order ++ [party] }
      else crew
    | _ => crew
  | .answer party reply =>
    match (crew.members party).stage with
    | .fetching next =>
      let outcome := if (crew.members party).isCancelled then .error .cancelled else reply
      advance party (next outcome)
        (crew.edit party fun member => { member with stage := .running, fetched := some outcome })
    | _ => crew

def run (calls : P → ReconcileCall) (start : Store) (moves : List (CrewMove P)) : Crew P :=
  moves.foldl (step calls) { course := .start start }

end Crew

end ModelHub
