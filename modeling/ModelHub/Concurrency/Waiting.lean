/-!
The tasks around a cancellation token, one atomic act at a time.

All clones of a token share a cell: a flag, and a queue whose members are woken by a call. Who
cancels sets the flag and then makes the call; who waits notes the number of calls so far, reads
the flag, and joins the queue unless a call was made in between. Between two acts of one task any
number of acts of the others may happen.
-/

namespace ModelHub

structure Signal where
  isSet : Bool
  calls : Nat
  deriving DecidableEq, Repr

inductive Wait where
  | starting
  | listening (since : Nat)
  | unset (since : Nat)
  | parked
  | resolved
  deriving DecidableEq, Repr

namespace Wait

def next (signal : Signal) : Wait → Wait
  | starting => listening signal.calls
  | listening since => if signal.isSet then resolved else unset since
  | unset since => if since = signal.calls then parked else starting
  | parked => parked
  | resolved => resolved

/-- A call sends who is in the queue back to the start. -/
def woken : Wait → Wait
  | parked => starting
  | wait => wait

def isIdle : Wait → Bool
  | parked | resolved => true
  | _ => false

end Wait

/-- How far a cancellation is: before the flag is set, before the call is made, after both. -/
inductive Errand.Stage where
  | waiting | calling | done
  deriving DecidableEq, Repr

structure Errand where
  cell : Nat
  due : Nat
  stage : Errand.Stage := .waiting
  deriving DecidableEq, Repr

namespace Errand

def next (clock : Nat) (errand : Errand) : Errand :=
  match errand.stage with
  | .waiting => if errand.due ≤ clock then { errand with stage := .calling } else errand
  | .calling => { errand with stage := .done }
  | .done => errand

def isIdle (clock : Nat) (errand : Errand) : Bool :=
  match errand.stage with
  | .waiting => clock < errand.due
  | .calling => false
  | .done => true

end Errand

structure Waiter where
  task : String
  cell : Nat
  wait : Wait := .starting
  deriving DecidableEq, Repr

namespace Waiter

def next (signal : Signal) (waiter : Waiter) : Waiter :=
  { waiter with wait := waiter.wait.next signal }

def woken (cell : Nat) (waiter : Waiter) : Waiter :=
  if waiter.cell = cell then { waiter with wait := waiter.wait.woken } else waiter

end Waiter

/-- How a run of a task came to its end. `abandoned` is one that nobody waits for any longer. -/
inductive Runner.Outcome where
  | finished | cancelled | abandoned
  deriving DecidableEq, Repr

/-- A run reads the flag once; then it looks at the token first and at the task second, each time
it is woken. -/
inductive Runner.Phase where
  | checking | token | task | suspended
  | ended (outcome : Runner.Outcome)
  deriving DecidableEq, Repr

structure Runner where
  cell : Nat
  /-- When the task has its answer, unless it never has one. -/
  finish : Option Nat
  phase : Runner.Phase := .checking
  wait : Wait := .starting
  deriving DecidableEq, Repr

namespace Runner

def isReady (clock : Nat) (runner : Runner) : Bool := runner.finish.any (· ≤ clock)

def isAsleep (clock : Nat) (runner : Runner) : Bool :=
  runner.wait = .parked && !runner.isReady clock

def next (clock : Nat) (signal : Signal) (runner : Runner) : Runner :=
  match runner.phase with
  | .checking => { runner with phase := if signal.isSet then .ended .cancelled else .token }
  | .token =>
    match runner.wait.next signal with
    | .resolved => { runner with wait := .resolved, phase := .ended .cancelled }
    | .parked => { runner with wait := .parked, phase := .task }
    | wait => { runner with wait }
  | .task => { runner with phase := if runner.isReady clock then .ended .finished else .suspended }
  | .suspended => if runner.isAsleep clock then runner else { runner with phase := .token }
  | .ended _ => runner

def woken (cell : Nat) (runner : Runner) : Runner :=
  if runner.cell = cell then { runner with wait := runner.wait.woken } else runner

def outcome? (runner : Runner) : Option Outcome :=
  match runner.phase with
  | .ended outcome => some outcome
  | _ => none

def abandon (runner : Runner) : Runner :=
  match runner.phase with
  | .ended _ => runner
  | _ => { runner with phase := .ended .abandoned }

def isIdle (clock : Nat) (runner : Runner) : Bool :=
  match runner.phase with
  | .ended _ => true
  | .suspended => runner.isAsleep clock
  | _ => false

end Runner

end ModelHub
