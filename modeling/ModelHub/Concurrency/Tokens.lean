import ModelHub.Concurrency.Waiting

/-!
Cancellation tokens under a clock that moves only when told to, or when everything waits.

All clones of a token share one cell; a cell that is cancelled stays so. What happens is a list of
moves of which each is one atomic act. A step gives an order and then lets every task act until
there is nothing left to do, so the answer of a task comes before a cancellation at that instant.
-/

namespace ModelHub

structure Tokens where
  clock : Nat := 0
  cells : List (String × Nat) := []
  cancelled : List Nat := []
  /-- The cells whose queues were woken, call by call. -/
  calls : List Nat := []
  errands : List Errand := []
  waiters : List Waiter := []
  runners : List Runner := []
  deriving DecidableEq, Repr

namespace Tokens

inductive Step where
  | create
  | cancel
  | cancelAfter (delay : Nat)
  | advance (delay : Nat)
  | check
  | run (length : Option Nat)
  | wait (task : String)
  deriving DecidableEq, Repr

inductive Result where
  | nothing
  | checked (isCancelled : Bool)
  | finished
  | cancelled
  | hung
  deriving DecidableEq, Repr

/-- One act: an order given on a token, an act of a task by its position, or the passing of time. -/
inductive Move where
  | order (name : String) (source : Option String) (what : Step)
  | errand (position : Nat)
  | waiter (position : Nat)
  | runner (position : Nat)
  | abandon (position : Nat)
  | pass (instant : Nat)
  deriving DecidableEq, Repr

def isCancelled (tokens : Tokens) (cell : Nat) : Bool := tokens.cancelled.contains cell

def signal (tokens : Tokens) (cell : Nat) : Signal :=
  { isSet := tokens.isCancelled cell, calls := tokens.calls.count cell }

/-- No task can act before an instant comes or an order is given. -/
def isIdle (tokens : Tokens) : Bool :=
  tokens.errands.all (·.isIdle tokens.clock) && tokens.waiters.all (·.wait.isIdle) &&
    tokens.runners.all (·.isIdle tokens.clock)

def pending (tokens : Tokens) : List Nat :=
  (tokens.errands.filter (·.stage = .waiting)).map (·.due) ++
    (tokens.runners.filter (·.outcome?.isNone)).filterMap (·.finish)

/-- A token that is not known yet gets the cell of the token it is cloned from, or a new one. -/
def introduce (tokens : Tokens) (name : String) (source : Option String) : Tokens × Nat :=
  match tokens.cells.lookup name with
  | some cell => (tokens, cell)
  | none =>
    let cell := (source.bind fun other => tokens.cells.lookup other).getD tokens.cells.length
    ({ tokens with cells := tokens.cells ++ [(name, cell)] }, cell)

/-- The task that an order on a cell starts. A waiting task replaces another of its name. -/
def assign (tokens : Tokens) (cell : Nat) : Step → Tokens
  | .create | .advance _ | .check => tokens
  | .cancel => { tokens with errands := tokens.errands ++ [{ cell, due := tokens.clock }] }
  | .cancelAfter delay =>
    { tokens with errands := tokens.errands ++ [{ cell, due := tokens.clock + delay }] }
  | .run length =>
    { tokens with
      runners := tokens.runners ++ [{ cell, finish := length.map (tokens.clock + ·) }] }
  | .wait task =>
    { tokens with
      waiters := (tokens.waiters.filter fun waiter => waiter.task ≠ task) ++ [{ task, cell }] }

def wake (tokens : Tokens) (cell : Nat) : Tokens :=
  { tokens with
    calls := cell :: tokens.calls
    waiters := tokens.waiters.map (·.woken cell)
    runners := tokens.runners.map (·.woken cell) }

def affect (tokens : Tokens) (errand : Errand) : Tokens :=
  match errand.stage with
  | .waiting =>
    if errand.due ≤ tokens.clock then
      { tokens with cancelled := errand.cell :: tokens.cancelled }
    else tokens
  | .calling => tokens.wake errand.cell
  | .done => tokens

/-- Time passes when no task can act, and not beyond an instant that one waits for. -/
def mayPass (tokens : Tokens) (instant : Nat) : Bool :=
  tokens.clock ≤ instant && tokens.isIdle && tokens.pending.all (instant ≤ ·)

def move (tokens : Tokens) : Move → Tokens
  | .order name source what =>
    let (tokens, cell) := tokens.introduce name source
    tokens.assign cell what
  | .errand i =>
    match tokens.errands[i]? with
    | none => tokens
    | some errand =>
      { tokens.affect errand with errands := tokens.errands.modify i (·.next tokens.clock) }
  | .waiter i =>
    { tokens with
      waiters := tokens.waiters.modify i fun waiter => waiter.next (tokens.signal waiter.cell) }
  | .runner i =>
    { tokens with
      runners := tokens.runners.modify i fun runner =>
        runner.next tokens.clock (tokens.signal runner.cell) }
  | .abandon i => { tokens with runners := tokens.runners.modify i (·.abandon) }
  | .pass instant => if tokens.mayPass instant then { tokens with clock := instant } else tokens

def play (tokens : Tokens) (moves : List Move) : Tokens := moves.foldl move tokens

/-- So many acts for each of so many tasks, one task after the other. -/
def rouse (tasks acts : Nat) (move : Nat → Move) : List Move :=
  (List.range tasks).flatMap fun i => List.replicate acts (move i)

def settleRunners (tokens : Tokens) : Tokens :=
  tokens.play (rouse tokens.runners.length 9 .runner)

def settleErrands (tokens : Tokens) : Tokens :=
  tokens.play (rouse tokens.errands.length 2 .errand)

def settleWaiters (tokens : Tokens) : Tokens :=
  tokens.play (rouse tokens.waiters.length 5 .waiter)

def settle (tokens : Tokens) : Tokens :=
  tokens.settleRunners.settleErrands.settleWaiters.settleRunners

def reach (tokens : Tokens) (instant : Nat) : Tokens := (tokens.move (.pass instant)).settle

def agenda (tokens : Tokens) (horizon : Nat) : List Nat :=
  (tokens.pending.filter (· < horizon)).mergeSort

def advanceTo (tokens : Tokens) (instant : Nat) : Tokens :=
  (tokens.agenda instant ++ [instant]).foldl reach tokens

/-- So long nothing may happen before a task counts as hung, in milliseconds. -/
def patience : Nat := 86400000

def outcomeAt (tokens : Tokens) (i : Nat) : Option Runner.Outcome :=
  tokens.runners[i]?.bind Runner.outcome?

def watch (tokens : Tokens) (i : Nat) : List Nat → Tokens
  | [] => tokens
  | instant :: later =>
    if (tokens.outcomeAt i).isSome then tokens else (tokens.reach instant).watch i later

/-- A run that has not ended has one look more at the horizon, and is then abandoned. -/
def giveUp (tokens : Tokens) (i horizon : Nat) : Tokens :=
  if (tokens.outcomeAt i).isSome then tokens
  else ((tokens.move (.pass horizon)).settleRunners.move (.abandon i)).settle

def await (tokens : Tokens) (i horizon : Nat) : Tokens :=
  (tokens.watch i (tokens.agenda horizon)).giveUp i horizon

def resultOf : Option Runner.Outcome → Result
  | some .finished => .finished
  | some .cancelled => .cancelled
  | _ => .hung

def step (tokens : Tokens) (name : String) (source : Option String) (what : Step) :
    Result × Tokens :=
  let ordered := (tokens.move (.order name source what)).settle
  match what with
  | .create | .cancel | .cancelAfter _ | .wait _ => (.nothing, ordered)
  | .advance delay => (.nothing, ordered.advanceTo (tokens.clock + delay))
  | .check => (.checked (ordered.isCancelled (tokens.introduce name source).2), ordered)
  | .run _ =>
    let i := tokens.runners.length
    let tokens := ordered.await i (tokens.clock + patience)
    (resultOf (tokens.outcomeAt i), tokens)

def states (tokens : Tokens) : List (String × Bool) :=
  tokens.cells.map fun entry => (entry.1, tokens.isCancelled entry.2)

def waitStates (tokens : Tokens) : List (String × Bool) :=
  tokens.waiters.map fun waiter => (waiter.task, waiter.wait = .resolved)

end Tokens

end ModelHub
