import ModelHub.Engine.Call
import ModelHub.Failure.Error

/-!
Programs over calls: a tree that branches on every answer.

A program says what is asked and what follows from each answer, a failure included. What the answers
are is the matter of a handler, so the same program can be run over any store, with any failures, and
its calls can be followed one by one.
-/

namespace ModelHub

inductive Program (α : Type) where
  | done (value : α)
  | ask (call : Call) (next : Except HubError call.Reply → Program α)

namespace Program

def bind {α β : Type} (program : Program α) (next : α → Program β) : Program β :=
  match program with
  | done value => next value
  | ask call answered => ask call fun reply => bind (answered reply) next

instance : Monad Program where
  pure := done
  bind := bind

@[simp] theorem pure_eq {α : Type} (value : α) : (pure value : Program α) = done value := rfl

@[simp] theorem done_bind {α β : Type} (value : α) (next : α → Program β) :
    (done value >>= next) = next value := rfl

@[simp] theorem ask_bind {α β : Type} (call : Call)
    (answered : Except HubError call.Reply → Program α) (next : α → Program β) :
    (ask call answered >>= next) = ask call fun reply => answered reply >>= next := rfl

theorem bind_done {α : Type} (program : Program α) : (program >>= done) = program := by
  induction program with
  | done value => rfl
  | ask call answered ih => simp only [ask_bind, ih]

theorem bind_assoc {α β γ : Type} (program : Program α) (f : α → Program β) (g : β → Program γ) :
    (program >>= f >>= g) = program >>= fun value => f value >>= g := by
  induction program with
  | done value => rfl
  | ask call answered ih => simp only [ask_bind, ih]

instance : LawfulMonad Program :=
  LawfulMonad.mk' Program (fun program => bind_done program) (fun _ _ => rfl) bind_assoc

/-- Answers calls over a state. No answer means that the call waits for ever. -/
def Handler (σ : Type) := (call : Call) → σ → Option (Except HubError call.Reply) × σ

def run {σ α : Type} (handler : Handler σ) : Program α → σ → Option α × σ
  | done value, state => (some value, state)
  | ask call next, state =>
    match handler call state with
    | (some reply, state) => run handler (next reply) state
    | (none, state) => (none, state)

@[simp] theorem run_done {σ α : Type} (handler : Handler σ) (value : α) (state : σ) :
    run handler (done value) state = (some value, state) := rfl

theorem run_bind {σ α β : Type} (handler : Handler σ) (program : Program α) (next : α → Program β)
    (state : σ) :
    run handler (program >>= next) state =
      match run handler program state with
      | (some value, state) => run handler (next value) state
      | (none, state) => (none, state) := by
  induction program generalizing state with
  | done value => rfl
  | ask call answered ih =>
    simp only [ask_bind, run]
    split
    · exact ih _ _
    · rfl

/-- The value of a program whose calls are answered one by one, each of them in the end. -/
def interpret {m : Type → Type} [Monad m] {α : Type}
    (answer : (call : Call) → m (Except HubError call.Reply)) : Program α → m α
  | done value => pure value
  | ask call next => do interpret answer (next (← answer call))

end Program

abbrev Work := ExceptT HubError Program

namespace Work

def ask (call : Call) : Work call.Reply := Program.ask call .done

def askStore (request : StoreCall) : Work request.Reply := ask (.store request)

/-- Goes on with the outcome, be it a failure. -/
def attempt {α : Type} (work : Work α) : Program (Except HubError α) := work.run

def perform {α : Type} (program : Program α) : Work α := ExceptT.lift program

/-- A negative answer stands in where none is given. -/
def isCancelled : Program Bool :=
  .ask .isCancelled fun
    | .ok answer => .done answer
    | .error _ => .done false

def checkpoint : Work Unit := do
  if ← perform isCancelled then throw .cancelled

def release (repositoryId : Int) : Program Unit := .ask (.release repositoryId) fun _ => .done ()

def holding {α : Type} (repositoryId : Int) (work : Work α) : Work α := do
  checkpoint
  ask (.acquire repositoryId)
  let outcome ← perform (attempt work)
  perform (release repositoryId)
  ExceptT.mk (pure outcome)

/-- The content of a file. Once the push is cancelled, the server is not asked. -/
def fetch (request : FileRequest) (limit : Duration) : Work String := do
  checkpoint
  ask (.fetch request limit)

structure Attempts (α : Type) where
  succeeded : List α
  failures : List HubError

def Attempts.add {α : Type} (value : α) (outcome : Except HubError Unit) (later : Attempts α) :
    Attempts α :=
  match outcome with
  | .ok _ => { later with succeeded := value :: later.succeeded }
  | .error e => { later with failures := e :: later.failures }

/-- Works on all values in order, whether the work on one fails or not, but only until the push is
cancelled. -/
def attemptEach {α : Type} (work : α → Work Unit) : List α → Work (Attempts α)
  | [] => pure { succeeded := [], failures := [] }
  | value :: rest => do
    checkpoint
    let outcome ← perform (attempt (work value))
    let later ← attemptEach work rest
    return later.add value outcome

end Work

end ModelHub
