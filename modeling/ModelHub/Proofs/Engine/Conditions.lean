import ModelHub.Engine.Program
import ModelHub.Store.Perform

/-! The surroundings of a program in general: a store whose calls may fail at any point, servers
that may fail at any point, and a token that may be cancelled at any point.

The number of a call is the number of calls before it, so a set of numbers is a pattern of failures.
-/

namespace ModelHub

instance decidableEqExcept {ε α : Type} [DecidableEq ε] [DecidableEq α] : DecidableEq (Except ε α)
  | .ok a, .ok b => decidable_of_iff (a = b) (by simp)
  | .error a, .error b => decidable_of_iff (a = b) (by simp)
  | .ok _, .error _ => isFalse (by simp)
  | .error _, .ok _ => isFalse (by simp)

structure Conditions where
  /-- What the git server answers, failures included. -/
  files : FileRequest → Except HubError String
  review : RepoType → String → String → Except HubError Unit
  now : Nat → Instant
  /-- The failure planned for a store call of that number; the call then changes nothing. -/
  storeFault : Nat → Option HubError
  outage : Nat → Option HubError
  isCancelled : Nat → Bool

structure Course where
  store : Store
  /-- The calls made, last one first, with their failures. -/
  log : List (Call × Option HubError)

namespace Course

def start (store : Store) : Course := { store := store, log := [] }

def Unfailing (course : Course) : Prop :=
  ∀ request e, (Call.store request, some e) ∉ course.log

theorem unfailing_iff (course : Course) :
    course.Unfailing ↔ (course.log.all fun entry =>
      match entry with
      | (.store _, some _) => false
      | _ => true) = true := by
  simp only [Unfailing, List.all_eq_true]
  constructor
  · intro unfailing entry member
    split
    · next request e => exact absurd member (unfailing request e)
    · rfl
  · intro all request e member
    have fine := all _ member
    cases fine

instance (course : Course) : Decidable course.Unfailing :=
  decidable_of_iff _ course.unfailing_iff.symm

end Course

def failure? {α : Type} : Except HubError α → Option HubError
  | .ok _ => none
  | .error e => some e

namespace Conditions

def answerUnless {α : Type} (planned : Option HubError) (answer : Except HubError α) :
    Except HubError α :=
  match planned with
  | none => answer
  | some e => .error e

def reply (conditions : Conditions) (number : Nat) :
    (call : Call) → Store → Except HubError call.Reply × Store
  | .store request, store =>
    match conditions.storeFault number with
    | none => store.perform request
    | some e => (.error e, store)
  | .fetch request _, store =>
    (if conditions.isCancelled number then .error .cancelled
      else answerUnless (conditions.outage number) (conditions.files request), store)
  | .submit repoType owner name _, store =>
    (answerUnless (conditions.outage number) (conditions.review repoType owner name), store)
  | .now, store => (.ok (conditions.now number), store)
  | .isCancelled, store => (.ok (conditions.isCancelled number), store)
  | .acquire _, store =>
    (if conditions.isCancelled number then .error .cancelled else .ok (), store)
  | .release _, store => (.ok (), store)

def answer (conditions : Conditions) : Program.Handler Course := fun call course =>
  let (reply, store) := conditions.reply course.log.length call course.store
  (some reply, { store := store, log := (call, failure? reply) :: course.log })

def run {α : Type} (conditions : Conditions) (program : Program α) (store : Store) :
    Option α × Course :=
  Program.run conditions.answer program (.start store)

/-- The push is never cancelled, and the git server answers the same request always alike, though
never with a cancellation. -/
structure Steady (conditions : Conditions) : Prop where
  uncancelled : ∀ number, conditions.isCancelled number = false
  reachable : ∀ number, conditions.outage number = none
  files_ne_cancelled : ∀ request, conditions.files request ≠ .error .cancelled

/-- Nothing fails but what the git server cannot give. -/
def calm (files : FileRequest → Except HubError String) : Conditions where
  files := files
  review _ _ _ := .ok ()
  now _ := { seconds := 0, nanos := 0 }
  storeFault _ := none
  outage _ := none
  isCancelled _ := false

theorem calm_steady {files : FileRequest → Except HubError String}
    (files_ne_cancelled : ∀ request, files request ≠ .error .cancelled) : (calm files).Steady where
  uncancelled _ := rfl
  reachable _ := rfl
  files_ne_cancelled := files_ne_cancelled

theorem run_answers {α : Type} (conditions : Conditions) (program : Program α) (course : Course) :
    ∃ value last, Program.run conditions.answer program course = (some value, last) := by
  induction program generalizing course with
  | done value => exact ⟨value, course, rfl⟩
  | ask call next ih => exact ih _ _

end Conditions

end ModelHub
