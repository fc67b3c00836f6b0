import ModelHub.Proofs.Engine.Leads

/-! Programs in a dialogue with surroundings of any kind: the store may fail at any call, the servers
may answer anything at any time, the push may be cancelled at any time, and all this may depend on
what was said before.

`Conditions` are surroundings in which the servers keep to their answers. -/

namespace ModelHub

structure Exchange where
  call : Call
  reply : Except HubError call.Reply

structure Dialogue where
  store : Store
  exchanges : List Exchange

structure Surroundings where
  /-- The failure of a store call, which then changes nothing. Otherwise the store itself answers. -/
  storeFault : Dialogue → StoreCall → Option HubError
  /-- How the wait for a file ends. If the push is cancelled meanwhile, it ends with that failure. -/
  fetch : Dialogue → FileRequest → Duration → Except HubError String
  submit : Dialogue → RepoType → String → String → Duration → Except HubError Unit
  now : Dialogue → Instant
  isCancelled : Dialogue → Bool
  /-- The push is cancelled during the wait for the lock of a repository. -/
  isCancelledInQueue : Dialogue → Int → Bool

structure Submission where
  repoType : RepoType
  owner : String
  name : String
  outcome : Except HubError Unit
  deriving DecidableEq

namespace Exchange

/-- The failure that is met: that of the call, or the cancellation that was noticed. -/
def failure? : Exchange → Option HubError
  | ⟨.isCancelled, .ok true⟩ => some .cancelled
  | ⟨_, .error e⟩ => some e
  | _ => none

def submission? : Exchange → Option Submission
  | ⟨.submit repoType owner name _, outcome⟩ => some { repoType, owner, name, outcome }
  | _ => none

/-- A store call failed, or a server could not be reached or did not answer in time. -/
def isOutage : Exchange → Bool
  | ⟨.store _, .error _⟩ => true
  | ⟨.fetch .., .error e⟩ => e.kind = .outage
  | ⟨.submit .., .error e⟩ => e.kind = .outage
  | _ => false

end Exchange

namespace Dialogue

def start (store : Store) : Dialogue := { store := store, exchanges := [] }

def noting (dialogue : Dialogue) (exchange : Exchange) : Dialogue :=
  { dialogue with exchanges := exchange :: dialogue.exchanges }

def failures (dialogue : Dialogue) : List HubError :=
  dialogue.exchanges.reverse.filterMap Exchange.failure?

def submissions (dialogue : Dialogue) : List Submission :=
  dialogue.exchanges.reverse.filterMap Exchange.submission?

def endsCancelled (dialogue : Dialogue) : Bool :=
  match dialogue.exchanges with
  | ⟨.isCancelled, .ok true⟩ :: _ => true
  | _ => false

theorem mem_failures {dialogue : Dialogue} {e : HubError} :
    e ∈ dialogue.failures ↔ ∃ exchange ∈ dialogue.exchanges, exchange.failure? = some e := by
  simp only [failures, List.mem_filterMap, List.mem_reverse]

theorem failures_start (store : Store) : (start store).failures = [] := rfl

theorem failures_cons (store : Store) (exchange : Exchange) (exchanges : List Exchange) :
    failures { store := store, exchanges := exchange :: exchanges } =
      failures { store := store, exchanges := exchanges } ++ exchange.failure?.toList := by
  unfold failures
  rw [List.reverse_cons, List.filterMap_append]
  cases found : exchange.failure? <;> simp [found]

theorem failures_noting (dialogue : Dialogue) (exchange : Exchange) :
    (dialogue.noting exchange).failures = dialogue.failures ++ exchange.failure?.toList :=
  failures_cons _ _ _

theorem submissions_cons (store : Store) (exchange : Exchange) (exchanges : List Exchange) :
    submissions { store := store, exchanges := exchange :: exchanges } =
      submissions { store := store, exchanges := exchanges } ++ exchange.submission?.toList := by
  unfold submissions
  rw [List.reverse_cons, List.filterMap_append]
  cases found : exchange.submission? <;> simp [found]

theorem submissions_noting (dialogue : Dialogue) (exchange : Exchange) :
    (dialogue.noting exchange).submissions = dialogue.submissions ++ exchange.submission?.toList :=
  submissions_cons _ _ _

end Dialogue

namespace Surroundings

def reply (surroundings : Surroundings) (dialogue : Dialogue) :
    (call : Call) → Except HubError call.Reply × Store
  | .store request =>
    match surroundings.storeFault dialogue request with
    | none => dialogue.store.perform request
    | some e => (.error e, dialogue.store)
  | .fetch request limit => (surroundings.fetch dialogue request limit, dialogue.store)
  | .submit repoType owner name limit =>
    (surroundings.submit dialogue repoType owner name limit, dialogue.store)
  | .now => (.ok (surroundings.now dialogue), dialogue.store)
  | .isCancelled => (.ok (surroundings.isCancelled dialogue), dialogue.store)
  | .acquire repositoryId =>
    (if surroundings.isCancelledInQueue dialogue repositoryId then .error .cancelled else .ok (),
      dialogue.store)
  | .release _ => (.ok (), dialogue.store)

def answer (surroundings : Surroundings) (call : Call) :
    StateM Dialogue (Except HubError call.Reply) := fun dialogue =>
  let (reply, store) := surroundings.reply dialogue call
  (reply, { store := store, exchanges := ⟨call, reply⟩ :: dialogue.exchanges })

def converse {α : Type} (surroundings : Surroundings) (program : Program α) (dialogue : Dialogue) :
    α × Dialogue :=
  (program.interpret surroundings.answer).run dialogue

def run {α : Type} (surroundings : Surroundings) (program : Program α) (store : Store) :
    α × Dialogue :=
  surroundings.converse program (.start store)

/-- Nothing fails but what the git server cannot give, and the push is never cancelled. -/
def calm (files : FileRequest → Except HubError String) : Surroundings where
  storeFault _ _ := none
  fetch _ request _ := files request
  submit _ _ _ _ _ := .ok ()
  now _ := { seconds := 0, nanos := 0 }
  isCancelled _ := false
  isCancelledInQueue _ _ := false

variable {surroundings : Surroundings} {α β : Type} {dialogue : Dialogue}

theorem converse_done (value : α) : surroundings.converse (.done value) dialogue = (value, dialogue) :=
  rfl

theorem converse_ask (call : Call) (next : Except HubError call.Reply → Program α) :
    surroundings.converse (.ask call next) dialogue =
      surroundings.converse (next (surroundings.answer call dialogue).1)
        (surroundings.answer call dialogue).2 := rfl

theorem converse_bind (program : Program α) (next : α → Program β) :
    surroundings.converse (program >>= next) dialogue =
      surroundings.converse (next (surroundings.converse program dialogue).1)
        (surroundings.converse program dialogue).2 := by
  induction program generalizing dialogue with
  | done value => rfl
  | ask call answered ih =>
    rw [Program.ask_bind, converse_ask, converse_ask]
    exact ih _

def answers (surroundings : Surroundings) : Program.Answers Dialogue :=
  fun call dialogue reply after => surroundings.answer call dialogue = (reply, after)

theorem leads_iff {program : Program α} {post : α → Dialogue → Prop} :
    Program.Leads surroundings.answers program dialogue post ↔
      post (surroundings.converse program dialogue).1 (surroundings.converse program dialogue).2 := by
  induction program generalizing dialogue with
  | done value => exact Iff.rfl
  | ask call next ih =>
    rw [converse_ask]
    constructor
    · intro leads
      exact (ih _).mp (leads _ _ rfl)
    · intro holds reply after answered
      obtain ⟨rfl, rfl⟩ := Prod.mk.inj answered
      exact (ih _).mpr holds

theorem leads_askStore {request : StoreCall} {good : request.Reply → Dialogue → Prop}
    {bad : HubError → Dialogue → Prop}
    (onValue : ∀ value after, dialogue.store.perform request = (.ok value, after.store) →
      good value after)
    (onFailure : ∀ e after, bad e after) :
    Work.Leads surroundings.answers (Work.askStore request) dialogue good bad := by
  intro reply after answered
  have replied : surroundings.reply dialogue (.store request) = (reply, after.store) := by
    obtain ⟨rfl, rfl⟩ := Prod.mk.inj answered
    rfl
  cases reply with
  | error e => exact onFailure e after
  | ok value =>
    simp only [Surroundings.reply] at replied
    split at replied
    · exact onValue value after replied
    · cases (Prod.mk.inj replied).1

theorem leads_now {good : Instant → Dialogue → Prop} {bad : HubError → Dialogue → Prop}
    (onward : ∀ after, after.store = dialogue.store → good (surroundings.now dialogue) after) :
    Work.Leads surroundings.answers (Work.ask .now) dialogue good bad := by
  intro reply after answered
  obtain ⟨rfl, rfl⟩ := Prod.mk.inj answered
  exact onward _ rfl

theorem converse_keeps {kept : Dialogue → Prop}
    (step : ∀ call dialogue, kept dialogue → kept (surroundings.answer call dialogue).2)
    (program : Program α) (holds : kept dialogue) :
    kept (surroundings.converse program dialogue).2 := by
  induction program generalizing dialogue with
  | done value => exact holds
  | ask call next ih => exact ih _ (step call dialogue holds)

/-- All that is noted is what the surroundings answered. -/
def Heard (surroundings : Surroundings) (dialogue : Dialogue) : Prop :=
  ∀ exchange ∈ dialogue.exchanges,
    ∃ before, (surroundings.reply before exchange.call).1 = exchange.reply

theorem heard_answer (call : Call) (dialogue : Dialogue) (heard : surroundings.Heard dialogue) :
    surroundings.Heard (surroundings.answer call dialogue).2 := by
  intro exchange member
  rcases List.mem_cons.mp member with rfl | earlier
  · exact ⟨dialogue, rfl⟩
  · exact heard exchange earlier

theorem heard_of_run {program : Program α} {store : Store} {value : α}
    (ran : surroundings.run program store = (value, dialogue)) : surroundings.Heard dialogue := by
  have heard : surroundings.Heard (surroundings.run program store).2 :=
    converse_keeps heard_answer program fun _ absent => absurd absent List.not_mem_nil
  rwa [ran] at heard

end Surroundings

end ModelHub
