import ModelHub.Proofs.Engine.Abides
import ModelHub.Proofs.Engine.Answers

/-! Transcripts of programs: the exchanges, first one first, by which a program comes from one state to
a value and another state, when its calls are answered within given bounds.

A condition on all transcripts of a program is computed along the program, as for what it leads to. A
single transcript is taken apart along the program. -/

namespace ModelHub

open Program (Answers)

namespace Exchange

def failures (said : List Exchange) : List HubError := said.filterMap Exchange.failure?

@[simp] theorem failures_nil : failures [] = [] := rfl

@[simp] theorem failures_append (first rest : List Exchange) :
    failures (first ++ rest) = failures first ++ failures rest := List.filterMap_append

end Exchange

namespace Program

variable {σ α β : Type} {answers : Answers σ} {state last : σ} {said : List Exchange}

def Transcript (answers : Answers σ) : Program α → σ → List Exchange → α → σ → Prop
  | done value, state, said, result, last => said = [] ∧ result = value ∧ last = state
  | ask call next, state, said, result, last => ∃ reply rest middle,
      said = ⟨call, reply⟩ :: rest ∧ answers call state reply middle ∧
        Transcript answers (next reply) middle rest result last

namespace Transcript

theorem of_bind {program : Program α} {next : α → Program β} {result : β}
    (transcript : Transcript answers (program >>= next) state said result last) :
    ∃ first rest value middle, said = first ++ rest ∧
      Transcript answers program state first value middle ∧
        Transcript answers (next value) middle rest result last := by
  induction program generalizing state said with
  | done value => exact ⟨[], said, value, state, rfl, ⟨rfl, rfl, rfl⟩, transcript⟩
  | ask call answered ih =>
    obtain ⟨reply, later, between, rfl, answer, onward⟩ := transcript
    obtain ⟨first, rest, value, middle, rfl, begun, ended⟩ := ih reply onward
    exact ⟨⟨call, reply⟩ :: first, rest, value, middle, rfl,
      ⟨reply, first, between, rfl, answer, begun⟩, ended⟩

/-- The same transcript under other answers that allow for what was answered. -/
theorem transfer {others : Answers σ} {program : Program α} {value : α}
    (transcript : Transcript answers program state said value last)
    (wider : ∀ exchange ∈ said, ∀ state state', answers exchange.call state exchange.reply state' →
      others exchange.call state exchange.reply state') :
    Transcript others program state said value last := by
  induction program generalizing state said with
  | done result => exact transcript
  | ask call next ih =>
    obtain ⟨reply, rest, middle, rfl, answer, onward⟩ := transcript
    obtain ⟨first, later⟩ := List.forall_mem_cons.mp wider
    exact ⟨reply, rest, middle, rfl, first state middle answer, ih reply onward later⟩

theorem mono {others : Answers σ}
    (wider : ∀ call state reply state', answers call state reply state' →
      others call state reply state')
    {program : Program α} {value : α} (transcript : Transcript answers program state said value last) :
    Transcript others program state said value last :=
  transcript.transfer fun exchange _ state state' => wider exchange.call state exchange.reply state'

theorem of_leads {program : Program α} {post : α → σ → Prop} {value : α}
    (transcript : Transcript answers program state said value last)
    (leads : Leads answers program state post) : post value last := by
  induction program generalizing state said with
  | done result =>
    obtain ⟨-, rfl, rfl⟩ := transcript
    exact leads
  | ask call next ih =>
    obtain ⟨reply, rest, middle, rfl, answer, onward⟩ := transcript
    exact ih reply onward (leads reply middle answer)

theorem allowed {answers : Answers Store} {store after : Store} {allowed : Call → Store → Prop}
    (within : ∀ call store reply after, answers call store reply after →
      Store.anyAnswers call store reply after)
    {program : Program α} {value : α} (transcript : Transcript answers program store said value after)
    (abides : Abides allowed program store) :
    ∀ exchange ∈ said, ∃ before after,
      allowed exchange.call before ∧ answers exchange.call before exchange.reply after := by
  induction program generalizing store said with
  | done result =>
    obtain ⟨rfl, -, -⟩ := transcript
    exact fun _ member => absurd member List.not_mem_nil
  | ask call next ih =>
    obtain ⟨reply, rest, middle, rfl, answer, onward⟩ := transcript
    refine List.forall_mem_cons.mpr ⟨⟨store, middle, abides.1, answer⟩, ?_⟩
    exact ih reply onward (abides.2 reply middle (within call store reply middle answer))

end Transcript

def Tells (answers : Answers σ) (program : Program α) (fits : α → List Exchange → Prop) : Prop :=
  ∀ state said value last, Transcript answers program state said value last → fits value said

theorem tells_done {value : α} {fits : α → List Exchange → Prop} (holds : fits value []) :
    Tells answers (.done value) fits := by
  rintro state said result last ⟨rfl, rfl, rfl⟩
  exact holds

theorem tells_bind {program : Program α} {next : α → Program β} {fits : β → List Exchange → Prop}
    (tells : Tells answers program fun value first =>
      Tells answers (next value) fun result rest => fits result (first ++ rest)) :
    Tells answers (program >>= next) fits := by
  intro state said result last transcript
  obtain ⟨first, rest, value, middle, rfl, begun, ended⟩ := transcript.of_bind
  exact tells state first value middle begun middle rest result last ended

theorem Tells.mono {program : Program α} {fits weaker : α → List Exchange → Prop}
    (tells : Tells answers program fits) (weaken : ∀ value said, fits value said → weaker value said) :
    Tells answers program weaker :=
  fun state said value last transcript => weaken value said (tells state said value last transcript)

theorem tells_ask {call : Call} {next : Except HubError call.Reply → Program α}
    {fits : α → List Exchange → Prop}
    (answered : ∀ state reply middle, answers call state reply middle →
      Tells answers (next reply) fun value rest => fits value (⟨call, reply⟩ :: rest)) :
    Tells answers (.ask call next) fits := by
  rintro state said value last ⟨reply, rest, middle, rfl, answer, onward⟩
  exact answered state reply middle answer middle rest value last onward

end Program

namespace Surroundings

variable {surroundings : Surroundings} {answers : Answers Store} {α : Type}

/-- What a dialogue adds is a transcript, if the surroundings keep to the answers. -/
theorem transcript_converse
    (within : ∀ call dialogue, answers call dialogue.store (surroundings.reply dialogue call).1
      (surroundings.reply dialogue call).2) (program : Program α) (before : Dialogue) :
    ∃ said, (surroundings.converse program before).2.exchanges = said.reverse ++ before.exchanges ∧
      Program.Transcript answers program before.store said
        (surroundings.converse program before).1 (surroundings.converse program before).2.store := by
  induction program generalizing before with
  | done value => exact ⟨[], rfl, rfl, rfl, rfl⟩
  | ask call next ih =>
    rw [converse_ask]
    obtain ⟨rest, noted, onward⟩ :=
      ih (surroundings.answer call before).1 (surroundings.answer call before).2
    refine ⟨⟨call, (surroundings.answer call before).1⟩ :: rest, ?_,
      (surroundings.answer call before).1, rest, (surroundings.answer call before).2.store, rfl,
      within call before, onward⟩
    rw [noted, List.reverse_cons, List.append_assoc]
    rfl

theorem transcript_run
    (within : ∀ call dialogue, answers call dialogue.store (surroundings.reply dialogue call).1
      (surroundings.reply dialogue call).2)
    {program : Program α} {store : Store} {value : α} {dialogue : Dialogue}
    (ran : surroundings.run program store = (value, dialogue)) :
    Program.Transcript answers program store dialogue.exchanges.reverse value dialogue.store := by
  obtain ⟨said, noted, transcript⟩ :=
    surroundings.transcript_converse within program (.start store)
  rw [← Surroundings.run, ran] at noted transcript
  have whole : dialogue.exchanges.reverse = said := by
    rw [noted, List.reverse_append, List.reverse_reverse]
    rfl
  rwa [whole]

theorem allowed_of_run {allowed : Call → Store → Prop} {program : Program α} {store : Store}
    {value : α} {dialogue : Dialogue} (abides : Program.Abides allowed program store)
    (ran : surroundings.run program store = (value, dialogue)) :
    ∀ exchange ∈ dialogue.exchanges, ∃ before, allowed exchange.call before := by
  intro exchange member
  have transcript := transcript_run (fun call dialogue => surroundings.anyAnswers_reply dialogue call)
    ran
  obtain ⟨before, _, isAllowed, -⟩ :=
    transcript.allowed (fun _ _ _ _ => id) abides exchange (List.mem_reverse.mpr member)
  exact ⟨before, isAllowed⟩

end Surroundings

/-- The answers there can be if store calls fail with some errors only. Locks are waited for until the
push is cancelled. -/
def Store.possibleAnswers (faults : HubError → Prop) : Answers Store
  | .store request, store, reply, after =>
    store.perform request = (reply, after) ∨ ∃ e, faults e ∧ reply = .error e ∧ after = store
  | .now, store, reply, after => (∃ instant, reply = .ok instant) ∧ after = store
  | .isCancelled, store, reply, after => (∃ answer, reply = .ok answer) ∧ after = store
  | .acquire _, store, reply, after => (reply = .ok () ∨ reply = .error .cancelled) ∧ after = store
  | .fetch .., store, _, after | .submit .., store, _, after => after = store
  | .release _, store, _, after => after = store

theorem Store.anyAnswers_of_possible {faults : HubError → Prop} {call : Call} {store after : Store}
    {reply : Except HubError call.Reply}
    (possible : possibleAnswers faults call store reply after) :
    anyAnswers call store reply after := by
  cases call with
  | store request =>
    rcases possible with performed | ⟨e, -, failed, unchanged⟩
    · exact Or.inl performed
    · exact Or.inr ⟨⟨e, failed⟩, unchanged⟩
  | now | isCancelled | acquire => exact possible.2
  | fetch | submit | release => exact possible

theorem Store.possible_of_answers {faults : HubError → Prop}
    {files : FileRequest → Except HubError String} {call : Call} {store after : Store}
    {reply : Except HubError call.Reply} (answered : answers faults files call store reply after) :
    possibleAnswers faults call store reply after := by
  cases call with
  | store request =>
    rcases answered with ⟨value, rfl, performed⟩ | ⟨e, isFault, failed, unchanged⟩
    · exact Or.inl performed
    · exact Or.inr ⟨e, isFault, failed, unchanged⟩
  | now => exact answered
  | isCancelled => exact ⟨⟨false, answered.1⟩, answered.2⟩
  | acquire => exact ⟨Or.inl answered.1, answered.2⟩
  | fetch => exact answered.2
  | submit | release => exact answered

theorem Store.answers_of_possible {faults : HubError → Prop}
    (files : FileRequest → Except HubError String) (grave : ∀ e, faults e → e ≠ .cancelled)
    {exchange : Exchange} {store after : Store}
    (asksStore : exchange = ⟨.isCancelled, .ok false⟩ ∨ ∃ request, exchange.call = .store request)
    (possible : possibleAnswers faults exchange.call store exchange.reply after) :
    answers (· ≠ .cancelled) files exchange.call store exchange.reply after := by
  rcases asksStore with rfl | ⟨request, asked⟩
  · exact ⟨rfl, possible.2⟩
  obtain ⟨call, reply⟩ := exchange
  subst asked
  rcases possible with performed | ⟨e, isFault, failed, unchanged⟩
  · cases reply with
    | ok value => exact Or.inl ⟨value, rfl, performed⟩
    | error e =>
      obtain ⟨unchanged, message, rfl⟩ := Store.perform_error performed
      exact Or.inr ⟨_, by simp, rfl, unchanged⟩
  · exact Or.inr ⟨e, grave e isFault, failed, unchanged⟩

theorem Surroundings.possibleAnswers_reply {surroundings : Surroundings} {faults : HubError → Prop}
    (planned : ∀ dialogue request e, surroundings.storeFault dialogue request = some e → faults e)
    (call : Call) (dialogue : Dialogue) :
    Store.possibleAnswers faults call dialogue.store (surroundings.reply dialogue call).1
      (surroundings.reply dialogue call).2 := by
  cases call with
  | store request =>
    simp only [Surroundings.reply]
    split
    · exact Or.inl rfl
    · next e isPlanned => exact Or.inr ⟨e, planned dialogue request e isPlanned, rfl, rfl⟩
  | now => exact ⟨⟨_, rfl⟩, rfl⟩
  | isCancelled => exact ⟨⟨_, rfl⟩, rfl⟩
  | acquire repositoryId =>
    refine ⟨?_, rfl⟩
    simp only [Surroundings.reply]
    split
    · exact Or.inr rfl
    · exact Or.inl rfl
  | fetch | submit | release => rfl

namespace Work

open Program (Transcript tells_ask tells_bind tells_done)

variable {σ α β : Type} {answers : Answers σ} {state last : σ} {said : List Exchange}

/-- Work breaks off with its first part or goes on behind it. -/
theorem transcript_bind {work : Work α} {next : α → Work β} {outcome : Except HubError β}
    (transcript : Transcript answers (work >>= next).run state said outcome last) :
    (∃ e, outcome = .error e ∧ Transcript answers work.run state said (.error e) last) ∨
      ∃ first rest value middle, said = first ++ rest ∧
        Transcript answers work.run state first (.ok value) middle ∧
          Transcript answers (next value).run middle rest outcome last := by
  obtain ⟨first, rest, result, middle, rfl, begun, ended⟩ := Transcript.of_bind transcript
  cases result with
  | ok value => exact Or.inr ⟨first, rest, value, middle, rfl, begun, ended⟩
  | error e =>
    obtain ⟨rfl, rfl, rfl⟩ := ended
    rw [List.append_nil]
    exact Or.inl ⟨e, rfl, begun⟩

theorem transcript_attempt {work : Work α} {outcome : Except HubError (Except HubError α)}
    (transcript : Transcript answers (perform (attempt work)).run state said outcome last) :
    ∃ result, outcome = .ok result ∧ Transcript answers work.run state said result last := by
  obtain ⟨first, rest, result, middle, rfl, begun, ended⟩ := Transcript.of_bind transcript
  obtain ⟨rfl, rfl, rfl⟩ := ended
  exact ⟨result, rfl, by rwa [List.append_nil]⟩

theorem transcript_ask {call : Call} {outcome : Except HubError call.Reply}
    (transcript : Transcript answers (ask call).run state said outcome last) :
    said = [⟨call, outcome⟩] ∧ answers call state outcome last := by
  obtain ⟨reply, rest, middle, rfl, answer, rfl, rfl, rfl⟩ := transcript
  exact ⟨rfl, answer⟩

theorem transcript_askStore_ok {faults : HubError → Prop}
    {files : FileRequest → Except HubError String} {request : StoreCall} {value : request.Reply}
    {store after : Store}
    (transcript : Transcript (Store.answers faults files) (askStore request).run store said (.ok value)
      after) :
    said = [⟨.store request, .ok value⟩] ∧ store.perform request = (.ok value, after) := by
  obtain ⟨rfl, ⟨_, same, performed⟩ | ⟨_, _, failed, _⟩⟩ := transcript_ask transcript
  · obtain rfl := Except.ok.inj same
    exact ⟨rfl, performed⟩
  · cases failed

theorem transcript_askStore_error {faults : HubError → Prop}
    {files : FileRequest → Except HubError String} {request : StoreCall} {e : HubError}
    {store after : Store}
    (transcript : Transcript (Store.answers faults files) (askStore request).run store said (.error e)
      after) :
    said = [⟨.store request, .error e⟩] ∧ after = store := by
  obtain ⟨rfl, ⟨_, impossible, _⟩ | ⟨_, _, _, unchanged⟩⟩ := transcript_ask transcript
  · cases impossible
  · exact ⟨rfl, unchanged⟩

def Tells (answers : Answers σ) (work : Work α) (good : α → List Exchange → Prop)
    (bad : HubError → List Exchange → Prop) : Prop :=
  Program.Tells answers work.run (either good bad)

variable {bad : HubError → List Exchange → Prop}

theorem tells_pure {value : α} {good : α → List Exchange → Prop} (holds : good value []) :
    Tells answers (pure value) good bad := tells_done holds

theorem tells_bind {work : Work α} {next : α → Work β} {good : β → List Exchange → Prop}
    (tells : Tells answers work (fun value first => Tells answers (next value)
      (fun result rest => good result (first ++ rest)) fun e rest => bad e (first ++ rest)) bad) :
    Tells answers (work >>= next) good bad := by
  refine Program.tells_bind (Program.Tells.mono tells ?_)
  intro outcome first told
  cases outcome with
  | error e => exact tells_done (by rw [List.append_nil]; exact told)
  | ok value =>
    refine Program.Tells.mono told ?_
    intro result rest ended
    cases result <;> exact ended

theorem Tells.mono {work : Work α} {good better : α → List Exchange → Prop}
    {worse : HubError → List Exchange → Prop} (tells : Tells answers work good bad)
    (onValue : ∀ value said, good value said → better value said)
    (onFailure : ∀ e said, bad e said → worse e said) : Tells answers work better worse := by
  refine Program.Tells.mono tells ?_
  intro outcome said told
  cases outcome with
  | ok value => exact onValue value said told
  | error e => exact onFailure e said told

theorem tells_ask {call : Call} {good : call.Reply → List Exchange → Prop}
    (onValue : ∀ state value middle, answers call state (.ok value) middle →
      good value [⟨call, .ok value⟩])
    (onFailure : ∀ state e middle, answers call state (.error e) middle →
      bad e [⟨call, .error e⟩]) : Tells answers (ask call) good bad := by
  refine Program.tells_ask fun state reply middle answer => tells_done ?_
  cases reply with
  | ok value => exact onValue state value middle answer
  | error e => exact onFailure state e middle answer

theorem tells_perform {program : Program α} {good : α → List Exchange → Prop}
    (tells : Program.Tells answers program good) : Tells answers (perform program) good bad := by
  refine Program.tells_bind (tells.mono fun value said told => tells_done ?_)
  rw [List.append_nil]
  exact told

theorem transcript_checkpoint {faults : HubError → Prop} {store after : Store}
    {outcome : Except HubError Unit}
    (transcript : Transcript (Store.possibleAnswers faults) checkpoint.run store said outcome after) :
    after = store ∧ (said = [⟨.isCancelled, .ok true⟩] ∧ outcome = .error .cancelled ∨
      said = [⟨.isCancelled, .ok false⟩] ∧ outcome = .ok ()) := by
  obtain ⟨reply, rest, middle, rfl, ⟨⟨isCancelled, rfl⟩, rfl⟩, onward⟩ := transcript
  cases isCancelled with
  | true =>
    obtain ⟨rfl, rfl, rfl⟩ := onward
    exact ⟨rfl, Or.inl ⟨rfl, rfl⟩⟩
  | false =>
    obtain ⟨rfl, rfl, rfl⟩ := onward
    exact ⟨rfl, Or.inr ⟨rfl, rfl⟩⟩

end Work

end ModelHub
