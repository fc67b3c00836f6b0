import ModelHub.Proofs.Engine.Dialogue
import ModelHub.Proofs.Store.Reading

/-! Programs that make only calls of some kind, whatever they are answered: the store may fail at any
call, and everybody else may answer anything. -/

namespace ModelHub

open Program (Answers)

/-- All answers there can be. A failed store call changes nothing, and no other call reaches the
store. -/
def Store.anyAnswers : Answers Store
  | .store request, store, reply, after =>
    store.perform request = (reply, after) ∨ (∃ e, reply = .error e) ∧ after = store
  | _, store, _, after => after = store

theorem Surroundings.anyAnswers_reply (surroundings : Surroundings) (dialogue : Dialogue)
    (call : Call) :
    Store.anyAnswers call dialogue.store (surroundings.reply dialogue call).1
      (surroundings.reply dialogue call).2 := by
  cases call with
  | store request =>
    simp only [Surroundings.reply]
    split
    · exact Or.inl rfl
    · next e _ => exact Or.inr ⟨⟨e, rfl⟩, rfl⟩
  | _ => rfl

namespace Program

variable {σ α β : Type}

def Abides (allowed : Call → Store → Prop) : Program α → Store → Prop
  | done _, _ => True
  | ask call next, store =>
    allowed call store ∧
      ∀ reply after, Store.anyAnswers call store reply after → Abides allowed (next reply) after

variable {allowed : Call → Store → Prop} {store : Store}

theorem abides_bind_of_leads {program : Program α} {next : α → Program β}
    {post : α → Store → Prop} (first : Abides allowed program store)
    (leads : Leads Store.anyAnswers program store post)
    (rest : ∀ value after, post value after → Abides allowed (next value) after) :
    Abides allowed (program >>= next) store := by
  induction program generalizing store with
  | done value => exact rest value store leads
  | ask call answered ih =>
    refine ⟨first.1, fun reply after answer => ?_⟩
    exact ih reply (first.2 reply after answer) (leads reply after answer)

theorem leads_trivial {answers : Answers σ} {program : Program α} {state : σ} :
    Leads answers program state fun _ _ => True := by
  induction program generalizing state with
  | done value => trivial
  | ask call next ih => exact fun reply after _ => ih reply

theorem abides_bind {program : Program α} {next : α → Program β}
    (first : Abides allowed program store)
    (rest : ∀ value after, Abides allowed (next value) after) :
    Abides allowed (program >>= next) store :=
  abides_bind_of_leads first leads_trivial fun value after _ => rest value after

theorem Abides.mono {others : Call → Store → Prop}
    (wider : ∀ call store, allowed call store → others call store) {program : Program α}
    (abides : Abides allowed program store) : Abides others program store := by
  induction program generalizing store with
  | done value => trivial
  | ask call next ih =>
    refine ⟨wider call store abides.1, fun reply after answered => ?_⟩
    exact ih reply (abides.2 reply after answered)

/-- What no allowed call breaks holds in the end. -/
theorem Abides.keeps {kept : Store → Prop}
    (step : ∀ call store reply after, allowed call store → kept store →
      Store.anyAnswers call store reply after → kept after)
    {program : Program α} (abides : Abides allowed program store) (holds : kept store) :
    Leads Store.anyAnswers program store fun _ after => kept after := by
  induction program generalizing store with
  | done value => exact holds
  | ask call next ih =>
    intro reply after answered
    exact ih reply (abides.2 reply after answered)
      (step call store reply after abides.1 holds answered)

end Program

theorem Surroundings.converse_of_leads (surroundings : Surroundings) {α : Type}
    {program : Program α} {dialogue : Dialogue} {post : α → Store → Prop}
    (leads : Program.Leads Store.anyAnswers program dialogue.store post) :
    post (surroundings.converse program dialogue).1
      (surroundings.converse program dialogue).2.store := by
  induction program generalizing dialogue with
  | done value => exact leads
  | ask call next ih =>
    rw [converse_ask]
    exact ih _ (leads _ _ (surroundings.anyAnswers_reply dialogue call))

theorem Surroundings.run_of_leads (surroundings : Surroundings) {α : Type} {program : Program α}
    {store : Store} {post : α → Store → Prop}
    (leads : Program.Leads Store.anyAnswers program store post) :
    post (surroundings.run program store).1 (surroundings.run program store).2.store :=
  surroundings.converse_of_leads leads

theorem Surroundings.attempt_of_leads {surroundings : Surroundings} {α : Type} {work : Work α}
    {store : Store} {good : α → Store → Prop} {bad : HubError → Store → Prop}
    {outcome : Except HubError α} {dialogue : Dialogue}
    (leads : Work.Leads Store.anyAnswers work store good bad)
    (ran : surroundings.run (Work.attempt work) store = (outcome, dialogue)) :
    Work.either good bad outcome dialogue.store := by
  obtain ⟨rfl, rfl⟩ := Prod.ext_iff.mp ran
  exact surroundings.run_of_leads leads

namespace Work

variable {allowed : Call → Store → Prop} {store : Store} {α β : Type}

def Abides (allowed : Call → Store → Prop) (work : Work α) : Prop :=
  ∀ store, Program.Abides allowed work.run store

theorem Abides.mono {others : Call → Store → Prop} {work : Work α} (abides : Abides allowed work)
    (wider : ∀ call store, allowed call store → others call store) : Abides others work :=
  fun store => Program.Abides.mono wider (abides store)

theorem abides_pure (value : α) : Abides allowed (pure value : Work α) := fun _ => trivial

theorem abides_throw (e : HubError) : Abides allowed (throw e : Work α) := fun _ => trivial

theorem abides_bind {work : Work α} {next : α → Work β} (first : Abides allowed work)
    (rest : ∀ value, Abides allowed (next value)) : Abides allowed (work >>= next) := by
  intro store
  refine Program.abides_bind (first store) ?_
  intro outcome after
  cases outcome with
  | ok value => exact rest value after
  | error e => exact trivial

theorem abides_mapM {work : α → Work β} (each : ∀ value, Abides allowed (work value))
    (values : List α) : Abides allowed (values.mapM work) := by
  induction values with
  | nil => exact abides_pure []
  | cons value rest ih =>
    rw [List.mapM_cons]
    exact abides_bind (each value) fun _ => abides_bind ih fun _ => abides_pure _

theorem abides_perform {program : Program α}
    (abides : ∀ store, Program.Abides allowed program store) :
    Abides allowed (perform program) :=
  fun store => Program.abides_bind (abides store) fun _ _ => trivial

theorem abides_attempt {work : Work α} (abides : Abides allowed work) :
    Abides allowed (perform (attempt work)) := abides_perform abides

theorem abides_askStore {request : StoreCall} (isAllowed : ∀ store, allowed (.store request) store) :
    Abides allowed (askStore request) :=
  fun store => ⟨isAllowed store, fun _ _ _ => trivial⟩

theorem abides_askStore_bind {request : StoreCall} {next : request.Reply → Work β}
    (isAllowed : ∀ store, allowed (.store request) store)
    (rest : ∀ (store : Store) value after, store.perform request = (.ok value, after) →
      Program.Abides allowed (next value).run after) :
    Abides allowed (askStore request >>= next) := by
  intro store
  refine ⟨isAllowed store, fun reply after answered => ?_⟩
  cases reply with
  | error e => exact trivial
  | ok value =>
    rcases answered with performed | ⟨⟨e, failed⟩, -⟩
    · exact rest store value after performed
    · cases failed

theorem abides_checkpoint (isAllowed : ∀ store, allowed .isCancelled store) :
    Abides allowed checkpoint := by
  refine abides_bind (abides_perform fun store => ⟨isAllowed store, ?_⟩) fun isCancelled => ?_
  · intro reply after _
    cases reply <;> exact trivial
  · cases isCancelled <;> exact fun _ => trivial

theorem abides_holding {repositoryId : Int} (looks : ∀ store, allowed .isCancelled store)
    (waits : ∀ store, allowed (.acquire repositoryId) store)
    (frees : ∀ store, allowed (.release repositoryId) store) {work : Work α}
    (abides : Abides allowed work) : Abides allowed (holding repositoryId work) := by
  refine abides_bind (abides_checkpoint looks) fun _ => abides_bind ?_ fun _ => ?_
  · exact fun store => ⟨waits store, fun _ _ _ => trivial⟩
  · refine abides_bind (abides_attempt abides) fun outcome => abides_bind ?_ fun _ _ => trivial
    exact abides_perform fun store => ⟨frees store, fun _ _ _ => trivial⟩

theorem abides_attemptEach (isAllowed : ∀ store, allowed .isCancelled store)
    {work : α → Work Unit} (each : ∀ value, Abides allowed (work value)) (values : List α) :
    Abides allowed (attemptEach work values) := by
  induction values with
  | nil => exact abides_pure _
  | cons value rest ih =>
    refine abides_bind (abides_checkpoint isAllowed) fun _ => ?_
    refine abides_bind (abides_attempt (each value)) fun outcome => ?_
    exact abides_bind ih fun later => abides_pure _

end Work

end ModelHub
