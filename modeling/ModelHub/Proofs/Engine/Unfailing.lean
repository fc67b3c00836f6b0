import ModelHub.Proofs.Engine.Abides
import ModelHub.Tagging.Service

/-! Runs in which no store call fails. What such a run does to the store can be read off the answers
of a store that never fails, whatever everybody else says. -/

namespace ModelHub

open Program (Answers)

/-- Every store call is performed, and no other call reaches the store. -/
def Store.sureAnswers : Answers Store
  | .store request, store, reply, after =>
    ∃ value, reply = .ok value ∧ store.perform request = (.ok value, after)
  | _, store, _, after => after = store

def Store.promptAnswers : Answers Store
  | .isCancelled, store, reply, after => reply = .ok false ∧ after = store
  | .acquire _, store, reply, after => reply = .ok () ∧ after = store
  | call, store, reply, after => sureAnswers call store reply after

theorem Store.sureAnswers_of_prompt {call : Call} {store after : Store}
    {reply : Except HubError call.Reply} (prompt : promptAnswers call store reply after) :
    sureAnswers call store reply after := by
  cases call with
  | isCancelled | acquire => exact prompt.2
  | store | fetch | submit | now | release => exact prompt

namespace Exchange

def isStoreFailure : Exchange → Bool
  | ⟨.store _, .error _⟩ => true
  | _ => false

end Exchange

namespace Dialogue

def Unfailing (dialogue : Dialogue) : Prop :=
  ∀ exchange ∈ dialogue.exchanges, exchange.isStoreFailure = false

instance (dialogue : Dialogue) : Decidable dialogue.Unfailing :=
  inferInstanceAs (Decidable (∀ exchange ∈ dialogue.exchanges, exchange.isStoreFailure = false))

theorem Unfailing.before {surroundings : Surroundings} {dialogue : Dialogue} {call : Call}
    (unfailing : (surroundings.answer call dialogue).2.Unfailing) : dialogue.Unfailing :=
  fun exchange member => unfailing exchange (List.mem_cons_of_mem _ member)

end Dialogue

namespace Surroundings

variable {surroundings : Surroundings} {α : Type} {program : Program α} {dialogue : Dialogue}

theorem unfailing_before (unfailing : (surroundings.converse program dialogue).2.Unfailing) :
    dialogue.Unfailing := by
  induction program generalizing dialogue with
  | done value => exact unfailing
  | ask call next ih => exact (ih _ unfailing).before

theorem sureAnswers_reply {call : Call}
    (unfailing : (surroundings.answer call dialogue).2.Unfailing) :
    Store.sureAnswers call dialogue.store (surroundings.answer call dialogue).1
      (surroundings.answer call dialogue).2.store := by
  cases call with
  | store request =>
    have succeeded : (⟨.store request, (surroundings.reply dialogue (.store request)).1⟩ :
        Exchange).isStoreFailure = false := unfailing _ List.mem_cons_self
    show ∃ value, (surroundings.reply dialogue (.store request)).1 = .ok value ∧
      dialogue.store.perform request = (.ok value, (surroundings.reply dialogue (.store request)).2)
    cases replied : surroundings.reply dialogue (.store request) with
    | mk reply after =>
      cases reply with
      | error e =>
        rw [replied] at succeeded
        cases succeeded
      | ok value =>
        refine ⟨value, rfl, ?_⟩
        simp only [reply] at replied
        split at replied
        · exact replied
        · cases (Prod.mk.inj replied).1
  | _ => rfl

theorem converse_of_leads_within {answers : Answers Store}
    (within : ∀ call dialogue, (surroundings.answer call dialogue).2.Unfailing →
      answers call dialogue.store (surroundings.answer call dialogue).1
        (surroundings.answer call dialogue).2.store)
    {post : α → Store → Prop} (leads : Program.Leads answers program dialogue.store post)
    (unfailing : (surroundings.converse program dialogue).2.Unfailing) :
    post (surroundings.converse program dialogue).1
      (surroundings.converse program dialogue).2.store := by
  induction program generalizing dialogue with
  | done value => exact leads
  | ask call next ih =>
    rw [converse_ask] at unfailing ⊢
    exact ih _ (leads _ _ (within call dialogue (unfailing_before unfailing))) unfailing

theorem converse_of_sure_leads {post : α → Store → Prop}
    (leads : Program.Leads Store.sureAnswers program dialogue.store post)
    (unfailing : (surroundings.converse program dialogue).2.Unfailing) :
    post (surroundings.converse program dialogue).1
      (surroundings.converse program dialogue).2.store :=
  converse_of_leads_within (fun _ _ => sureAnswers_reply) leads unfailing

theorem attempt_of_sure_leads {work : Work α} {good : α → Store → Prop}
    {bad : HubError → Store → Prop} {store : Store} {outcome : Except HubError α}
    (leads : Work.Leads Store.sureAnswers work store good bad)
    (ran : surroundings.run (Work.attempt work) store = (outcome, dialogue))
    (unfailing : dialogue.Unfailing) : Work.either good bad outcome dialogue.store := by
  obtain ⟨rfl, rfl⟩ := Prod.ext_iff.mp ran
  have leadsThere : Program.Leads Store.sureAnswers (Work.attempt work) (Dialogue.start store).store _ :=
    leads
  exact converse_of_sure_leads leadsThere unfailing

/-- The push is not cancelled, neither when this is looked at nor while a lock is waited for. -/
structure NeverCancels (surroundings : Surroundings) : Prop where
  token : ∀ dialogue, surroundings.isCancelled dialogue = false
  queue : ∀ dialogue repositoryId, surroundings.isCancelledInQueue dialogue repositoryId = false

theorem NeverCancels.promptAnswers_reply (never : surroundings.NeverCancels) (call : Call)
    (dialogue : Dialogue) (unfailing : (surroundings.answer call dialogue).2.Unfailing) :
    Store.promptAnswers call dialogue.store (surroundings.answer call dialogue).1
      (surroundings.answer call dialogue).2.store := by
  cases call with
  | isCancelled => exact ⟨congrArg Except.ok (never.token dialogue), rfl⟩
  | acquire repositoryId =>
    refine ⟨?_, rfl⟩
    show (if surroundings.isCancelledInQueue dialogue repositoryId then _ else _) = _
    rw [never.queue]
    rfl
  | store request => exact sureAnswers_reply unfailing
  | fetch | submit | now | release => rfl

theorem NeverCancels.converse_of_prompt_leads (never : surroundings.NeverCancels)
    {post : α → Store → Prop}
    (leads : Program.Leads Store.promptAnswers program dialogue.store post)
    (unfailing : (surroundings.converse program dialogue).2.Unfailing) :
    post (surroundings.converse program dialogue).1
      (surroundings.converse program dialogue).2.store :=
  converse_of_leads_within never.promptAnswers_reply leads unfailing

theorem NeverCancels.attempt_of_prompt_leads (never : surroundings.NeverCancels) {work : Work α}
    {good : α → Store → Prop} {bad : HubError → Store → Prop} {store : Store}
    {outcome : Except HubError α} (leads : Work.Leads Store.promptAnswers work store good bad)
    (ran : surroundings.run (Work.attempt work) store = (outcome, dialogue))
    (unfailing : dialogue.Unfailing) : Work.either good bad outcome dialogue.store := by
  obtain ⟨rfl, rfl⟩ := Prod.ext_iff.mp ran
  have leadsThere : Program.Leads Store.promptAnswers (Work.attempt work)
      (Dialogue.start store).store _ := leads
  exact never.converse_of_prompt_leads leadsThere unfailing

end Surroundings

namespace Work

variable {α : Type} {store : Store} {bad : HubError → Store → Prop}

theorem sure_leads_storeCall {request : StoreCall} {good : request.Reply → Store → Prop}
    (onValue : ∀ value after, store.perform request = (.ok value, after) → good value after) :
    Leads Store.sureAnswers (askStore request) store good bad := by
  rintro reply after ⟨value, rfl, performed⟩
  exact onValue value after performed

theorem prompt_of_sure_leads {work : Work α} {good : α → Store → Prop}
    (leads : Leads Store.sureAnswers work store good bad) :
    Leads Store.promptAnswers work store good bad :=
  Program.Leads.narrow (fun _ _ _ _ => Store.sureAnswers_of_prompt) leads

theorem prompt_leads_checkpoint {good : Unit → Store → Prop} (onward : good () store) :
    Leads Store.promptAnswers checkpoint store good bad := by
  rintro _ _ ⟨rfl, rfl⟩
  exact onward

/-- A lock is got at once, and given back whether the work ends well or not. -/
theorem prompt_leads_holding {repositoryId : Int} {work : Work α} {good : α → Store → Prop}
    (leads : Leads Store.promptAnswers work store good bad) :
    Leads Store.promptAnswers (holding repositoryId work) store good bad := by
  refine leads_bind.mpr (prompt_leads_checkpoint (leads_bind.mpr ?_))
  rintro _ _ ⟨rfl, rfl⟩
  refine leads_bind.mpr (Program.leads_bind.mpr (Program.Leads.mono leads ?_))
  rintro outcome after ended
  refine leads_bind.mpr ?_
  rintro _ _ rfl
  exact ended

end Work

theorem Tagging.sure_leads_findRepository {repoType : RepoType} {owner name : String} {store : Store}
    {good : Repository → Store → Prop} {bad : HubError → Store → Prop}
    (onFound : ∀ repository, store.findRepository repoType owner name = .ok (some repository) →
      good repository store)
    (onMissing : store.findRepository repoType owner name = .ok none →
      bad (missing repoType owner name) store) :
    Work.Leads Store.sureAnswers (findRepository repoType owner name) store good bad := by
  refine Work.leads_bind.mpr (Work.sure_leads_storeCall ?_)
  intro found _ performed
  obtain ⟨answer, rfl⟩ := Prod.mk.inj performed
  cases found with
  | none => exact onMissing answer
  | some repository => exact onFound repository answer

end ModelHub
