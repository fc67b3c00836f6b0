import ModelHub.Proofs.Engine.Leads
import ModelHub.Proofs.Store.Reading

/-! The answers of a store whose calls may fail with some errors while the git server answers and
nothing is cancelled, and what the common pieces of work lead to under them.

With no errors allowed these are the runs in which no store call fails. -/

namespace ModelHub

open Program (Answers)
open Work (either)

variable {faults : HubError → Prop} {files : FileRequest → Except HubError String}

def Store.answers (faults : HubError → Prop) (files : FileRequest → Except HubError String) :
    Answers Store
  | .store request, store, reply, after =>
    (∃ value, reply = .ok value ∧ store.perform request = (.ok value, after)) ∨
      ∃ e, faults e ∧ reply = .error e ∧ after = store
  | .fetch request _, store, reply, after => reply = files request ∧ after = store
  | .submit .., store, _, after => after = store
  | .now, store, reply, after => (∃ instant, reply = .ok instant) ∧ after = store
  | .isCancelled, store, reply, after => reply = .ok false ∧ after = store
  | .acquire _, store, reply, after => reply = .ok () ∧ after = store
  | .release _, store, _, after => after = store

def Store.reviewedAnswers (files : FileRequest → Except HubError String)
    (review : RepoType → String → String → Except HubError Unit) : Answers Store
  | .submit repoType owner name _, store, reply, after =>
    reply = review repoType owner name ∧ after = store
  | call, store, reply, after => answers (fun _ => False) files call store reply after

theorem Store.answers_of_reviewed {review : RepoType → String → String → Except HubError Unit}
    (call : Call) (store : Store) (reply : Except HubError call.Reply) (after : Store)
    (reviewed : reviewedAnswers files review call store reply after) :
    answers (fun _ => False) files call store reply after := by
  cases call with
  | submit repoType owner name limit => exact reviewed.2
  | _ => exact reviewed

namespace Conditions

variable {conditions : Conditions}

/-- An answer under steady conditions is one of those of the store if its failure is allowed. -/
theorem answers_of_reply (steady : conditions.Steady) {number : Nat} {call : Call}
    {store after : Store} {reply : Except HubError call.Reply}
    (replied : conditions.reply number call store = (reply, after))
    (within : ∀ request e, call = .store request → failure? reply = some e → faults e) :
    Store.answers faults conditions.files call store reply after := by
  cases call with
  | store request =>
    cases reply with
    | ok value =>
      refine Or.inl ⟨value, rfl, ?_⟩
      simp only [Conditions.reply] at replied
      split at replied
      · exact replied
      · cases (Prod.mk.inj replied).1
    | error e =>
      refine Or.inr ⟨e, within request e rfl rfl, rfl, ?_⟩
      simp only [Conditions.reply] at replied
      split at replied
      · exact (Store.perform_error replied).1
      · exact (Prod.mk.inj replied).2.symm
  | fetch request limit =>
    simp only [Conditions.reply, steady.uncancelled, steady.reachable, answerUnless] at replied
    obtain ⟨rfl, rfl⟩ := Prod.mk.inj replied
    exact ⟨rfl, rfl⟩
  | submit repoType owner name limit => exact (Prod.mk.inj replied).2.symm
  | now =>
    obtain ⟨rfl, rfl⟩ := Prod.mk.inj replied
    exact ⟨⟨_, rfl⟩, rfl⟩
  | isCancelled =>
    simp only [Conditions.reply, steady.uncancelled] at replied
    obtain ⟨rfl, rfl⟩ := Prod.mk.inj replied
    exact ⟨rfl, rfl⟩
  | acquire repositoryId =>
    simp only [Conditions.reply, steady.uncancelled] at replied
    obtain ⟨rfl, rfl⟩ := Prod.mk.inj replied
    exact ⟨rfl, rfl⟩
  | release repositoryId => exact (Prod.mk.inj replied).2.symm

theorem answer_eq {call : Call} {course later : Course} {reply : Except HubError call.Reply}
    (answered : conditions.answer call course = (some reply, later)) :
    conditions.reply course.log.length call course.store = (reply, later.store) ∧
      later.log = (call, failure? reply) :: course.log := by
  obtain ⟨same, rfl⟩ := Prod.mk.inj answered
  obtain rfl := Option.some.inj same
  exact ⟨rfl, rfl⟩

theorem leads_within {α : Type} {answers : Answers Store}
    (within : ∀ number call store after reply,
      conditions.reply number call store = (reply, after) →
      (∀ request e, call = .store request → failure? reply ≠ some e) →
        answers call store reply after)
    {program : Program α} {store : Store} {post : α → Store → Prop} {value : α} {last : Course}
    (leads : Program.Leads answers program store post)
    (runs : conditions.run program store = (some value, last)) (unfailing : last.Unfailing) :
    post value last.store := by
  refine leads.of_run Course.Unfailing (fun call course reply later answered sound => ?_) runs
    unfailing
  obtain ⟨replied, logged⟩ := answer_eq answered
  constructor
  · intro request e member
    exact sound request e (logged ▸ List.mem_cons_of_mem _ member)
  · refine within _ call _ _ reply replied ?_
    rintro request e rfl failed
    refine sound request e ?_
    rw [logged, failed]
    exact List.mem_cons_self

theorem leads_unfailing {α : Type} (steady : conditions.Steady) {program : Program α}
    {store : Store}
    {post : α → Store → Prop} {value : α} {last : Course}
    (leads : Program.Leads (Store.answers (fun _ => False) conditions.files) program store post)
    (runs : conditions.run program store = (some value, last)) (unfailing : last.Unfailing) :
    post value last.store := by
  refine leads_within (fun number call store after reply replied succeeds => ?_) leads runs unfailing
  exact answers_of_reply steady replied succeeds

theorem leads_reviewed {α : Type} (steady : conditions.Steady) {program : Program α} {store : Store}
    {post : α → Store → Prop} {value : α} {last : Course}
    (leads : Program.Leads (Store.reviewedAnswers conditions.files conditions.review) program store
      post)
    (runs : conditions.run program store = (some value, last)) (unfailing : last.Unfailing) :
    post value last.store := by
  refine leads_within (fun number call store after reply replied succeeds => ?_) leads runs unfailing
  cases call with
  | submit repoType owner name limit =>
    simp only [Conditions.reply, steady.reachable, answerUnless] at replied
    obtain ⟨rfl, rfl⟩ := Prod.mk.inj replied
    exact ⟨rfl, rfl⟩
  | _ => exact answers_of_reply steady replied succeeds

theorem leads_faulty {α : Type} (steady : conditions.Steady)
    (planned : ∀ number e, conditions.storeFault number = some e → faults e)
    (unreadable : ∀ message, faults (.database message)) {program : Program α} {store : Store}
    {post : α → Store → Prop} {value : α} {last : Course}
    (leads : Program.Leads (Store.answers faults conditions.files) program store post)
    (runs : conditions.run program store = (some value, last)) :
    post value last.store := by
  refine leads.of_run (fun _ => True) (fun call course reply later answered _ => ?_) runs trivial
  obtain ⟨replied, -⟩ := answer_eq answered
  refine ⟨trivial, answers_of_reply steady replied ?_⟩
  rintro request e rfl failed
  simp only [Conditions.reply] at replied
  split at replied
  · cases reply with
    | ok value => cases failed
    | error other =>
      obtain rfl := Option.some.inj failed
      obtain ⟨-, message, rfl⟩ := Store.perform_error replied
      exact unreadable message
  · next other isPlanned =>
    obtain ⟨rfl, -⟩ := Prod.mk.inj replied
    obtain rfl := Option.some.inj failed
    exact planned _ _ isPlanned

end Conditions

namespace Work

variable {store : Store} {bad : HubError → Store → Prop}

theorem leads_askStore {request : StoreCall} {good : request.Reply → Store → Prop}
    (onValue : ∀ value after, store.perform request = (.ok value, after) → good value after)
    (onFailure : ∀ e, faults e → bad e store) :
    Leads (Store.answers faults files) (askStore request) store good bad := by
  intro reply after answer
  rcases answer with performed | failed
  · obtain ⟨value, rfl, done⟩ := performed
    exact onValue value after done
  · obtain ⟨e, fault, rfl, rfl⟩ := failed
    exact onFailure e fault

end Work

end ModelHub
