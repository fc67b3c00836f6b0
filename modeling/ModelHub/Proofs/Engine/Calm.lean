import ModelHub.Proofs.Engine.Abides
import ModelHub.Proofs.Engine.Answers

namespace ModelHub

namespace Course

theorem unfailing_append {store : Store} {later earlier : List (Call × Option HubError)} :
    Unfailing { store := store, log := later ++ earlier } ↔
      Unfailing { store := store, log := later } ∧ Unfailing { store := store, log := earlier } := by
  simp only [Unfailing, List.mem_append, not_or, forall_and]

end Course

namespace Conditions

variable {conditions : Conditions} {files : FileRequest → Except HubError String} {α : Type}
  {program : Program α} {value : α} {course last : Course}

theorem anyAnswers_of_answer {call : Call} {later : Course} {reply : Except HubError call.Reply}
    (answered : conditions.answer call course = (some reply, later)) :
    Store.anyAnswers call course.store reply later.store := by
  obtain ⟨replied, -⟩ := answer_eq answered
  cases call with
  | store request =>
    simp only [Conditions.reply] at replied
    split at replied
    · exact Or.inl replied
    · next e _ =>
      obtain ⟨rfl, same⟩ := Prod.mk.inj replied
      exact Or.inr ⟨⟨e, rfl⟩, same.symm⟩
  | _ => exact (Prod.mk.inj replied).2.symm

def after (conditions : Conditions) (call : Call) (course : Course) : Course where
  store := (conditions.reply course.log.length call course.store).2
  log := (call, failure? (conditions.reply course.log.length call course.store).1) :: course.log

theorem anyAnswers_after (conditions : Conditions) (call : Call) (course : Course) :
    Store.anyAnswers call course.store (conditions.reply course.log.length call course.store).1
      (conditions.after call course).store :=
  @anyAnswers_of_answer conditions course call (conditions.after call course) _ rfl

theorem run_of_leads {post : α → Store → Prop}
    (leads : Program.Leads Store.anyAnswers program course.store post)
    (ran : Program.run conditions.answer program course = (some value, last)) :
    post value last.store := by
  refine Program.Leads.of_run (fun _ => True) (fun call course reply later answered _ => ?_) leads
    ran trivial
  exact ⟨trivial, anyAnswers_of_answer answered⟩

theorem unfailing_of_run (ran : Program.run conditions.answer program course = (some value, last))
    (unfailing : last.Unfailing) : course.Unfailing := by
  refine Program.sound_of_run (fun call course reply later answered sound => ?_) ran unfailing
  obtain ⟨-, logged⟩ := answer_eq answered
  intro request e member
  exact sound request e (logged ▸ List.mem_cons_of_mem _ member)

theorem run_calm (files : FileRequest → Except HubError String) (program : Program α)
    (course : Course) :
    Program.run (calm files).answer program course =
      let (value, alone) := (calm files).run program course.store
      (value, { store := alone.store, log := alone.log ++ course.log }) := by
  suffices onward : ∀ (now : Course) (earlier : List (Call × Option HubError)),
      Program.run (calm files).answer program { store := now.store, log := now.log ++ earlier } =
        let (value, alone) := Program.run (calm files).answer program now
        (value, { store := alone.store, log := alone.log ++ earlier }) from
    onward (.start course.store) course.log
  induction program with
  | done value => exact fun _ _ => rfl
  | ask call next ih =>
    intro now earlier
    have same : ∀ number, (calm files).reply number call now.store =
        (calm files).reply 0 call now.store := by
      intro number
      cases call <;> rfl
    unfold Program.run Conditions.answer
    simp only [same]
    exact ih _ { store := _, log := _ :: now.log } earlier

end Conditions

namespace Program

/-- As long as no store call fails and nothing is cancelled, a program asks something or ends as the
condition says. -/
def Finds {α : Type} (wanted : StoreCall) (post : α → Prop) : Program α → Prop
  | done value => post value
  | ask (.store request) next =>
    request = wanted ∨ ∀ value, Finds wanted post (next (.ok value))
  | ask .isCancelled next => Finds wanted post (next (.ok false))
  | ask _ next => ∀ reply, Finds wanted post (next reply)

variable {α β : Type} {wanted : StoreCall}

theorem Finds.mono {post weaker : α → Prop} (weaken : ∀ value, post value → weaker value)
    {program : Program α} (finds : Finds wanted post program) : Finds wanted weaker program := by
  induction program with
  | done value => exact weaken value finds
  | ask call next ih =>
    cases call with
    | store request => exact finds.imp_right fun rest value => ih _ (rest value)
    | isCancelled => exact ih _ finds
    | _ => exact fun reply => ih reply (finds reply)

theorem finds_trivial (program : Program α) : Finds wanted (fun _ => True) program := by
  induction program with
  | done value => trivial
  | ask call next ih =>
    cases call with
    | store request => exact Or.inr fun value => ih _
    | isCancelled => exact ih _
    | _ => exact fun reply => ih reply

theorem finds_bind {program : Program α} {next : α → Program β} {post : β → Prop}
    (finds : Finds wanted (fun value => Finds wanted post (next value)) program) :
    Finds wanted post (program >>= next) := by
  induction program with
  | done value => exact finds
  | ask call answered ih =>
    cases call with
    | store request => exact finds.imp_right fun rest value => ih _ (rest value)
    | isCancelled => exact ih _ finds
    | _ => exact fun reply => ih reply (finds reply)

end Program

namespace Work

open Program (Finds)

variable {α β : Type} {wanted : StoreCall}

def Passes (wanted : StoreCall) (work : Work α) : Prop :=
  Finds wanted (fun outcome => ∃ value, outcome = .ok value) work.run

def Asks (wanted : StoreCall) (work : Work α) : Prop := Finds wanted (fun _ => False) work.run

theorem passes_pure (value : α) : Passes wanted (pure value : Work α) := ⟨value, rfl⟩

theorem finds_bind {work : Work α} {next : α → Work β} {post : Except HubError β → Prop}
    (passes : Passes wanted work) (rest : ∀ value, Finds wanted post (next value).run) :
    Finds wanted post (work >>= next).run := by
  refine Program.finds_bind (Program.Finds.mono ?_ passes)
  rintro _ ⟨value, rfl⟩
  exact rest value

theorem passes_bind {work : Work α} {next : α → Work β} (passes : Passes wanted work)
    (rest : ∀ value, Passes wanted (next value)) : Passes wanted (work >>= next) :=
  finds_bind passes rest

theorem asks_bind {work : Work α} {next : α → Work β} (passes : Passes wanted work)
    (rest : ∀ value, Asks wanted (next value)) : Asks wanted (work >>= next) :=
  finds_bind passes rest

theorem Asks.bind {work : Work α} (asks : Asks wanted work) (next : α → Work β) :
    Asks wanted (work >>= next) :=
  Program.finds_bind (Program.Finds.mono (fun _ => False.elim) asks)

theorem passes_askStore (request : StoreCall) : Passes wanted (askStore request) :=
  Or.inr fun value => ⟨value, rfl⟩

theorem asks_askStore (wanted : StoreCall) : Asks wanted (askStore wanted) := Or.inl rfl

theorem passes_checkpoint : Passes wanted checkpoint := ⟨(), rfl⟩

theorem passes_attempt (work : Work α) : Passes wanted (perform (attempt work)) :=
  Program.finds_bind ((Program.finds_trivial work.run).mono fun outcome _ => ⟨outcome, rfl⟩)

theorem Asks.attempt {work : Work α} (asks : Asks wanted work) :
    Asks wanted (perform (attempt work)) :=
  Program.finds_bind (Program.Finds.mono (fun _ => False.elim) asks)

theorem passes_attemptEach (work : α → Work Unit) (values : List α) :
    Passes wanted (attemptEach work values) := by
  induction values with
  | nil => exact passes_pure _
  | cons value rest ih =>
    refine passes_bind passes_checkpoint fun _ => ?_
    refine passes_bind (passes_attempt _) fun _ => ?_
    exact passes_bind ih fun _ => passes_pure _

end Work

end ModelHub
