import ModelHub.Proofs.Engine.Abides

namespace ModelHub

open Program (Leads)

variable {kept : Store → Prop} {α β : Type}

namespace Program

/-- The condition holds in the end if it held in the beginning, and so does another of the value. -/
def Keeps (kept : Store → Prop) (program : Program α) (post : α → Prop) : Prop :=
  ∀ store, kept store →
    Leads Store.anyAnswers program store fun value after => kept after ∧ post value

theorem keeps_done {value : α} {post : α → Prop} (holds : post value) :
    Keeps kept (.done value) post := fun _ held => ⟨held, holds⟩

theorem keeps_bind {program : Program α} {next : α → Program β} {mid : α → Prop}
    {post : β → Prop} (first : Keeps kept program mid)
    (rest : ∀ value, mid value → Keeps kept (next value) post) :
    Keeps kept (program >>= next) post := by
  intro store held
  refine leads_bind.mpr ((first store held).mono ?_)
  intro value after ended
  exact rest value ended.2 after ended.1

theorem keeps_ask {call : Call} (isElsewhere : ∀ store reply after,
      Store.anyAnswers call store reply after → after = store)
    {next : Except HubError call.Reply → Program α} {post : α → Prop}
    (rest : ∀ reply, Keeps kept (next reply) post) : Keeps kept (.ask call next) post := by
  intro store held reply after answered
  obtain rfl := isElsewhere store reply after answered
  exact rest reply after held

theorem keeps_isCancelled : Keeps kept Work.isCancelled fun _ => True :=
  keeps_ask (fun _ _ _ => id) fun reply => by cases reply <;> exact keeps_done trivial

end Program

namespace Work

open Program (keeps_ask keeps_bind keeps_done keeps_isCancelled)

def Keeps (kept : Store → Prop) (work : Work α) (good : α → Prop) : Prop :=
  Program.Keeps kept work.run fun outcome => ∀ value, outcome = .ok value → good value

theorem keeps_pure {value : α} {good : α → Prop} (holds : good value) :
    Keeps kept (pure value) good :=
  Program.keeps_done fun _ same => Except.ok.inj same ▸ holds

theorem keeps_throw {e : HubError} {good : α → Prop} : Keeps kept (throw e) good :=
  Program.keeps_done fun _ same => nomatch same

theorem keeps_bind {work : Work α} {next : α → Work β} {mid : α → Prop} {good : β → Prop}
    (first : Keeps kept work mid) (rest : ∀ value, mid value → Keeps kept (next value) good) :
    Keeps kept (work >>= next) good := by
  refine Program.keeps_bind first fun outcome held => ?_
  cases outcome with
  | ok value => exact rest value (held value rfl)
  | error e => exact Program.keeps_done fun _ same => nomatch same

theorem keeps_mk_bind {outcome : Except HubError α} {next : α → Work β} {good : β → Prop}
    (rest : ∀ value, outcome = .ok value → Keeps kept (next value) good) :
    Keeps kept (ExceptT.mk (pure outcome) >>= next) good := by
  cases outcome with
  | ok value => exact rest value rfl
  | error e => exact Program.keeps_done fun _ same => nomatch same

theorem keeps_perform {program : Program α} (keeps : Program.Keeps kept program fun _ => True) :
    Keeps kept (perform program) fun _ => True :=
  Program.keeps_bind keeps fun _ _ => Program.keeps_done fun _ _ => trivial

theorem keeps_attempt {work : Work α} {good : α → Prop} (keeps : Keeps kept work good) :
    Program.Keeps kept (attempt work) fun _ => True := by
  intro store held
  exact (keeps store held).mono fun _ _ ended => ⟨ended.1, trivial⟩

theorem keeps_ask {call : Call} (isElsewhere : ∀ store reply after,
      Store.anyAnswers call store reply after → after = store) :
    Keeps kept (Work.ask call) fun _ => True :=
  Program.keeps_ask isElsewhere fun _ => Program.keeps_done fun _ _ => trivial

theorem keeps_of_leads {work : Work α} {good : α → Prop}
    (leads : ∀ store, kept store → Leads Store.anyAnswers work store
      (fun value after => kept after ∧ good value) fun _ after => kept after) :
    Keeps kept work good := by
  intro store held
  refine Program.Leads.mono (leads store held) ?_
  intro outcome after ended
  cases outcome with
  | ok value => exact ⟨ended.1, fun _ same => Except.ok.inj same ▸ ended.2⟩
  | error e => exact ⟨ended, fun _ same => nomatch same⟩

theorem leads_of_keeps {work : Work α} {good : α → Prop} (keeps : Keeps kept work good)
    {store : Store} (held : kept store) :
    Leads Store.anyAnswers work store (fun value after => kept after ∧ good value)
      fun _ after => kept after := by
  refine Program.Leads.mono (keeps store held) ?_
  intro outcome after ended
  cases outcome with
  | ok value => exact ⟨ended.1, ended.2 value rfl⟩
  | error e => exact ended.1

/-- A store call that fails, as planned or because a row cannot be read, changes nothing. -/
theorem leads_storeCall {request : StoreCall} {store : Store} {good : request.Reply → Store → Prop}
    {bad : HubError → Store → Prop}
    (onValue : ∀ value after, store.perform request = (.ok value, after) → good value after)
    (onFailure : ∀ e, bad e store) :
    Leads Store.anyAnswers (askStore request) store good bad := by
  intro reply after answered
  cases reply with
  | ok value =>
    rcases answered with performed | ⟨⟨e, failed⟩, -⟩
    · exact onValue value after performed
    · cases failed
  | error e =>
    rcases answered with performed | ⟨-, rfl⟩
    · obtain ⟨rfl, -⟩ := Store.perform_error performed
      exact onFailure e
    · exact onFailure e

theorem keeps_askStore {request : StoreCall}
    (keeps : ∀ store, kept store → kept (store.perform request).2) :
    Keeps kept (askStore request) fun _ => True := by
  refine keeps_of_leads fun store held => leads_storeCall ?_ fun _ => held
  intro value after performed
  have step := keeps store held
  rw [performed] at step
  exact ⟨step, trivial⟩

theorem keeps_checkpoint : Keeps kept checkpoint fun _ => True := by
  refine keeps_bind (keeps_perform keeps_isCancelled) fun isCancelled _ => ?_
  cases isCancelled
  · exact keeps_pure trivial
  · exact keeps_throw

theorem keeps_fetch {request : FileRequest} {limit : Duration} :
    Keeps kept (fetch request limit) fun _ => True :=
  keeps_bind keeps_checkpoint fun _ _ => keeps_ask fun _ _ _ => id

theorem keeps_holding {repositoryId : Int} {work : Work α} (keeps : Keeps kept work fun _ => True) :
    Keeps kept (holding repositoryId work) fun _ => True := by
  refine keeps_bind keeps_checkpoint fun _ _ => ?_
  refine keeps_bind (keeps_ask fun _ _ _ => id) fun _ _ => ?_
  refine keeps_bind (keeps_perform (keeps_attempt keeps)) fun outcome _ => ?_
  refine keeps_bind (keeps_perform ?_) fun _ _ => ?_
  · exact Program.keeps_ask (fun _ _ _ => id) fun _ => Program.keeps_done trivial
  · exact Program.keeps_done fun _ _ => trivial

/-- Attempts on the values of a list where each attempt relies on something about the values that
are left, and may use it up. -/
theorem leads_attemptEach {work : α → Work Unit} {kept : List α → Store → Prop}
    (drop : ∀ value rest store, kept (value :: rest) store → kept rest store)
    (step : ∀ value rest store, kept (value :: rest) store →
      Leads Store.anyAnswers (work value) store (fun _ after => kept rest after)
        fun _ after => kept rest after)
    (values : List α) {store : Store} (held : kept values store) :
    Leads Store.anyAnswers (attemptEach work values) store (fun _ after => kept [] after)
      fun _ after => kept [] after := by
  have dropAll : ∀ (values : List α) store, kept values store → kept [] store := by
    intro values store held
    induction values with
    | nil => exact held
    | cons value rest ih => exact ih (drop value rest store held)
  induction values generalizing store with
  | nil => exact held
  | cons value rest ih =>
    refine leads_bind.mpr ?_
    have checked : Keeps (kept (value :: rest)) checkpoint fun _ => True := keeps_checkpoint
    refine (leads_of_keeps checked held).mono ?_ fun _ after stopped => dropAll _ after stopped
    intro _ before ready
    refine leads_bind.mpr (Program.leads_bind.mpr ?_)
    refine Program.Leads.mono (step value rest before ready.1) ?_
    intro outcome middle attempted
    have onward : kept rest middle := by cases outcome <;> exact attempted
    refine leads_bind.mpr ((ih onward).mono ?_ fun _ _ => id)
    exact fun _ _ done => done

theorem keeps_attemptEach {work : α → Work Unit}
    (each : ∀ value, Keeps kept (work value) fun _ => True) (values : List α) :
    Keeps kept (attemptEach work values) fun _ => True := by
  refine keeps_of_leads fun store held => ?_
  have step : ∀ value (_ : List α) store, kept store → Leads Store.anyAnswers (work value) store
      (fun _ after => kept after) fun _ after => kept after := by
    intro value _ store ready
    exact (leads_of_keeps (each value) ready).mono (fun _ _ => And.left) fun _ _ => id
  have attempted := @leads_attemptEach _ work (fun _ => kept) (fun _ _ _ => id) step values _ held
  exact attempted.mono (fun _ _ ended => ⟨ended, trivial⟩) fun _ _ => id

theorem keeps_of_abides {allowed : Call → Store → Prop} {work : Work α}
    (step : ∀ call store reply after, allowed call store → kept store →
      Store.anyAnswers call store reply after → kept after)
    (abides : Abides allowed work) : Keeps kept work fun _ => True := by
  intro store held
  exact ((abides store).keeps step held).mono fun _ _ ended => ⟨ended, fun _ _ => trivial⟩

end Work

end ModelHub
