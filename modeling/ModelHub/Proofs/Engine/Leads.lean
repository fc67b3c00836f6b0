import ModelHub.Proofs.Engine.Conditions

/-! What a program leads to, however its calls are answered within given bounds.

The condition is computed along the tree of the program. Work has two conditions, one on its value
and one on its failure. -/

namespace ModelHub

namespace Program

variable {σ τ α β : Type}

/-- The answers that a call may have at a state, with the state after it. -/
def Answers (σ : Type) := (call : Call) → σ → Except HubError call.Reply → σ → Prop

def Leads (answers : Answers σ) : Program α → σ → (α → σ → Prop) → Prop
  | done value, state, post => post value state
  | ask call next, state, post =>
    ∀ reply state', answers call state reply state' → Leads answers (next reply) state' post

variable {answers : Answers σ} {state : σ}

theorem leads_bind {program : Program α} {next : α → Program β} {post : β → σ → Prop} :
    Leads answers (program >>= next) state post ↔
      Leads answers program state fun value state => Leads answers (next value) state post := by
  induction program generalizing state with
  | done value => exact Iff.rfl
  | ask call answered ih =>
    constructor
    · intro leads reply state' answer
      exact (ih reply).mp (leads reply state' answer)
    · intro leads reply state' answer
      exact (ih reply).mpr (leads reply state' answer)

theorem Leads.mono {program : Program α} {post weaker : α → σ → Prop}
    (leads : Leads answers program state post)
    (weaken : ∀ value state, post value state → weaker value state) :
    Leads answers program state weaker := by
  induction program generalizing state with
  | done value => exact weaken value state leads
  | ask call answered ih =>
    intro reply state' answer
    exact ih reply (leads reply state' answer)

theorem Leads.narrow {fewer : Answers σ}
    (within : ∀ call state reply state', fewer call state reply state' →
      answers call state reply state')
    {program : Program α} {post : α → σ → Prop} (leads : Leads answers program state post) :
    Leads fewer program state post := by
  induction program generalizing state with
  | done value => exact leads
  | ask call answered ih =>
    intro reply state' answer
    exact ih reply (leads reply state' (within call state reply state' answer))

theorem sound_of_run {handler : Handler σ} {sound : σ → Prop}
    (back : ∀ call state reply state', handler call state = (some reply, state') →
      sound state' → sound state)
    {program : Program α} {value : α} {last : σ}
    (runs : run handler program state = (some value, last)) (lastSound : sound last) :
    sound state := by
  induction program generalizing state with
  | done value =>
    obtain ⟨-, rfl⟩ := Prod.mk.inj runs
    exact lastSound
  | ask call next ih =>
    simp only [run] at runs
    split at runs
    · next reply state' answered => exact back call state reply state' answered (ih reply runs)
    · cases (Prod.mk.inj runs).1

/-- A run ends as the program leads if the handler keeps to the answers, seen through a view of its
state, as long as the last state is sound. -/
theorem Leads.of_run {handler : Handler σ} {view : σ → τ} {answers : Answers τ} (sound : σ → Prop)
    (step : ∀ call state reply state', handler call state = (some reply, state') → sound state' →
      sound state ∧ answers call (view state) reply (view state'))
    {program : Program α} {post : α → τ → Prop} {value : α} {last : σ}
    (leads : Leads answers program (view state) post)
    (runs : run handler program state = (some value, last)) (lastSound : sound last) :
    post value (view last) := by
  induction program generalizing state with
  | done result =>
    obtain ⟨same, rfl⟩ := Prod.mk.inj runs
    obtain rfl := Option.some.inj same
    exact leads
  | ask call next ih =>
    simp only [run] at runs
    split at runs
    · next reply state' answered =>
      have soundAfter : sound state' := by
        refine sound_of_run ?_ runs lastSound
        intro call state reply state' answered after
        exact (step call state reply state' answered after).1
      have answer := (step call state reply state' answered soundAfter).2
      exact ih reply (leads reply (view state') answer) runs
    · cases (Prod.mk.inj runs).1

end Program

namespace Work

open Program (Answers)

variable {σ α β : Type}

def either (good : α → σ → Prop) (bad : HubError → σ → Prop) : Except HubError α → σ → Prop
  | .ok value, state => good value state
  | .error e, state => bad e state

def Leads (answers : Answers σ) (work : Work α) (state : σ) (good : α → σ → Prop)
    (bad : HubError → σ → Prop) : Prop :=
  Program.Leads answers work.run state (either good bad)

variable {answers : Answers σ} {state : σ} {bad : HubError → σ → Prop}

theorem leads_pure {value : α} {good : α → σ → Prop} :
    Leads answers (pure value) state good bad ↔ good value state := Iff.rfl

theorem leads_bind {work : Work α} {next : α → Work β} {good : β → σ → Prop} :
    Leads answers (work >>= next) state good bad ↔
      Leads answers work state (fun value state => Leads answers (next value) state good bad)
        bad := by
  have afterwards : ∀ (outcome : Except HubError α) (state' : σ),
      Program.Leads answers (ExceptT.bindCont next outcome) state' (either good bad) ↔
        either (fun value state => Leads answers (next value) state good bad) bad
          outcome state' := by
    intro outcome state'
    cases outcome with
    | ok value => exact Iff.rfl
    | error e => exact Iff.rfl
  constructor
  · intro leads
    refine (Program.leads_bind.mp leads).mono ?_
    intro outcome state' after
    exact (afterwards outcome state').mp after
  · intro leads
    refine Program.leads_bind.mpr (Program.Leads.mono leads ?_)
    intro outcome state' after
    exact (afterwards outcome state').mpr after

theorem Leads.mono {work : Work α} {good better : α → σ → Prop} {worse : HubError → σ → Prop}
    (leads : Leads answers work state good bad)
    (onValue : ∀ value state, good value state → better value state)
    (onFailure : ∀ e state, bad e state → worse e state) :
    Leads answers work state better worse := by
  refine Program.Leads.mono leads ?_
  intro outcome state' after
  cases outcome with
  | ok value => exact onValue value state' after
  | error e => exact onFailure e state' after

theorem Leads.attempt {work : Work α} {kept : σ → Prop}
    (leads : Leads answers work state (fun _ state => kept state) fun _ state => kept state) :
    Program.Leads answers (attempt work) state fun _ state => kept state := by
  refine Program.Leads.mono leads fun outcome state' after => ?_
  cases outcome <;> exact after

end Work

end ModelHub
