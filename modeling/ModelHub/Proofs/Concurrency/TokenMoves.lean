import ModelHub.Proofs.Concurrency.WakeUps

namespace ModelHub

namespace Runner

theorem outcome?_eq_some {runner : Runner} {outcome : Outcome} :
    runner.outcome? = some outcome ↔ runner.phase = .ended outcome := by
  unfold outcome?
  split
  · next last ended => rw [ended, Option.some_inj, Phase.ended.injEq]
  · next going => exact ⟨nofun, fun ended => absurd ended (going outcome)⟩

structure Becomes (runner after : Runner) : Prop where
  cell : after.cell = runner.cell
  finish : after.finish = runner.finish
  ended : ∀ outcome, runner.phase = .ended outcome → after.phase = .ended outcome

theorem Becomes.refl (runner : Runner) : runner.Becomes runner := ⟨rfl, rfl, fun _ => id⟩

theorem Becomes.trans {first second third : Runner} (one : first.Becomes second)
    (two : second.Becomes third) : first.Becomes third :=
  ⟨two.cell.trans one.cell, two.finish.trans one.finish,
    fun outcome ended => two.ended outcome (one.ended outcome ended)⟩

theorem Becomes.going {runner after : Runner} (becomes : runner.Becomes after)
    (going : after.outcome? = none) : runner.outcome? = none := by
  refine Option.eq_none_iff_forall_ne_some.mpr fun outcome was => ?_
  have ended := becomes.ended outcome (outcome?_eq_some.mp was)
  rw [outcome?_eq_some.mpr ended] at going
  cases going

theorem becomes_next (clock : Nat) (signal : Signal) (runner : Runner) :
    runner.Becomes (runner.next clock signal) :=
  ⟨next_cell .., next_finish .., fun outcome ended => by simp only [next, ended]⟩

theorem becomes_woken (cell : Nat) (runner : Runner) : runner.Becomes (runner.woken cell) := by
  unfold woken
  split
  · exact ⟨rfl, rfl, fun _ => id⟩
  · exact .refl runner

theorem becomes_abandon (runner : Runner) : runner.Becomes runner.abandon := by
  unfold abandon
  split
  · exact .refl runner
  · next going => exact ⟨rfl, rfl, fun outcome ended => absurd ended (going outcome)⟩

end Runner

namespace Tokens

variable {tokens : Tokens} {cell i : Nat} {runner : Runner} {name : String}
  {source : Option String}

theorem lookup_append {entries : List (String × Nat)} (known : entries.lookup name = some cell)
    (more : List (String × Nat)) : (entries ++ more).lookup name = some cell := by
  rw [List.lookup_append, known, Option.some_or]

theorem lookup_introduce (tokens : Tokens) (name : String) (source : Option String) :
    (tokens.introduce name source).1.cells.lookup name =
      some (tokens.introduce name source).2 := by
  unfold introduce
  split
  · assumption
  · next unknown => simp [List.lookup_append, unknown]

theorem lookup_introduce_of_known {other : String}
    (known : tokens.cells.lookup other = some cell) :
    (tokens.introduce name source).1.cells.lookup other = some cell := by
  unfold introduce
  split
  · exact known
  · exact lookup_append known _

theorem introduce_clone {other : String} (unknown : tokens.cells.lookup name = none)
    (known : tokens.cells.lookup other = some cell) :
    (tokens.introduce name (some other)).2 = cell := by
  simp [introduce, unknown, known]

theorem introduce_new (unknown : tokens.cells.lookup name = none)
    (sourceless : (source.bind fun other => tokens.cells.lookup other) = none) :
    (tokens.introduce name source).2 = tokens.cells.length := by
  simp [introduce, unknown, sourceless]

section Frame

variable (tokens : Tokens) (name : String) (source : Option String)

@[simp] theorem introduce_clock : (tokens.introduce name source).1.clock = tokens.clock := by
  rw [introduce_eq]

@[simp] theorem introduce_cancelled :
    (tokens.introduce name source).1.cancelled = tokens.cancelled := by
  rw [introduce_eq]

@[simp] theorem introduce_errands :
    (tokens.introduce name source).1.errands = tokens.errands := by
  rw [introduce_eq]

@[simp] theorem introduce_waiters :
    (tokens.introduce name source).1.waiters = tokens.waiters := by
  rw [introduce_eq]

@[simp] theorem introduce_runners :
    (tokens.introduce name source).1.runners = tokens.runners := by
  rw [introduce_eq]

end Frame

@[simp] theorem assign_cells (tokens : Tokens) (cell : Nat) (what : Step) :
    (tokens.assign cell what).cells = tokens.cells := by
  cases what <;> rfl

@[simp] theorem affect_cells (tokens : Tokens) (errand : Errand) :
    (tokens.affect errand).cells = tokens.cells := by
  unfold affect
  split
  · split <;> rfl
  · rfl
  · rfl

theorem move_cells (tokens : Tokens) (act : Move) :
    (tokens.move act).cells =
      match act with
      | .order name source _ => (tokens.introduce name source).1.cells
      | _ => tokens.cells := by
  cases act with
  | order name source what => exact assign_cells ..
  | errand i =>
    simp only [move]
    split
    · rfl
    · exact affect_cells ..
  | waiter i | runner i | abandon i => rfl
  | pass instant =>
    simp only [move]
    split <;> rfl

theorem lookup_order {what : Step} :
    (tokens.move (.order name source what)).cells.lookup name =
      some (tokens.introduce name source).2 := by
  rw [move_cells]
  exact lookup_introduce ..

theorem lookup_move (act : Move) (known : tokens.cells.lookup name = some cell) :
    (tokens.move act).cells.lookup name = some cell := by
  rw [move_cells]
  split
  · exact lookup_introduce_of_known known
  · exact known

def asked (tokens : Tokens) : Move → List (Nat × Nat)
  | .order name source .cancel => [((tokens.introduce name source).2, tokens.clock)]
  | .order name source (.cancelAfter delay) =>
    [((tokens.introduce name source).2, tokens.clock + delay)]
  | _ => []

theorem move_appointments (tokens : Tokens) (act : Move) :
    (tokens.move act).appointments = tokens.appointments ++ tokens.asked act := by
  cases act with
  | order name source what =>
    cases what <;> simp [move, assign, asked, appointments]
  | errand i =>
    simp only [move, asked, List.append_nil]
    split
    · rfl
    · exact appointments_modify ..
  | waiter i | runner i | abandon i => exact (List.append_nil _).symm
  | pass instant =>
    simp only [move, asked, List.append_nil]
    split <;> rfl

theorem move_cancelled_of_other {act : Move} (other : ∀ i, act ≠ .errand i) :
    (tokens.move act).cancelled = tokens.cancelled := by
  cases act with
  | order name source what =>
    cases what <;> exact introduce_cancelled ..
  | errand i => exact absurd rfl (other i)
  | waiter i | runner i | abandon i => rfl
  | pass instant =>
    simp only [move]
    split <;> rfl

/-- A flag is set by a cancellation of its cell whose instant has come, and stays. -/
theorem cancelled_move (tokens : Tokens) (act : Move) (cell : Nat) :
    (tokens.move act).isCancelled cell ↔ tokens.isCancelled cell ∨
      ∃ i errand, act = .errand i ∧ tokens.errands[i]? = some errand ∧ errand.cell = cell ∧
        errand.stage = .waiting ∧ errand.due ≤ tokens.clock := by
  by_cases isErrand : ∃ i, act = .errand i
  · obtain ⟨i, rfl⟩ := isErrand
    cases found : tokens.errands[i]? with
    | none => simp [move, found]
    | some errand =>
      cases stage : errand.stage with
      | waiting =>
        by_cases due : errand.due ≤ tokens.clock
        · have either : cell = errand.cell ∨ cell ∈ tokens.cancelled ↔
              cell ∈ tokens.cancelled ∨ errand.cell = cell :=
            or_comm.trans (or_congr_right eq_comm)
          simpa [move, found, affect, stage, due, isCancelled] using either
        · simp [move, found, affect, stage, due, isCancelled]
      | calling => simp [move, found, affect, stage, wake, isCancelled]
      | done => simp [move, found, affect, stage, isCancelled]
  · have other (i : Nat) : act ≠ .errand i := fun same => isErrand ⟨i, same⟩
    simp only [isCancelled, move_cancelled_of_other other]
    refine ⟨.inl, fun either => either.resolve_right ?_⟩
    rintro ⟨i, -, same, -⟩
    exact other i same

theorem runner_after (found : tokens.runners[i]? = some runner) (act : Move) :
    ∃ after, (tokens.move act).runners[i]? = some after ∧
      (after = runner ∨ after = runner.next tokens.clock (tokens.signal runner.cell) ∨
        (∃ cell, after = runner.woken cell) ∨ act = .abandon i ∧ after = runner.abandon) := by
  cases act with
  | order name source what =>
    refine ⟨runner, ?_, .inl rfl⟩
    cases what with
    | run length =>
      have inside := (List.getElem?_eq_some_iff.mp found).1
      simp only [move, assign, introduce_runners]
      rw [List.getElem?_append_left inside, found]
    | create | cancel | cancelAfter delay | advance delay | check | wait task =>
      simpa only [move, assign, introduce_runners] using found
  | errand j =>
    cases at_j : tokens.errands[j]? with
    | none => exact ⟨runner, by simpa only [move, at_j] using found, .inl rfl⟩
    | some errand =>
      cases stage : errand.stage with
      | waiting =>
        refine ⟨runner, ?_, .inl rfl⟩
        simp only [move, at_j, affect, stage]
        split <;> exact found
      | calling =>
        refine ⟨runner.woken errand.cell, ?_, .inr (.inr (.inl ⟨_, rfl⟩))⟩
        simp [move, at_j, affect, stage, wake, found]
      | done => exact ⟨runner, by simpa only [move, at_j, affect, stage] using found, .inl rfl⟩
  | waiter j => exact ⟨runner, found, .inl rfl⟩
  | runner j =>
    by_cases own : j = i
    · subst own
      exact ⟨_, by simp [move, found], .inr (.inl rfl)⟩
    · exact ⟨runner, by simp [move, found, own], .inl rfl⟩
  | abandon j =>
    by_cases own : j = i
    · subst own
      exact ⟨runner.abandon, by simp [move, found], .inr (.inr (.inr ⟨rfl, rfl⟩))⟩
    · exact ⟨runner, by simp [move, found, own], .inl rfl⟩
  | pass instant =>
    refine ⟨runner, ?_, .inl rfl⟩
    simp only [move]
    split <;> exact found

theorem becomes_move (found : tokens.runners[i]? = some runner) (act : Move) :
    ∃ after, (tokens.move act).runners[i]? = some after ∧ runner.Becomes after := by
  obtain ⟨after, now, rfl | rfl | ⟨cell, rfl⟩ | ⟨-, rfl⟩⟩ := runner_after found act
  · exact ⟨_, now, .refl _⟩
  · exact ⟨_, now, runner.becomes_next _ _⟩
  · exact ⟨_, now, runner.becomes_woken _⟩
  · exact ⟨_, now, runner.becomes_abandon⟩

theorem becomes_play (found : tokens.runners[i]? = some runner) (moves : List Move) :
    ∃ after, (tokens.play moves).runners[i]? = some after ∧ runner.Becomes after := by
  induction moves generalizing tokens runner with
  | nil => exact ⟨runner, found, .refl _⟩
  | cons act moves ih =>
    obtain ⟨after, now, one⟩ := becomes_move found act
    obtain ⟨last, at_last, rest⟩ := ih now
    exact ⟨last, at_last, one.trans rest⟩

end Tokens

/-- The run has never got beyond its first look at the flag, to its task. -/
def Runner.Refused (runner : Runner) : Prop :=
  runner.phase = .checking ∨ runner.phase = .ended .cancelled ∨ runner.phase = .ended .abandoned

namespace Tokens

variable {tokens : Tokens} {name : String} {cell i : Nat} {runner : Runner}

theorem refused_move (set : tokens.isCancelled runner.cell)
    (found : tokens.runners[i]? = some runner) (refused : runner.Refused) (act : Move) :
    ∃ after, (tokens.move act).runners[i]? = some after ∧ after.cell = runner.cell ∧
      after.Refused := by
  obtain ⟨after, now, becomes⟩ := runner_after found act
  refine ⟨after, now, ?_⟩
  obtain rfl | rfl | ⟨cell, rfl⟩ | ⟨-, rfl⟩ := becomes
  · exact ⟨rfl, refused⟩
  · refine ⟨Runner.next_cell .., ?_⟩
    obtain checking | ended := refused
    · exact .inr (.inl (by simp [Runner.next, checking, signal, set]))
    · refine .inr (ended.imp ?_ ?_) <;> exact (runner.becomes_next _ _).ended _
  · refine ⟨(runner.becomes_woken cell).cell, ?_⟩
    have same : (runner.woken cell).phase = runner.phase := by
      unfold Runner.woken
      split <;> rfl
    simpa only [Runner.Refused, same] using refused
  · refine ⟨runner.becomes_abandon.cell, ?_⟩
    obtain checking | ended := refused
    · exact .inr (.inr (by simp [Runner.abandon, checking]))
    · refine .inr (ended.imp ?_ ?_) <;> exact runner.becomes_abandon.ended _

theorem refused_play (set : tokens.isCancelled runner.cell)
    (found : tokens.runners[i]? = some runner) (refused : runner.Refused) (moves : List Move) :
    ∃ after, (tokens.play moves).runners[i]? = some after ∧ after.Refused := by
  induction moves generalizing tokens runner with
  | nil => exact ⟨runner, found, refused⟩
  | cons act moves ih =>
    obtain ⟨after, now, same, still⟩ := refused_move set found refused act
    exact ih ((cancelled_move tokens act _).mpr (.inl (same ▸ set))) now still

/-- A cell that no token has yet is named by the number of tokens. -/
structure Registered (tokens : Tokens) : Prop where
  cells : ∀ entry ∈ tokens.cells, entry.2 < tokens.cells.length
  appointments : ∀ entry ∈ tokens.appointments, entry.1 < tokens.cells.length

theorem registered_empty : Registered {} := ⟨nofun, nofun⟩

theorem mem_of_lookup {entries : List (String × Nat)} (known : entries.lookup name = some cell) :
    (name, cell) ∈ entries := by
  obtain ⟨before, after, rfl, -⟩ := List.lookup_eq_some_iff.mp known
  simp

theorem introduce_length (tokens : Tokens) (name : String) (source : Option String) :
    tokens.cells.length ≤ (tokens.introduce name source).1.cells.length := by
  unfold introduce
  split
  · exact Nat.le_refl _
  · simp

theorem Registered.introduced (registered : tokens.Registered) (name : String)
    (source : Option String) :
    ∀ entry ∈ (tokens.introduce name source).1.cells,
      entry.2 < (tokens.introduce name source).1.cells.length := by
  unfold introduce
  split
  · exact registered.cells
  · next unknown =>
    have bound : (source.bind fun other => tokens.cells.lookup other).getD tokens.cells.length <
        tokens.cells.length + 1 := by
      cases copied : source.bind fun other => tokens.cells.lookup other with
      | none => exact Nat.lt_succ_self _
      | some cell =>
        obtain ⟨other, -, known⟩ := Option.bind_eq_some_iff.mp copied
        exact Nat.lt_succ_of_lt (registered.cells _ (mem_of_lookup known))
    intro entry member
    simp only [List.length_append, List.length_singleton]
    obtain old | new := List.mem_append.mp member
    · exact Nat.lt_succ_of_lt (registered.cells entry old)
    · cases List.mem_singleton.mp new
      exact bound

theorem Registered.move (registered : tokens.Registered) (act : Move) :
    (tokens.move act).Registered := by
  have larger : tokens.cells.length ≤ (tokens.move act).cells.length := by
    rw [move_cells]
    split
    · exact introduce_length ..
    · exact Nat.le_refl _
  have cells : ∀ entry ∈ (tokens.move act).cells, entry.2 < (tokens.move act).cells.length := by
    rw [move_cells]
    split
    · exact registered.introduced _ _
    · exact registered.cells
  refine ⟨cells, fun entry member => ?_⟩
  rw [move_appointments] at member
  obtain old | new := List.mem_append.mp member
  · exact Nat.lt_of_lt_of_le (registered.appointments entry old) larger
  · -- Only orders ask for cancellations, and only in the cell of their own token.
    unfold asked at new
    split at new
    · cases List.mem_singleton.mp new
      exact cells _ (mem_of_lookup lookup_order)
    · cases List.mem_singleton.mp new
      exact cells _ (mem_of_lookup lookup_order)
    · cases new

theorem Registered.play (registered : tokens.Registered) (moves : List Move) :
    (tokens.play moves).Registered := by
  induction moves generalizing tokens with
  | nil => exact registered
  | cons act moves ih => exact ih (registered.move act)

structure Continues (tokens later : Tokens) : Prop where
  clock : tokens.clock ≤ later.clock
  cells : later.cells = tokens.cells
  appointments : later.appointments = tokens.appointments
  pending : ∀ instant ∈ later.pending, instant ∈ tokens.pending

theorem Continues.refl (tokens : Tokens) : tokens.Continues tokens :=
  ⟨Nat.le_refl _, rfl, rfl, fun _ => id⟩

theorem Continues.trans {first second third : Tokens} (one : first.Continues second)
    (two : second.Continues third) : first.Continues third :=
  ⟨Nat.le_trans one.clock two.clock, two.cells.trans one.cells,
    two.appointments.trans one.appointments,
    fun instant found => one.pending instant (two.pending instant found)⟩

def Move.isSilent : Move → Bool
  | .order _ _ _ => false
  | _ => true

theorem affect_clock (tokens : Tokens) (errand : Errand) :
    (tokens.affect errand).clock = tokens.clock := by
  unfold affect
  split
  · split <;> rfl
  · rfl
  · rfl

theorem move_errand_clock (tokens : Tokens) (i : Nat) :
    (tokens.move (.errand i)).clock = tokens.clock := by
  simp only [move]
  split
  · rfl
  · exact affect_clock tokens _

theorem move_errand_errands (tokens : Tokens) (i : Nat) :
    (tokens.move (.errand i)).errands = tokens.errands.modify i (·.next tokens.clock) := by
  simp only [move]
  split
  · next none => exact (List.modify_eq_self (List.getElem?_eq_none_iff.mp none)).symm
  · rfl

theorem move_clock {act : Move} (silent : act.isSilent) :
    tokens.clock ≤ (tokens.move act).clock := by
  cases act with
  | order name source what => cases silent
  | errand i => exact Nat.le_of_eq (move_errand_clock tokens i).symm
  | waiter i | runner i | abandon i => exact Nat.le_refl _
  | pass instant =>
    simp only [move]
    split
    · next may => exact (mayPass_iff.mp may).1
    · exact Nat.le_refl _

theorem move_runners_length {act : Move} (silent : act.isSilent) :
    (tokens.move act).runners.length = tokens.runners.length := by
  cases act with
  | order name source what => cases silent
  | errand i =>
    simp only [move]
    split
    · rfl
    · unfold affect
      split
      · split <;> rfl
      · exact List.length_map ..
      · rfl
  | waiter i => rfl
  | runner i | abandon i => exact List.length_modify ..
  | pass instant =>
    simp only [move]
    split <;> rfl

theorem waiting_before {act : Move} (silent : act.isSilent) {errand : Errand}
    (member : errand ∈ (tokens.move act).errands) (waiting : errand.stage = .waiting) :
    ∃ old ∈ tokens.errands, old.stage = .waiting ∧ old.due = errand.due := by
  cases act with
  | order name source what => cases silent
  | errand i =>
    rw [move_errand_errands] at member
    obtain old | ⟨old, was, rfl⟩ := mem_of_mem_modify member
    · exact ⟨errand, old, waiting, rfl⟩
    · refine ⟨old, List.mem_of_getElem? was, ?_, (old.next_due _).symm⟩
      exact of_not_not fun begun => Errand.acted_next (.inr begun) waiting
  | waiter i | runner i | abandon i => exact ⟨errand, member, waiting, rfl⟩
  | pass instant =>
    simp only [move] at member
    split at member <;> exact ⟨errand, member, waiting, rfl⟩

theorem continues_move {act : Move} (silent : act.isSilent) :
    tokens.Continues (tokens.move act) := by
  refine ⟨move_clock silent, ?_, ?_, fun instant found => mem_pending.mpr ?_⟩
  · rw [move_cells]
    cases act with
    | order name source what => cases silent
    | _ => rfl
  · rw [move_appointments]
    cases act with
    | order name source what => cases silent
    | _ => exact List.append_nil _
  · obtain ⟨errand, member, waiting, rfl⟩ | ⟨runner, member, going, finish⟩ := mem_pending.mp found
    · exact .inl (waiting_before silent member waiting)
    · obtain ⟨i, at_i⟩ := List.mem_iff_getElem?.mp member
      have inside : i < tokens.runners.length :=
        move_runners_length silent ▸ (List.getElem?_eq_some_iff.mp at_i).1
      have was := List.getElem?_eq_getElem inside
      obtain ⟨after, now, becomes⟩ := becomes_move was act
      cases now.symm.trans at_i
      exact .inr ⟨_, List.getElem_mem inside, becomes.going going, becomes.finish ▸ finish⟩

theorem continues_play {moves : List Move} (silent : ∀ act ∈ moves, act.isSilent) :
    tokens.Continues (tokens.play moves) := by
  induction moves generalizing tokens with
  | nil => exact .refl tokens
  | cons act moves ih =>
    exact (continues_move (silent act List.mem_cons_self)).trans
      (ih fun act member => silent act (List.mem_cons_of_mem _ member))

end Tokens

end ModelHub
