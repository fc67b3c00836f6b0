import Mathlib.Logic.Function.Iterate
import ModelHub.Proofs.Concurrency.TokenMoves

namespace ModelHub

/-! ## How many acts are left to a task -/

theorem iterate_falls {α : Type} (rank : α → Nat) (next : α → α)
    (falls : ∀ x, rank (next x) ≤ rank x - 1) (acts : Nat) (x : α) :
    rank (next^[acts] x) ≤ rank x - acts := by
  induction acts generalizing x with
  | zero => exact Nat.le_refl _
  | succ acts ih =>
    rw [Function.iterate_succ_apply]
    have one := falls x
    have rest := ih (next x)
    omega

namespace Wait

/-- The acts before who waits is in the queue or has resolved, with nobody else acting. -/
def rank (signal : Signal) : Wait → Nat
  | starting => 3
  | listening since => if since = signal.calls then 2 else 5
  | unset since => if since = signal.calls then 1 else 4
  | parked | resolved => 0

theorem rank_le (signal : Signal) (wait : Wait) : wait.rank signal ≤ 5 := by
  unfold rank
  grind

theorem rank_next (signal : Signal) (wait : Wait) :
    (wait.next signal).rank signal ≤ wait.rank signal - 1 := by
  unfold next
  grind [rank]

theorem isIdle_of_rank {signal : Signal} {wait : Wait} (none : wait.rank signal = 0) :
    wait.isIdle := by
  unfold rank at none
  grind [isIdle]

end Wait

namespace Runner

def rank (clock : Nat) (signal : Signal) (runner : Runner) : Nat :=
  match runner.phase with
  | .checking => runner.wait.rank signal + 3
  | .token => runner.wait.rank signal + 2
  | .task =>
    if runner.isReady clock || runner.wait = .parked then 1 else runner.wait.rank signal + 4
  | .suspended => if runner.isAsleep clock then 0 else runner.wait.rank signal + 3
  | .ended _ => 0

theorem rank_le (clock : Nat) (signal : Signal) (runner : Runner) :
    runner.rank clock signal ≤ 9 := by
  have bound := runner.wait.rank_le signal
  unfold rank
  grind

theorem rank_next (clock : Nat) (signal : Signal) (runner : Runner) :
    (runner.next clock signal).rank clock signal ≤ runner.rank clock signal - 1 := by
  have waits := runner.wait.rank_next signal
  obtain ⟨cell, finish, phase, wait⟩ := runner
  cases phase with
  | ended outcome => exact Nat.le_refl _
  | checking =>
    simp only [next]
    split <;> simp [rank]
  | token =>
    simp only [next]
    cases after : wait.next signal with
    | parked | resolved => simp [rank]
    | starting | listening since | unset since =>
      simp only [after, rank, Wait.rank] at waits ⊢
      grind
  | task =>
    simp only [next]
    split
    · simp [rank]
    · next busy =>
      cases wait <;> simp_all [rank, isAsleep, isReady, Wait.rank]
  | suspended =>
    simp only [next]
    split
    · next asleep => simp [rank, asleep]
    · next awake => simp [rank, awake]

theorem isIdle_of_rank {clock : Nat} {signal : Signal} {runner : Runner}
    (none : runner.rank clock signal = 0) : runner.isIdle clock := by
  unfold rank at none
  unfold isIdle
  grind

theorem isIdle_iterate (clock : Nat) (signals : Nat → Signal) (runner : Runner) :
    ((fun runner => next clock (signals runner.cell) runner)^[9] runner).isIdle clock := by
  have falls := iterate_falls (fun runner => runner.rank clock (signals runner.cell))
    (fun runner => next clock (signals runner.cell) runner)
    (fun runner => by simpa using runner.rank_next clock (signals runner.cell)) 9 runner
  have bound := runner.rank_le clock (signals runner.cell)
  exact isIdle_of_rank (Nat.le_zero.mp (Nat.le_trans falls (by simp [bound])))

end Runner

theorem Waiter.isIdle_iterate (signals : Nat → Signal) (waiter : Waiter) :
    ((fun waiter => next (signals waiter.cell) waiter)^[5] waiter).wait.isIdle := by
  have falls := iterate_falls (fun waiter => waiter.wait.rank (signals waiter.cell))
    (fun waiter => next (signals waiter.cell) waiter)
    (fun waiter => waiter.wait.rank_next (signals waiter.cell)) 5 waiter
  have bound := waiter.wait.rank_le (signals waiter.cell)
  exact Wait.isIdle_of_rank (Nat.le_zero.mp (Nat.le_trans falls (by simp [bound])))

theorem Errand.isIdle_iterate (clock : Nat) (errand : Errand) :
    ((next clock)^[2] errand).isIdle clock := by
  simp only [Function.iterate_succ_apply, Function.iterate_zero_apply]
  unfold next isIdle
  grind

namespace Tokens

variable {tokens later : Tokens} {cell : Nat}

theorem play_append (first second : List Move) :
    tokens.play (first ++ second) = (tokens.play first).play second :=
  List.foldl_append

theorem rouse_succ (tasks acts : Nat) (act : Nat → Move) :
    rouse (tasks + 1) acts act = rouse tasks acts act ++ List.replicate acts (act tasks) := by
  simp only [rouse, List.range_succ, List.flatMap_append, List.flatMap_singleton]

/-! ## A round of acts -/

/-- What the acts of one kind of task do to their list, as long as what they read stays. -/
structure Round {α : Type} (tasks : Tokens → List α) (act : Nat → Move) (Stays : Tokens → Prop)
    (change : α → α) : Prop where
  stays : ∀ tokens i, Stays tokens → Stays (tokens.move (act i))
  acts : ∀ tokens i, Stays tokens → tasks (tokens.move (act i)) = (tasks tokens).modify i change

namespace Round

variable {α : Type} {tasks : Tokens → List α} {act : Nat → Move} {Stays : Tokens → Prop}
  {change : α → α}

theorem stays_replicate (round : Round tasks act Stays change) (start : Stays tokens)
    (count i : Nat) : Stays (tokens.play (List.replicate count (act i))) := by
  induction count generalizing tokens with
  | zero => exact start
  | succ count ih => exact ih (round.stays tokens i start)

theorem stays_rouse (round : Round tasks act Stays change) (start : Stays tokens)
    (number count : Nat) : Stays (tokens.play (rouse number count act)) := by
  induction number with
  | zero => exact start
  | succ number ih =>
    rw [rouse_succ, play_append]
    exact round.stays_replicate ih count number

theorem replicate (round : Round tasks act Stays change) (start : Stays tokens) (count i : Nat) :
    tasks (tokens.play (List.replicate count (act i))) =
      (tasks tokens).modify i (change^[count]) := by
  induction count generalizing tokens with
  | zero => exact (modify_of_fixed fun _ _ => rfl).symm
  | succ count ih =>
    calc tasks (tokens.play (List.replicate (count + 1) (act i)))
        = tasks ((tokens.move (act i)).play (List.replicate count (act i))) := rfl
      _ = ((tasks tokens).modify i change).modify i (change^[count]) := by
          rw [ih (round.stays tokens i start), round.acts tokens i start]
      _ = (tasks tokens).modify i (change^[count + 1]) := by
          rw [List.modify_modify_eq, Function.iterate_succ]

theorem getElem? (round : Round tasks act Stays change) (start : Stays tokens)
    (number count j : Nat) :
    (tasks (tokens.play (rouse number count act)))[j]? =
      (tasks tokens)[j]?.map (change^[if j < number then count else 0]) := by
  induction number with
  | zero => simp [rouse, play]
  | succ number ih =>
    rw [rouse_succ, play_append, round.replicate (round.stays_rouse start number count),
      List.getElem?_modify, ih]
    cases (tasks tokens)[j]? with
    | none => rfl
    | some task =>
      obtain before | rfl | after := Nat.lt_trichotomy j number
      · simp [before, Nat.ne_of_gt before, Nat.lt_succ_of_lt before]
      · simp
      · simp [Nat.ne_of_lt after, Nat.not_lt.mpr (Nat.le_of_lt after), Nat.not_lt.mpr after]

theorem rouse_all (round : Round tasks act Stays change) (start : Stays tokens) (count : Nat) :
    tasks (tokens.play (rouse (tasks tokens).length count act)) =
      (tasks tokens).map (change^[count]) := by
  refine List.ext_getElem? fun j => ?_
  rw [round.getElem? start, List.getElem?_map]
  cases at_j : (tasks tokens)[j]? with
  | none => rfl
  | some task => rw [if_pos (List.getElem?_eq_some_iff.mp at_j).1]

end Round

theorem round_runners (tokens : Tokens) :
    Round (·.runners) .runner (fun later => later = { tokens with runners := later.runners })
      fun runner => runner.next tokens.clock (tokens.signal runner.cell) where
  stays later i same := by rw [same]; rfl
  acts later i same := by rw [same]; rfl

theorem round_waiters (tokens : Tokens) :
    Round (·.waiters) .waiter (fun later => later = { tokens with waiters := later.waiters })
      fun waiter => waiter.next (tokens.signal waiter.cell) where
  stays later i same := by rw [same]; rfl
  acts later i same := by rw [same]; rfl

theorem round_errands (clock : Nat) :
    Round (·.errands) .errand (fun later => later.clock = clock) (·.next clock) where
  stays later i same := by rw [move_errand_clock, same]
  acts later i same := by rw [move_errand_errands, same]

theorem settleRunners_eq (tokens : Tokens) :
    tokens.settleRunners = { tokens with
      runners := tokens.runners.map
        (fun runner => runner.next tokens.clock (tokens.signal runner.cell))^[9] } := by
  have start : tokens = { tokens with runners := tokens.runners } := rfl
  have stays := tokens.round_runners.stays_rouse start tokens.runners.length 9
  rw [settleRunners, stays, tokens.round_runners.rouse_all start]

theorem settleWaiters_eq (tokens : Tokens) :
    tokens.settleWaiters = { tokens with
      waiters := tokens.waiters.map
        (fun waiter => waiter.next (tokens.signal waiter.cell))^[5] } := by
  have start : tokens = { tokens with waiters := tokens.waiters } := rfl
  have stays := tokens.round_waiters.stays_rouse start tokens.waiters.length 5
  rw [settleWaiters, stays, tokens.round_waiters.rouse_all start]

theorem settleErrands_clock (tokens : Tokens) : tokens.settleErrands.clock = tokens.clock :=
  (round_errands tokens.clock).stays_rouse rfl _ 2

theorem settleErrands_errands (tokens : Tokens) :
    tokens.settleErrands.errands = tokens.errands.map (Errand.next tokens.clock)^[2] :=
  (round_errands tokens.clock).rouse_all rfl 2

@[simp] theorem settle_clock (tokens : Tokens) : tokens.settle.clock = tokens.clock := by
  simp only [settle, settleRunners_eq, settleWaiters_eq, settleErrands_clock]

/-- The round of the cancellations wakes runs and waiters, so these have theirs after it. -/
theorem isIdle_settle (tokens : Tokens) : tokens.settle.isIdle := by
  rw [settle]
  generalize tokens.settleRunners = first
  rw [settleRunners_eq, settleWaiters_eq]
  simp only [isIdle, settleErrands_clock, settleErrands_errands, Bool.and_eq_true,
    List.all_map, List.all_eq_true, Function.comp_apply]
  refine ⟨⟨fun errand _ => ?_, fun waiter _ => ?_⟩, fun runner _ => ?_⟩
  · exact errand.isIdle_iterate _
  · exact waiter.isIdle_iterate first.settleErrands.signal
  · exact runner.isIdle_iterate _ (signal _)

/-! ## Acts and the passing of time -/

def Move.isAct : Move → Bool
  | .order _ _ _ | .abandon _ => false
  | _ => true

theorem Move.isSilent_of_isAct {act : Move} (isAct : act.isAct) : act.isSilent := by
  cases act with
  | order name source what => cases isAct
  | _ => rfl

def Unfolds (kind : Move → Bool) (tokens later : Tokens) : Prop :=
  ∃ moves : List Move, (∀ act ∈ moves, kind act) ∧ later = tokens.play moves

variable {kind : Move → Bool}

theorem Unfolds.refl (kind : Move → Bool) (tokens : Tokens) : Unfolds kind tokens tokens :=
  ⟨[], nofun, rfl⟩

theorem Unfolds.trans {first second third : Tokens} (one : Unfolds kind first second)
    (two : Unfolds kind second third) : Unfolds kind first third := by
  obtain ⟨moves, acts, rfl⟩ := one
  obtain ⟨more, others, rfl⟩ := two
  exact ⟨moves ++ more, List.forall_mem_append.mpr ⟨acts, others⟩, (play_append ..).symm⟩

theorem Unfolds.silent (unfolds : Unfolds Move.isAct tokens later) :
    Unfolds Move.isSilent tokens later := by
  obtain ⟨moves, acts, same⟩ := unfolds
  exact ⟨moves, fun act member => Move.isSilent_of_isAct (acts act member), same⟩

theorem unfolds_move {act : Move} (allowed : kind act) : Unfolds kind tokens (tokens.move act) :=
  ⟨[act], List.forall_mem_singleton.mpr allowed, rfl⟩

theorem unfolds_rouse {act : Nat → Move} (acts : ∀ i, (act i).isAct) (number count : Nat) :
    Unfolds Move.isAct tokens (tokens.play (rouse number count act)) := by
  refine ⟨_, fun move found => ?_, rfl⟩
  obtain ⟨i, -, found⟩ := List.mem_flatMap.mp found
  exact List.eq_of_mem_replicate found ▸ acts i

theorem unfolds_settleRunners (tokens : Tokens) : Unfolds Move.isAct tokens tokens.settleRunners :=
  unfolds_rouse (fun _ => rfl) _ _

theorem unfolds_settle (tokens : Tokens) : Unfolds Move.isAct tokens tokens.settle :=
  have errands (tokens : Tokens) : Unfolds Move.isAct tokens tokens.settleErrands :=
    unfolds_rouse (fun _ => rfl) _ _
  have waiters (tokens : Tokens) : Unfolds Move.isAct tokens tokens.settleWaiters :=
    unfolds_rouse (fun _ => rfl) _ _
  (((unfolds_settleRunners _).trans (errands _)).trans (waiters _)).trans (unfolds_settleRunners _)

theorem unfolds_reach (tokens : Tokens) (instant : Nat) :
    Unfolds Move.isAct tokens (tokens.reach instant) := by
  have passed : Unfolds Move.isAct tokens (tokens.move (.pass instant)) := unfolds_move rfl
  rw [reach]
  exact passed.trans (unfolds_settle _)

theorem unfolds_reaches (tokens : Tokens) (instants : List Nat) :
    Unfolds Move.isAct tokens (instants.foldl reach tokens) := by
  induction instants generalizing tokens with
  | nil => exact .refl _ tokens
  | cons instant later ih =>
    rw [List.foldl_cons]
    exact (unfolds_reach tokens instant).trans (ih _)

theorem unfolds_watch (tokens : Tokens) (i : Nat) (instants : List Nat) :
    Unfolds Move.isAct tokens (tokens.watch i instants) := by
  induction instants generalizing tokens with
  | nil => exact .refl _ tokens
  | cons instant later ih =>
    rw [watch]
    split
    · exact .refl _ tokens
    · exact (unfolds_reach tokens instant).trans (ih _)

theorem Unfolds.continues (unfolds : Unfolds Move.isSilent tokens later) :
    tokens.Continues later := by
  obtain ⟨moves, silent, rfl⟩ := unfolds
  exact continues_play silent

theorem Unfolds.sound (unfolds : Unfolds kind tokens later) (sound : tokens.Sound) : later.Sound := by
  obtain ⟨moves, -, rfl⟩ := unfolds
  exact sound.play moves

/-- No act of a task makes a run an abandoned one. -/
theorem Unfolds.wanted (unfolds : Unfolds Move.isAct tokens later) {i : Nat} {runner : Runner}
    (found : tokens.runners[i]? = some runner) (wanted : runner.phase ≠ .ended .abandoned) :
    ∃ after, later.runners[i]? = some after ∧ after.phase ≠ .ended .abandoned := by
  obtain ⟨moves, acts, rfl⟩ := unfolds
  induction moves generalizing tokens runner with
  | nil => exact ⟨runner, found, wanted⟩
  | cons act moves ih =>
    obtain ⟨isAct, acts⟩ := List.forall_mem_cons.mp acts
    obtain ⟨after, now, becomes⟩ := runner_after found act
    refine ih now ?_ acts
    obtain rfl | rfl | ⟨cell, rfl⟩ | ⟨rfl, rfl⟩ := becomes
    · exact wanted
    · unfold Runner.next
      grind
    · unfold Runner.woken
      split <;> exact wanted
    · cases isAct

/-! ## From instant to instant -/

theorem ahead_of_idle (idle : tokens.isIdle) {instant : Nat} (found : instant ∈ tokens.pending) :
    tokens.clock < instant := by
  obtain ⟨errand, member, waiting, rfl⟩ | ⟨runner, member, going, finish⟩ := mem_pending.mp found
  · obtain ⟨-, ahead⟩ | done := idle_errand idle member
    · exact ahead
    · simp [waiting] at done
  · obtain ⟨outcome, ended⟩ | ⟨-, -, ahead⟩ := idle_runner idle member
    · simp [Runner.outcome?_eq_some.mpr ended] at going
    · exact ahead instant finish

/-- Between two instants of an agenda: what any task waits for is on it, or beyond the horizon. -/
structure OnTime (horizon : Nat) (agenda : List Nat) (tokens : Tokens) : Prop where
  idle : tokens.isIdle
  sorted : (tokens.clock :: agenda).Pairwise (· ≤ ·)
  within : ∀ instant ∈ tokens.clock :: agenda, instant ≤ horizon
  complete : ∀ instant ∈ tokens.pending, instant ∈ agenda ∨ horizon ≤ instant

variable {horizon : Nat}

theorem onTime_agenda (idle : tokens.isIdle) (within : tokens.clock ≤ horizon) :
    OnTime horizon (tokens.agenda horizon) tokens := by
  have member {instant : Nat} : instant ∈ tokens.agenda horizon ↔
      instant ∈ tokens.pending ∧ instant < horizon := by
    simp [agenda]
  refine ⟨idle, List.pairwise_cons.mpr ⟨fun instant found => ?_, ?_⟩,
    List.forall_mem_cons.mpr ⟨within, fun instant found => Nat.le_of_lt (member.mp found).2⟩,
    fun instant found => ?_⟩
  · exact Nat.le_of_lt (ahead_of_idle idle (member.mp found).1)
  · have sorted : (tokens.agenda horizon).Pairwise fun a b => decide (a ≤ b) = true :=
      List.pairwise_mergeSort (fun a b c => by simpa using Nat.le_trans)
        (fun a b => by simpa using Nat.le_total a b) _
    exact sorted.imp of_decide_eq_true
  · by_cases before : instant < horizon
    · exact .inl (member.mpr ⟨found, before⟩)
    · exact .inr (Nat.not_lt.mp before)

theorem reach_clock {instant : Nat} (may : tokens.mayPass instant) :
    (tokens.reach instant).clock = instant := by
  simp only [reach, settle_clock, move, if_pos may]

theorem OnTime.mayPass_horizon (onTime : OnTime horizon [] tokens) : tokens.mayPass horizon :=
  mayPass_iff.mpr ⟨onTime.within _ List.mem_cons_self, onTime.idle, fun instant found =>
    (onTime.complete instant found).resolve_left nofun⟩

theorem OnTime.reach {instant : Nat} {agenda : List Nat}
    (onTime : OnTime horizon (instant :: agenda) tokens) :
    OnTime horizon agenda (tokens.reach instant) := by
  obtain ⟨clock, sorted⟩ := List.pairwise_cons.mp onTime.sorted
  have within := (List.forall_mem_cons.mp onTime.within).2
  have first (other : Nat) (found : other ∈ tokens.pending) : instant ≤ other := by
    obtain next | beyond := onTime.complete other found
    · obtain rfl | later := List.mem_cons.mp next
      · exact Nat.le_refl _
      · exact List.rel_of_pairwise_cons sorted later
    · exact Nat.le_trans (within instant List.mem_cons_self) beyond
  have now : (tokens.reach instant).clock = instant :=
    reach_clock (mayPass_iff.mpr ⟨clock instant List.mem_cons_self, onTime.idle, first⟩)
  refine ⟨isIdle_settle _, now.symm ▸ sorted, now.symm ▸ within, fun other found => ?_⟩
  have ahead : instant < other := now ▸ ahead_of_idle (isIdle_settle _) found
  obtain next | beyond := onTime.complete other
      ((unfolds_reach tokens instant).silent.continues.pending other found)
  · exact .inl ((List.mem_cons.mp next).resolve_left (Nat.ne_of_gt ahead))
  · exact .inr beyond

theorem OnTime.reaches {agenda : List Nat} (onTime : OnTime horizon agenda tokens) :
    OnTime horizon [] (agenda.foldl Tokens.reach tokens) := by
  induction agenda generalizing tokens with
  | nil => exact onTime
  | cons instant agenda ih =>
    rw [List.foldl_cons]
    exact ih onTime.reach

theorem OnTime.watch {agenda : List Nat} (onTime : OnTime horizon agenda tokens) (i : Nat) :
    ∃ rest, OnTime horizon rest (tokens.watch i agenda) ∧
      ((tokens.watch i agenda).outcomeAt i = none → rest = []) := by
  induction agenda generalizing tokens with
  | nil => exact ⟨[], onTime, fun _ => rfl⟩
  | cons instant agenda ih =>
    rw [Tokens.watch]
    split
    · next ended =>
      exact ⟨instant :: agenda, onTime, fun going => by simp [going] at ended⟩
    · exact ih onTime.reach

theorem unfolds_advanceTo (tokens : Tokens) (instant : Nat) :
    Unfolds Move.isAct tokens (tokens.advanceTo instant) :=
  unfolds_reaches ..

theorem advanceTo_settled {instant : Nat} (idle : tokens.isIdle) (ahead : tokens.clock ≤ instant) :
    (tokens.advanceTo instant).clock = instant ∧ (tokens.advanceTo instant).isIdle := by
  have onTime := (onTime_agenda idle ahead).reaches
  rw [advanceTo, List.foldl_append, List.foldl_cons, List.foldl_nil]
  exact ⟨reach_clock onTime.mayPass_horizon, isIdle_settle _⟩

/-! ## The end of a run -/

theorem Unfolds.outcomeAt (unfolds : Unfolds kind tokens later) {i : Nat}
    {outcome : Runner.Outcome} (ended : tokens.outcomeAt i = some outcome) :
    later.outcomeAt i = some outcome := by
  obtain ⟨moves, -, rfl⟩ := unfolds
  obtain ⟨runner, found, outcome_eq⟩ := Option.bind_eq_some_iff.mp ended
  obtain ⟨after, now, becomes⟩ := becomes_play found moves
  rw [Tokens.outcomeAt, now, Option.bind_some]
  exact Runner.outcome?_eq_some.mpr (becomes.ended outcome (Runner.outcome?_eq_some.mp outcome_eq))

theorem idle_settleRunners (tokens : Tokens) :
    ∀ runner ∈ tokens.settleRunners.runners, runner.isIdle tokens.settleRunners.clock := by
  rw [settleRunners_eq]
  intro runner found
  obtain ⟨before, -, rfl⟩ := List.mem_map.mp found
  exact before.isIdle_iterate _ tokens.signal

/-- The last look of a run before it is given up: the horizon has come, and the run sleeps on. -/
structure LastLook (tokens : Tokens) (i horizon : Nat) (last : Tokens) : Prop where
  unfolds : Unfolds Move.isAct tokens last
  clock : last.clock = horizon
  asleep : ∃ runner, last.runners[i]? = some runner ∧ runner.phase = .suspended ∧
    runner.isAsleep horizon

theorem OnTime.lookAgain_clock (onTime : OnTime horizon [] tokens) :
    (tokens.move (.pass horizon)).settleRunners.clock = horizon := by
  rw [settleRunners_eq]
  simp only [move, if_pos onTime.mayPass_horizon]

theorem unfolds_lookAgain (tokens : Tokens) (horizon : Nat) :
    Unfolds Move.isAct tokens (tokens.move (.pass horizon)).settleRunners :=
  have passed : Unfolds Move.isAct tokens (tokens.move (.pass horizon)) := unfolds_move rfl
  passed.trans (unfolds_settleRunners _)

theorem await_settled (idle : tokens.isIdle) (ahead : tokens.clock ≤ horizon) (i : Nat) :
    (tokens.await i horizon).isIdle ∧ (tokens.await i horizon).clock ≤ horizon ∧
      Unfolds Move.isSilent tokens (tokens.await i horizon) := by
  obtain ⟨rest, onTime, exhausted⟩ := (onTime_agenda idle ahead).watch i
  have watched := (unfolds_watch tokens i (tokens.agenda horizon)).silent
  rw [await, giveUp]
  generalize tokens.watch i (tokens.agenda horizon) = waited at onTime exhausted watched ⊢
  split
  · exact ⟨onTime.idle, onTime.within _ List.mem_cons_self, watched⟩
  · next going =>
    cases exhausted (by simpa using going)
    have looked := (unfolds_lookAgain waited horizon).silent
    have given : Unfolds Move.isSilent (waited.move (.pass horizon)).settleRunners
        ((waited.move (.pass horizon)).settleRunners.move (.abandon i)) := unfolds_move rfl
    refine ⟨isIdle_settle _, ?_, ((watched.trans looked).trans given).trans
      (unfolds_settle _).silent⟩
    exact Nat.le_of_eq ((settle_clock _).trans onTime.lookAgain_clock)

theorem await_hung (idle : tokens.isIdle) (ahead : tokens.clock ≤ horizon) {i : Nat}
    {runner : Runner} (found : tokens.runners[i]? = some runner)
    (wanted : runner.phase ≠ .ended .abandoned)
    (hung : resultOf ((tokens.await i horizon).outcomeAt i) = .hung) :
    ∃ last, LastLook tokens i horizon last := by
  obtain ⟨rest, onTime, exhausted⟩ := (onTime_agenda idle ahead).watch i
  have watched := unfolds_watch tokens i (tokens.agenda horizon)
  rw [await, giveUp] at hung
  generalize tokens.watch i (tokens.agenda horizon) = waited at onTime exhausted watched hung
  -- An outcome before the horizon is an answer, since only giving up abandons a run.
  have answered {now : Tokens} (unfolds : Unfolds Move.isAct tokens now)
      {outcome : Runner.Outcome} (ended : now.outcomeAt i = some outcome) :
      resultOf (some outcome) ≠ .hung := by
    obtain ⟨after, found, going⟩ := unfolds.wanted found wanted
    rw [outcomeAt, found, Option.bind_some, Runner.outcome?_eq_some] at ended
    cases outcome with
    | finished | cancelled => exact nofun
    | abandoned => exact absurd ended going
  split at hung
  · next ended =>
    obtain ⟨outcome, ended⟩ := Option.isSome_iff_exists.mp ended
    exact absurd (ended ▸ hung) (answered watched ended)
  · next going =>
    cases exhausted (by simpa using going)
    have looked := watched.trans (unfolds_lookAgain waited horizon)
    have clock := onTime.lookAgain_clock
    have sleeps := idle_settleRunners (waited.move (.pass horizon))
    generalize (waited.move (.pass horizon)).settleRunners = last at hung looked clock sleeps
    obtain ⟨runner, now, -⟩ := looked.wanted found wanted
    refine ⟨last, looked, clock, runner, now, ?_⟩
    have rests : runner.isIdle horizon := clock ▸ sleeps runner (List.mem_of_getElem? now)
    unfold Runner.isIdle at rests
    split at rests
    · next outcome ended =>
      have answer : last.outcomeAt i = some outcome := by
        rw [outcomeAt, now, Option.bind_some, Runner.outcome?_eq_some.mpr ended]
      have given : Unfolds Move.isSilent last (last.move (.abandon i)) := unfolds_move rfl
      have kept := (given.trans (unfolds_settle _).silent).outcomeAt answer
      exact absurd (kept ▸ hung) (answered looked answer)
    · next stage => exact ⟨stage, rests⟩
    · cases rests

end Tokens

end ModelHub
