import ModelHub.Proofs.Concurrency.TokenSchedule

/-! What a cancellation does, under every interleaving: it reaches all clones of its token and nobody
else, it wakes everyone who waits, and it ends the runs whose task has not answered before. -/

namespace ModelHub

namespace Tokens

def waits (tokens : Tokens) : List (String × Nat) :=
  tokens.waiters.map fun waiter => (waiter.task, waiter.cell)

def waitsAfter (tokens : Tokens) : Move → List (String × Nat)
  | .order name source (.wait task) =>
    (tokens.waits.filter fun entry => entry.1 ≠ task) ++ [(task, (tokens.introduce name source).2)]
  | _ => tokens.waits

/-- A move keeps the cells of the tokens, cancels no cell but that of the cancellation that acts,
and takes no cancellation back. -/
structure Respects (tokens : Tokens) (act : Move) : Prop where
  cells : ∀ name cell, tokens.cells.lookup name = some cell →
    (tokens.move act).cells.lookup name = some cell
  asked : (tokens.move act).appointments = tokens.appointments ++ tokens.asked act
  waits : (tokens.move act).waits = tokens.waitsAfter act
  stays : ∀ cell, tokens.isCancelled cell → (tokens.move act).isCancelled cell
  own : ∀ cell, (tokens.move act).isCancelled cell → tokens.isCancelled cell ∨
    ∃ i errand, act = .errand i ∧ tokens.errands[i]? = some errand ∧ errand.cell = cell

/-- An order on a token: a clone shares the cell of its source, and any other new token has a cell
to itself. -/
structure Introduces (tokens : Tokens) (name : String) (source : Option String) : Prop where
  cell : ∀ what, (tokens.move (.order name source what)).cells.lookup name =
    some (tokens.introduce name source).2
  clone : ∀ other cell, tokens.cells.lookup name = none → source = some other →
    tokens.cells.lookup other = some cell → (tokens.introduce name source).2 = cell
  fresh : tokens.cells.lookup name = none →
    (source.bind fun other => tokens.cells.lookup other) = none →
    (∀ entry ∈ tokens.cells, entry.2 ≠ (tokens.introduce name source).2) ∧
      ¬ tokens.isCancelled (tokens.introduce name source).2

/-- When no task can act, the flags are those of the cancellations whose instants have come, and
who waits has resolved just if the flag is set. -/
structure Agrees (tokens : Tokens) : Prop where
  cancelled_iff : ∀ cell, tokens.isCancelled cell ↔
    ∃ due, (cell, due) ∈ tokens.appointments ∧ due ≤ tokens.clock
  resolved_iff : ∀ waiter ∈ tokens.waiters,
    waiter.wait = .resolved ↔ tokens.isCancelled waiter.cell

/-- The answer of a run that was ordered when `called` were the tokens, when no task can act. The
instants of the task and of a cancellation are taken to differ, unless the token was cancelled at
the call. -/
structure Answers (called : Tokens) (cell : Nat) (finish : Option Nat) (later : Tokens)
    (outcome : Option Runner.Outcome) : Prop where
  cancelled_iff : outcome = some .cancelled ↔ called.isCancelled cell ∨
    ∃ due, (cell, due) ∈ later.appointments ∧ due ≤ later.clock ∧
      ∀ instant, finish = some instant → due < instant
  finished_iff : outcome = some .finished ↔ ¬ called.isCancelled cell ∧
    ∃ instant, finish = some instant ∧ instant ≤ later.clock ∧
      ∀ due, (cell, due) ∈ later.appointments → instant < due

def Step.Lasts (before after : Nat) : Step → Prop
  | .advance delay => after = before + delay
  | .run _ => before ≤ after ∧ after ≤ before + patience
  | _ => after = before

/-- The result of a step on the token of a cell, by the tokens before and after it. A run hangs only
when neither an answer nor a cancellation comes in time. -/
def Step.Yields (tokens : Tokens) (cell : Nat) (later : Tokens) (result : Result) : Step → Prop
  | .check => result = .checked (later.isCancelled cell)
  | .run length =>
    result = resultOf (later.outcomeAt tokens.runners.length) ∧
      (result = .hung → ¬ tokens.isCancelled cell ∧
        (∀ due, (cell, due) ∈ later.appointments → tokens.clock + patience ≤ due) ∧
        ∀ instant, length.map (tokens.clock + ·) = some instant →
          tokens.clock + patience < instant)
  | _ => result = .nothing

structure Performs (tokens : Tokens) (name : String) (source : Option String) (what : Step)
    (result : Result) (later : Tokens) : Prop where
  unfolds : Unfolds Move.isSilent (tokens.move (.order name source what)) later
  idle : later.isIdle
  clock : what.Lasts tokens.clock later.clock
  result : what.Yields tokens (tokens.introduce name source).2 later result

variable {tokens later : Tokens} {name : String} {source : Option String} {cell : Nat}

theorem affect_waits (tokens : Tokens) (errand : Errand) :
    (tokens.affect errand).waits = tokens.waits := by
  have woken (cell : Nat) (waiter : Waiter) :
      (waiter.woken cell).task = waiter.task ∧ (waiter.woken cell).cell = waiter.cell := by
    unfold Waiter.woken
    split <;> exact ⟨rfl, rfl⟩
  unfold affect
  split
  · split <;> rfl
  · simp [waits, wake, woken]
  · rfl

theorem move_waits (tokens : Tokens) (act : Move) :
    (tokens.move act).waits = tokens.waitsAfter act := by
  cases act with
  | order name source what =>
    cases what <;>
      simp [move, assign, waits, waitsAfter, List.filter_map, Function.comp_def]
  | errand i =>
    simp only [move]
    split
    · rfl
    · exact affect_waits tokens _
  | waiter i => exact map_modify_of_keeps _ fun waiter => rfl
  | runner i | abandon i => rfl
  | pass instant =>
    simp only [move]
    split <;> rfl

theorem respects (tokens : Tokens) (act : Move) : tokens.Respects act where
  cells _ _ known := lookup_move act known
  asked := move_appointments tokens act
  waits := move_waits tokens act
  stays cell set := (cancelled_move tokens act cell).mpr (.inl set)
  own cell set := by
    obtain before | ⟨i, errand, same, found, own, -⟩ := (cancelled_move tokens act cell).mp set
    · exact .inl before
    · exact .inr ⟨i, errand, same, found, own⟩

theorem introduces (sound : tokens.Sound) (registered : tokens.Registered) (name : String)
    (source : Option String) : tokens.Introduces name source where
  cell _ := lookup_order
  clone other cell unknown same known := by
    subst same
    exact introduce_clone unknown known
  fresh unknown sourceless := by
    rw [introduce_new unknown sourceless]
    refine ⟨fun entry member => Nat.ne_of_lt (registered.cells entry member), fun set => ?_⟩
    obtain ⟨due, found, -⟩ := sound.appointment_of_set set
    exact absurd (registered.appointments _ found) (Nat.lt_irrefl _)

theorem Sound.agrees (sound : tokens.Sound) (idle : tokens.isIdle) : tokens.Agrees := by
  refine ⟨fun cell => ⟨sound.appointment_of_set, ?_⟩, fun waiter member => ?_⟩
  · rintro ⟨due, found, past⟩
    obtain ⟨errand, member, same⟩ := List.mem_map.mp found
    obtain ⟨rfl, rfl⟩ := Prod.mk.inj same
    obtain ⟨-, ahead⟩ | done := idle_errand idle member
    · exact absurd past (Nat.not_le.mpr ahead)
    · exact (sound.acted errand member (done ▸ nofun)).1
  · have attends := sound.waiters waiter member
    obtain parked | resolved := idle_waiter idle member
    · rw [parked] at attends ⊢
      exact ⟨nofun, fun set => absurd (attends set) (not_calling_of_idle idle)⟩
    · rw [resolved] at attends ⊢
      exact ⟨fun _ => attends, fun _ => rfl⟩

def started (tokens : Tokens) (name : String) (source : Option String) (length : Option Nat) :
    Runner :=
  { cell := (tokens.introduce name source).2, finish := length.map (tokens.clock + ·) }

theorem started_found (tokens : Tokens) (name : String) (source : Option String)
    (length : Option Nat) :
    (tokens.move (.order name source (.run length))).runners[tokens.runners.length]? =
      some (tokens.started name source length) := by
  simp [move, assign, started]

/-- A run whose token was cancelled at the call never gets to its task. -/
theorem refused_started {length : Option Nat} {moves : List Move} {after : Runner}
    (set : tokens.isCancelled (tokens.introduce name source).2)
    (found : ((tokens.move (.order name source (.run length))).play moves).runners[
      tokens.runners.length]? = some after) : after.Refused := by
  have still := (cancelled_move tokens (.order name source (.run length)) _).mpr (.inl set)
  obtain ⟨same, now, refused⟩ :=
    refused_play still (started_found tokens name source length) (.inl rfl) moves
  cases now.symm.trans found
  exact refused

/-- Of a run at rest whose instants differ, the outcome is decided by the instants. -/
theorem Sound.answers_rest (sound : later.Sound) (idle : later.isIdle) {after : Runner}
    (member : after ∈ later.runners) (uncancelled : ¬ tokens.isCancelled after.cell)
    (wanted : after.phase ≠ .ended .abandoned)
    (differ : ∀ due, (after.cell, due) ∈ later.appointments → after.finish ≠ some due) :
    Answers tokens after.cell after.finish later after.outcome? := by
  have tracks := sound.runners after member
  unfold Tracks at tracks
  obtain ⟨outcome, ended⟩ | ⟨suspended, parked, ahead⟩ := idle_runner idle member
  · have is : after.outcome? = some outcome := Runner.outcome?_eq_some.mpr ended
    rw [is]
    cases outcome with
    | finished =>
      simp only [ended] at tracks
      obtain ⟨finish, has, past, first⟩ := tracks
      have before (due : Nat) (found : (after.cell, due) ∈ later.appointments) : finish < due :=
        Nat.lt_of_le_of_ne (first due found) fun same => differ due found (same ▸ has)
      refine ⟨⟨by simp, ?_⟩,
        ⟨fun _ => ⟨uncancelled, finish, has, past, before⟩, fun _ => rfl⟩⟩
      rintro (set | ⟨due, found, -, sooner⟩)
      · exact absurd set uncancelled
      · exact absurd (sooner finish has) (Nat.lt_asymm (before due found))
    | cancelled =>
      simp only [ended] at tracks
      obtain ⟨due, found, past, first⟩ := tracks
      have before (finish : Nat) (has : after.finish = some finish) : due < finish :=
        Nat.lt_of_le_of_ne (first finish has) fun same => differ due found (same ▸ has)
      refine ⟨⟨fun _ => .inr ⟨due, found, past, before⟩, fun _ => rfl⟩,
        by simp, ?_⟩
      rintro ⟨-, finish, has, -, later⟩
      exact absurd (before finish has) (Nat.lt_asymm (later due found))
    | abandoned => exact absurd ended wanted
  · -- A run that sleeps on is in the queue, with its answer and any cancellation ahead.
    simp only [suspended] at tracks
    have is : after.outcome? = none := by simp only [Runner.outcome?, suspended]
    have unset : ¬ later.isCancelled after.cell := fun set =>
      not_calling_of_idle idle ((parked ▸ tracks.2.1 : later.Attends _ .parked) set)
    rw [is]
    refine ⟨⟨by simp, ?_⟩, by simp, ?_⟩
    · rintro (set | ⟨due, found, past, -⟩)
      · exact absurd set uncancelled
      · exact absurd (((sound.agrees idle).cancelled_iff _).mpr ⟨due, found, past⟩) unset
    · rintro ⟨-, finish, has, past, -⟩
      exact absurd past (Nat.not_le.mpr (ahead finish has))

theorem Sound.answers (sound : tokens.Sound) {length : Option Nat} {more : List Move}
    (next : later = (tokens.move (.order name source (.run length))).play more)
    (idle : later.isIdle) (wanted : later.outcomeAt tokens.runners.length ≠ some .abandoned)
    (differ : tokens.isCancelled (tokens.introduce name source).2 ∨
      ∀ due, ((tokens.introduce name source).2, due) ∈ later.appointments →
        length.map (tokens.clock + ·) ≠ some due) :
    Answers tokens (tokens.introduce name source).2 (length.map (tokens.clock + ·)) later
      (later.outcomeAt tokens.runners.length) := by
  obtain ⟨after, found, becomes⟩ := becomes_play (started_found tokens name source length) more
  rw [← next] at found
  have member := List.mem_of_getElem? found
  have outcome : later.outcomeAt tokens.runners.length = after.outcome? := by
    rw [outcomeAt, found, Option.bind_some]
  have cell : after.cell = (tokens.introduce name source).2 := becomes.cell
  have finish : after.finish = length.map (tokens.clock + ·) := becomes.finish
  rw [outcome] at wanted ⊢
  by_cases set : tokens.isCancelled (tokens.introduce name source).2
  · have ended : after.outcome? = some .cancelled := by
      obtain checking | ended | abandoned := refused_started set (next ▸ found)
      · obtain ⟨last, ended⟩ | ⟨suspended, -⟩ := idle_runner idle member
        · cases checking.symm.trans ended
        · cases checking.symm.trans suspended
      · exact Runner.outcome?_eq_some.mpr ended
      · exact absurd (Runner.outcome?_eq_some.mpr abandoned) wanted
    rw [ended]
    exact ⟨⟨fun _ => .inl set, fun _ => rfl⟩, by simp,
      fun refused => absurd set refused.1⟩
  · rw [← cell, ← finish] at differ ⊢
    rw [← cell] at set
    have laterSound : later.Sound := next ▸ (sound.move _).play more
    exact laterSound.answers_rest idle member set
      (fun abandoned => wanted (Runner.outcome?_eq_some.mpr abandoned)) (differ.resolve_left set)

theorem move_order_clock (tokens : Tokens) (name : String) (source : Option String)
    (what : Step) : (tokens.move (.order name source what)).clock = tokens.clock := by
  cases what <;> exact introduce_clock ..

theorem Sound.hung (sound : tokens.Sound) {length : Option Nat} {horizon : Nat}
    (within : tokens.clock ≤ horizon)
    (next : later = (tokens.move (.order name source (.run length))).settle.await
      tokens.runners.length horizon)
    (hung : resultOf (later.outcomeAt tokens.runners.length) = .hung) :
    ¬ tokens.isCancelled (tokens.introduce name source).2 ∧
      (∀ due, ((tokens.introduce name source).2, due) ∈ later.appointments → horizon ≤ due) ∧
      ∀ instant, length.map (tokens.clock + ·) = some instant → horizon < instant := by
  have started := started_found tokens name source length
  generalize ordered_eq : tokens.move (.order name source (.run length)) = ordered at next started
  have clock : ordered.settle.clock ≤ horizon := by
    rwa [settle_clock, ← ordered_eq, move_order_clock]
  have settled := unfolds_settle ordered
  have idle := isIdle_settle ordered
  have fresh : (tokens.started name source length).phase ≠ .ended .abandoned := by
    simp [Tokens.started]
  obtain ⟨waiting, found, wanted⟩ := settled.wanted started fresh
  obtain ⟨last, look⟩ := await_hung idle clock found wanted (next ▸ hung)
  have unfolds := settled.trans look.unfolds
  have appointments : later.appointments = last.appointments := by
    have waited := (await_settled idle clock tokens.runners.length).2.2
    rw [next, (settled.silent.trans waited).continues.appointments,
      unfolds.silent.continues.appointments]
  obtain ⟨runner, at_last, suspended, asleep⟩ := look.asleep
  have sound := unfolds.sound (ordered_eq ▸ sound.move _)
  obtain ⟨moves, -, played⟩ := unfolds
  subst played
  have becomes : (tokens.started name source length).Becomes runner := by
    obtain ⟨same, now, becomes⟩ := becomes_play started moves
    cases now.symm.trans at_last
    exact becomes
  -- At its last look the run still slept, so neither its token nor its answer called for another.
  refine ⟨fun set => ?_, fun due found => ?_, fun instant has => ?_⟩
  · subst ordered_eq
    have refused := refused_started set at_last
    simp [Runner.Refused, suspended] at refused
  · have tracks := sound.runners runner (List.mem_of_getElem? at_last)
    simp only [Tracks, suspended] at tracks
    rw [← look.clock]
    refine tracks.2.2 (by simp) due ?_
    rw [becomes.cell, ← appointments]
    exact found
  · have unready := asleep
    simp only [Runner.isAsleep, Runner.isReady, becomes.finish, Tokens.started, has,
      Option.any_some, Bool.and_eq_true, Bool.not_eq_true', decide_eq_false_iff_not] at unready
    exact Nat.not_le.mp unready.2

theorem performs (sound : tokens.Sound) (name : String) (source : Option String) (what : Step) :
    tokens.Performs name source what (tokens.step name source what).1
      (tokens.step name source what).2 := by
  have settled := (unfolds_settle (tokens.move (.order name source what))).silent
  have idle := isIdle_settle (tokens.move (.order name source what))
  have clock : (tokens.move (.order name source what)).settle.clock = tokens.clock :=
    (settle_clock _).trans (move_order_clock ..)
  simp only [step]
  generalize ordered_eq : (tokens.move (.order name source what)).settle = ordered
    at settled idle clock ⊢
  cases what with
  | create | cancel | cancelAfter delay | wait task | check => exact ⟨settled, idle, clock, rfl⟩
  | advance delay =>
    have ahead : ordered.clock ≤ tokens.clock + delay := clock ▸ Nat.le_add_right _ _
    obtain ⟨reached, still⟩ := advanceTo_settled idle ahead
    exact ⟨settled.trans (unfolds_advanceTo _ _).silent, still, reached, rfl⟩
  | run length =>
    have ahead : ordered.clock ≤ tokens.clock + patience := clock ▸ Nat.le_add_right _ _
    obtain ⟨still, within, waited⟩ := await_settled idle ahead tokens.runners.length
    refine ⟨settled.trans waited, still, ⟨?_, within⟩, rfl, fun hung => ?_⟩
    · exact clock ▸ waited.continues.clock
    · exact sound.hung (Nat.le_add_right _ _) (ordered_eq ▸ rfl) hung

theorem cancellation_reaches_its_clones (moves : List Move) :
    let tokens := play {} moves
    (∀ act, tokens.Respects act) ∧
    (∀ name source, tokens.Introduces name source) ∧
    (∀ cell, tokens.isCancelled cell →
      ∃ due, (cell, due) ∈ tokens.appointments ∧ due ≤ tokens.clock) ∧
    (tokens.isIdle → tokens.Agrees) ∧
    (∀ name source length more,
      let cell := (tokens.introduce name source).2
      let finish := length.map (tokens.clock + ·)
      let later := (tokens.move (.order name source (.run length))).play more
      let outcome := later.outcomeAt tokens.runners.length
      later.isIdle → outcome ≠ some .abandoned →
        (tokens.isCancelled cell ∨ ∀ due, (cell, due) ∈ later.appointments → finish ≠ some due) →
        Answers tokens cell finish later outcome) ∧
    ∀ name source what, tokens.Performs name source what (tokens.step name source what).1
      (tokens.step name source what).2 := by
  have sound := sound_empty.play moves
  have registered := registered_empty.play moves
  exact ⟨respects _, introduces sound registered, fun _ => sound.appointment_of_set, sound.agrees,
    fun name source length more idle wanted differ => sound.answers rfl idle wanted differ,
    performs sound⟩

/-- A clone is cancelled after the flag was read and before the queue was joined. -/
theorem late_wait_is_woken :
    let tokens := play {} [.order "a" none (.wait "w"), .waiter 0, .waiter 0,
      .order "b" (some "a") .cancel, .errand 0, .errand 0, .waiter 0, .waiter 0, .waiter 0]
    tokens.isIdle ∧ ∀ waiter ∈ tokens.waiters, waiter.wait = .resolved := by
  intro tokens
  have idle : tokens.isIdle := by decide
  have set : ∀ waiter ∈ tokens.waiters, tokens.isCancelled waiter.cell := by decide
  have agrees := (cancellation_reaches_its_clones _).2.2.2.1 idle
  exact ⟨idle, fun waiter member => (agrees.resolved_iff waiter member).mpr (set waiter member)⟩

end Tokens

end ModelHub
