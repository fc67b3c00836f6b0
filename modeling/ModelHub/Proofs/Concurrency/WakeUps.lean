import ModelHub.Proofs.Concurrency.Attendance

/-! No wake-up is lost: whatever acts and in whichever order, a sound state of the tokens stays so. -/

namespace ModelHub.Tokens

variable {tokens later : Tokens} {cell : Nat} {wait : Wait} {runner : Runner}

theorem appointments_modify (i clock : Nat) :
    ((tokens.errands.modify i (·.next clock)).map fun errand => (errand.cell, errand.due)) =
      tokens.appointments :=
  map_modify_of_keeps _ fun errand => by simp

theorem Sound.of_same_signals (sound : tokens.Sound) (clock : later.clock = tokens.clock)
    (cancelled : later.cancelled = tokens.cancelled) (errands : later.errands = tokens.errands)
    (waiters : ∀ waiter ∈ later.waiters, tokens.Attends waiter.cell waiter.wait)
    (runners : ∀ runner ∈ later.runners, tokens.Tracks runner)
    (calls : later.calls = tokens.calls) : later.Sound := by
  have attends {cell wait} : tokens.Attends cell wait → later.Attends cell wait :=
    Attends.of_same_signal (by simp only [signal, isCancelled, cancelled, calls])
      (by simp only [Calling, errands, imp_self])
  refine ⟨?_, ?_, ?_, fun waiter found => attends (waiters waiter found), fun runner found =>
    (runners runner found).of_kept clock ?_ ?_ attends⟩
  · simpa only [isCancelled, cancelled, errands] using sound.flagged
  · simpa only [isCancelled, cancelled, errands, clock] using sound.acted
  · simpa only [errands, clock] using sound.overdue
  · simp only [appointments, errands, imp_self, implies_true]
  · simp only [appointments, errands]
    exact fun entry found => .inl found

theorem Sound.waiter_acts (sound : tokens.Sound) (i : Nat) : (tokens.move (.waiter i)).Sound := by
  refine sound.of_same_signals rfl rfl rfl (fun waiter found => ?_) sound.runners rfl
  obtain old | ⟨old, was, rfl⟩ := mem_of_mem_modify found
  · exact sound.waiters waiter old
  · exact (sound.waiters old (List.mem_of_getElem? was)).next

theorem Sound.due_of_unset (sound : tokens.Sound) (unset : ¬ tokens.isCancelled cell) {due : Nat}
    (found : (cell, due) ∈ tokens.appointments) : tokens.clock ≤ due := by
  obtain ⟨errand, member, same⟩ := List.mem_map.mp found
  obtain ⟨rfl, rfl⟩ := Prod.mk.inj same
  refine Nat.le_of_not_lt fun late => unset (sound.acted errand member ?_).1
  rw [sound.overdue errand member late]
  exact nofun

theorem Sound.appointment_of_set (sound : tokens.Sound) (set : tokens.isCancelled cell) :
    ∃ due, (cell, due) ∈ tokens.appointments ∧ due ≤ tokens.clock := by
  obtain ⟨errand, member, rfl, acted⟩ := sound.flagged cell set
  exact ⟨errand.due, List.mem_map.mpr ⟨errand, member, rfl⟩, (sound.acted errand member acted).2⟩

theorem Tracks.next (sound : tokens.Sound) (tracks : tokens.Tracks runner) :
    tokens.Tracks (runner.next tokens.clock (tokens.signal runner.cell)) := by
  obtain ⟨cell, finish, phase, wait⟩ := runner
  have cancelled {wait : Wait} (set : tokens.isCancelled cell)
      (ahead : ∀ instant, finish = some instant → tokens.clock ≤ instant) :
      tokens.Tracks { cell, finish, phase := .ended .cancelled, wait } := by
    obtain ⟨due, found, past⟩ := sound.appointment_of_set set
    exact ⟨due, found, past, fun instant has => Nat.le_trans past (ahead instant has)⟩
  cases phase with
  | ended outcome => exact tracks
  | checking =>
    obtain ⟨ahead, attends, -⟩ := tracks
    cases set : tokens.isCancelled cell with
    | true =>
      simp only [Runner.next, signal, set, if_true]
      exact cancelled set ahead
    | false =>
      simp only [Runner.next, signal, set, Bool.false_eq_true, if_false]
      exact ⟨ahead, attends, fun _ due => sound.due_of_unset (by simp [set])⟩
  | token =>
    obtain ⟨ahead, attends, dues⟩ := tracks
    have attends := attends.next
    simp only [Runner.next]
    generalize wait.next (tokens.signal cell) = wait at attends ⊢
    cases wait with
    | resolved => exact cancelled attends ahead
    | parked | starting | listening since | unset since =>
      exact ⟨ahead, attends, fun _ => dues (by simp)⟩
  | task =>
    obtain ⟨ahead, attends, dues⟩ := tracks
    by_cases ready : ({ cell, finish, phase := .task, wait } : Runner).isReady tokens.clock
    · simp only [Runner.next, if_pos ready]
      obtain ⟨instant, has, past⟩ := (Option.any_eq_true _ _).mp ready
      have past : instant ≤ tokens.clock := by simpa using past
      exact ⟨instant, has, past, fun due found => Nat.le_trans past (dues (by simp) due found)⟩
    · simp only [Runner.next, if_neg ready]
      exact ⟨ahead, attends, fun _ => dues (by simp)⟩
  | suspended =>
    obtain ⟨ahead, attends, dues⟩ := tracks
    simp only [Runner.next]
    split
    · exact ⟨ahead, attends, dues⟩
    · exact ⟨ahead, attends, fun _ => dues (by simp)⟩

theorem Sound.runner_acts (sound : tokens.Sound) (i : Nat) : (tokens.move (.runner i)).Sound := by
  refine sound.of_same_signals rfl rfl rfl sound.waiters (fun runner found => ?_) rfl
  obtain old | ⟨old, was, rfl⟩ := mem_of_mem_modify found
  · exact sound.runners runner old
  · exact (sound.runners old (List.mem_of_getElem? was)).next sound

theorem Sound.abandoned (sound : tokens.Sound) (i : Nat) : (tokens.move (.abandon i)).Sound := by
  refine sound.of_same_signals rfl rfl rfl sound.waiters (fun runner found => ?_) rfl
  obtain old | ⟨old, was, rfl⟩ := mem_of_mem_modify found
  · exact sound.runners runner old
  · unfold Runner.abandon
    split
    · exact sound.runners old (List.mem_of_getElem? was)
    · trivial

section Act

variable {i : Nat} {errand : Errand}

theorem Calling.of_other (found : tokens.errands[i]? = some errand) (other : cell ≠ errand.cell)
    (errands : later.errands = tokens.errands.modify i (·.next tokens.clock))
    (calling : tokens.Calling cell) : later.Calling cell := by
  obtain ⟨party, member, rfl, stage⟩ := calling
  obtain kept | at_i := mem_modify_or member
  · exact ⟨party, errands ▸ kept, rfl, stage⟩
  · cases found.symm.trans at_i
    exact absurd rfl other

/-- A cancellation acts whose instant has come, and only its own cell is affected. -/
theorem Sound.of_act (sound : tokens.Sound) (found : tokens.errands[i]? = some errand)
    (due : errand.due ≤ tokens.clock) (clock : later.clock = tokens.clock)
    (errands : later.errands = tokens.errands.modify i (·.next tokens.clock))
    (set : later.isCancelled errand.cell)
    (others : ∀ cell, cell ≠ errand.cell → later.isCancelled cell = tokens.isCancelled cell)
    (waiters : ∀ waiter ∈ later.waiters, later.Attends waiter.cell waiter.wait)
    (runners : ∀ runner ∈ later.runners, later.Tracks runner) : later.Sound := by
  have acted : errand.next tokens.clock ∈ later.errands := errands ▸ mem_modify_self found
  refine ⟨fun cell flag => ?_, fun party member begun => ?_, fun party member late => ?_, waiters,
    runners⟩
  · by_cases own : cell = errand.cell
    · exact ⟨_, acted, by rw [Errand.next_cell, own], Errand.acted_next (.inl due)⟩
    · obtain ⟨party, member, rfl, begun⟩ := sound.flagged cell (others cell own ▸ flag)
      obtain kept | at_i := mem_modify_or member
      · exact ⟨party, errands ▸ kept, rfl, begun⟩
      · cases found.symm.trans at_i
        exact absurd rfl own
  · obtain old | ⟨old, at_i, rfl⟩ := mem_of_mem_modify (errands ▸ member)
    · have before := sound.acted party old begun
      by_cases own : party.cell = errand.cell
      · exact ⟨own ▸ set, clock ▸ before.2⟩
      · exact ⟨others _ own ▸ before.1, clock ▸ before.2⟩
    · cases found.symm.trans at_i
      exact ⟨by rwa [Errand.next_cell], by rwa [Errand.next_due, clock]⟩
  · rw [clock] at late
    obtain old | ⟨old, at_i, rfl⟩ := mem_of_mem_modify (errands ▸ member)
    · exact sound.overdue party old late
    · rw [Errand.next_due] at late
      have done := sound.overdue old (List.mem_of_getElem? at_i) late
      rwa [Errand.done_next done]

theorem Tracks.of_act (tracks : tokens.Tracks runner) (clock : later.clock = tokens.clock)
    (errands : later.errands = tokens.errands.modify i (·.next tokens.clock))
    (attends : tokens.Attends runner.cell runner.wait → later.Attends runner.cell wait) :
    later.Tracks { runner with wait } := by
  have same : later.appointments = tokens.appointments := by
    rw [appointments, errands, appointments_modify]
  exact tracks.of_kept clock (by simp [same]) (fun _ found => .inl (same ▸ found)) attends

theorem Sound.flag (sound : tokens.Sound) (found : tokens.errands[i]? = some errand)
    (waiting : errand.stage = .waiting) (due : errand.due ≤ tokens.clock)
    (clock : later.clock = tokens.clock)
    (cancelled : later.cancelled = errand.cell :: tokens.cancelled)
    (calls : later.calls = tokens.calls)
    (errands : later.errands = tokens.errands.modify i (·.next tokens.clock))
    (waiters : later.waiters = tokens.waiters) (runners : later.runners = tokens.runners) :
    later.Sound := by
  have calling : later.Calling errand.cell := by
    refine ⟨errand.next tokens.clock, errands ▸ mem_modify_self found, by simp, ?_⟩
    simp only [Errand.next, waiting, if_pos due]
  have others (cell : Nat) (other : cell ≠ errand.cell) :
      later.isCancelled cell = tokens.isCancelled cell := by
    simp [isCancelled, cancelled, other]
  have attends {cell : Nat} {wait : Wait} (now : tokens.Attends cell wait) :
      later.Attends cell wait := by
    by_cases own : cell = errand.cell
    · subst own
      exact now.of_calling (by simp [signal, calls]) (by simp [isCancelled, cancelled]) calling
    · exact now.of_same_signal (by simp [signal, calls, others cell own])
        (Calling.of_other found own errands)
  refine sound.of_act found due clock errands (by simp [isCancelled, cancelled]) others ?_ ?_
  · exact waiters ▸ fun waiter member => attends (sound.waiters waiter member)
  · exact runners ▸ fun runner member => (sound.runners runner member).of_act clock errands attends

theorem Sound.call (sound : tokens.Sound) (found : tokens.errands[i]? = some errand)
    (calling : errand.stage = .calling) (clock : later.clock = tokens.clock)
    (cancelled : later.cancelled = tokens.cancelled)
    (calls : later.calls = errand.cell :: tokens.calls)
    (errands : later.errands = tokens.errands.modify i (·.next tokens.clock))
    (waiters : later.waiters = tokens.waiters.map (·.woken errand.cell))
    (runners : later.runners = tokens.runners.map (·.woken errand.cell)) : later.Sound := by
  obtain ⟨set, due⟩ := sound.acted errand (List.mem_of_getElem? found) (calling ▸ nofun)
  have flags (cell : Nat) : later.isCancelled cell = tokens.isCancelled cell := by
    simp only [isCancelled, cancelled]
  have own {wait : Wait} (now : tokens.Attends errand.cell wait) :
      later.Attends errand.cell wait.woken :=
    now.woken (by simp [signal, calls]) (flags _)
  have other {cell : Nat} {wait : Wait} (other : ¬ cell = errand.cell)
      (now : tokens.Attends cell wait) : later.Attends cell wait :=
    now.of_same_signal
      (by simp only [signal, calls, flags, List.count_cons_of_ne (Ne.symm other)])
      (Calling.of_other found other errands)
  refine sound.of_act found due clock errands (flags _ ▸ set) (fun cell _ => flags cell) ?_ ?_
  · rw [waiters]
    intro waiter member
    obtain ⟨old, was, rfl⟩ := List.mem_map.mp member
    unfold Waiter.woken
    split
    · next same => exact same ▸ own (same ▸ sound.waiters old was)
    · next apart => exact other apart (sound.waiters old was)
  · rw [runners]
    intro runner member
    obtain ⟨old, was, rfl⟩ := List.mem_map.mp member
    unfold Runner.woken
    split
    · next same =>
      exact (sound.runners old was).of_act clock errands fun now => same ▸ own (same ▸ now)
    · next apart => exact (sound.runners old was).of_act clock errands (other apart)

end Act

theorem Sound.errand_acts (sound : tokens.Sound) (i : Nat) : (tokens.move (.errand i)).Sound := by
  cases found : tokens.errands[i]? with
  | none => simpa only [move, found] using sound
  | some errand =>
    have idle (fixed : errand.next tokens.clock = errand) :
        tokens.errands.modify i (·.next tokens.clock) = tokens.errands :=
      modify_of_fixed fun old at_i => by cases found.symm.trans at_i; exact fixed
    simp only [move, found, affect]
    cases stage : errand.stage with
    | waiting =>
      by_cases due : errand.due ≤ tokens.clock
      · simp only [if_pos due]
        exact sound.flag found stage due rfl rfl rfl rfl rfl rfl
      · simp only [if_neg due, idle (by simp only [Errand.next, stage, if_neg due])]
        exact sound
    | calling => exact sound.call found stage rfl rfl rfl rfl rfl rfl
    | done =>
      simp only [idle (Errand.done_next stage)]
      exact sound

/-- An order may add a token, with its cell, and changes nothing else by that. -/
theorem introduce_eq (tokens : Tokens) (name : String) (source : Option String) :
    (tokens.introduce name source).1 =
      { tokens with cells := (tokens.introduce name source).1.cells } := by
  unfold introduce
  split <;> rfl

theorem Sound.errand_given (sound : tokens.Sound) {errand : Errand}
    (waiting : errand.stage = .waiting) (ahead : tokens.clock ≤ errand.due) :
    Sound { tokens with errands := tokens.errands ++ [errand] } := by
  set later : Tokens := { tokens with errands := tokens.errands ++ [errand] } with later_eq
  have attends {cell : Nat} {wait : Wait} : tokens.Attends cell wait → later.Attends cell wait :=
    Attends.of_same_signal rfl fun ⟨party, member, calling⟩ =>
      ⟨party, List.mem_append_left _ member, calling⟩
  refine ⟨fun cell set => ?_, fun party member begun => ?_, fun party member late => ?_,
    fun waiter member => attends (sound.waiters waiter member),
    fun runner member => (sound.runners runner member).of_kept rfl (fun entry old => ?_)
      (fun entry found => ?_) attends⟩
  · obtain ⟨party, member, begun⟩ := sound.flagged cell set
    exact ⟨party, List.mem_append_left _ member, begun⟩
  · obtain old | new := List.mem_append.mp member
    · exact sound.acted party old begun
    · cases List.mem_singleton.mp new
      exact absurd waiting begun
  · obtain old | new := List.mem_append.mp member
    · exact sound.overdue party old late
    · cases List.mem_singleton.mp new
      exact absurd late (Nat.not_lt.mpr ahead)
  · simp only [later_eq, appointments, List.map_append, List.mem_append]
    exact .inl old
  · simp only [later_eq, appointments, List.map_append, List.mem_append] at found
    obtain old | new := found
    · exact .inl old
    · cases List.mem_singleton.mp new
      exact .inr ahead

theorem Sound.order_given (sound : tokens.Sound) (name : String) (source : Option String)
    (what : Step) : (tokens.move (.order name source what)).Sound := by
  have introduced : (tokens.introduce name source).1.Sound := by
    rw [introduce_eq]
    exact sound.of_same_signals rfl rfl rfl sound.waiters sound.runners rfl
  simp only [move]
  generalize tokens.introduce name source = pair at introduced ⊢
  obtain ⟨tokens, cell⟩ := pair
  cases what with
  | create | advance delay | check => exact introduced
  | cancel => exact introduced.errand_given rfl (Nat.le_refl _)
  | cancelAfter delay => exact introduced.errand_given rfl (Nat.le_add_right _ _)
  | run length =>
    refine introduced.of_same_signals rfl rfl rfl introduced.waiters (fun runner member => ?_) rfl
    obtain old | new := List.mem_append.mp member
    · exact introduced.runners runner old
    · cases List.mem_singleton.mp new
      refine ⟨fun finish has => ?_, trivial, fun early => absurd rfl early⟩
      obtain ⟨delay, -, rfl⟩ := Option.map_eq_some_iff.mp has
      exact Nat.le_add_right _ _
  | wait task =>
    refine introduced.of_same_signals rfl rfl rfl (fun waiter member => ?_) introduced.runners rfl
    obtain old | new := List.mem_append.mp member
    · exact introduced.waiters waiter (List.mem_of_mem_filter old)
    · cases List.mem_singleton.mp new
      trivial

theorem idle_errand (idle : tokens.isIdle) {errand : Errand} (member : errand ∈ tokens.errands) :
    errand.stage = .waiting ∧ tokens.clock < errand.due ∨ errand.stage = .done := by
  simp only [isIdle, Bool.and_eq_true, List.all_eq_true] at idle
  have rests := idle.1.1 errand member
  unfold Errand.isIdle at rests
  split at rests
  · next stage => exact .inl ⟨stage, by simpa using rests⟩
  · cases rests
  · next stage => exact .inr stage

theorem idle_waiter (idle : tokens.isIdle) {waiter : Waiter} (member : waiter ∈ tokens.waiters) :
    waiter.wait = .parked ∨ waiter.wait = .resolved := by
  simp only [isIdle, Bool.and_eq_true, List.all_eq_true] at idle
  have rests := idle.1.2 waiter member
  unfold Wait.isIdle at rests
  grind

theorem idle_runner (idle : tokens.isIdle) (member : runner ∈ tokens.runners) :
    (∃ outcome, runner.phase = .ended outcome) ∨
      runner.phase = .suspended ∧ runner.wait = .parked ∧
        ∀ finish, runner.finish = some finish → tokens.clock < finish := by
  simp only [isIdle, Bool.and_eq_true, List.all_eq_true] at idle
  have rests := idle.2 runner member
  unfold Runner.isIdle at rests
  split at rests
  · next outcome stage => exact .inl ⟨outcome, stage⟩
  · next stage =>
    simp only [Runner.isAsleep, Runner.isReady, Bool.and_eq_true, decide_eq_true_eq,
      Bool.not_eq_true'] at rests
    refine .inr ⟨stage, rests.1, fun finish has => ?_⟩
    simpa [has] using rests.2
  · cases rests

theorem not_calling_of_idle (idle : tokens.isIdle) : ¬ tokens.Calling cell := by
  rintro ⟨errand, member, -, calling⟩
  obtain ⟨stage, -⟩ | stage := idle_errand idle member
  · simp [calling] at stage
  · simp [calling] at stage

theorem mem_pending {instant : Nat} :
    instant ∈ tokens.pending ↔
      (∃ errand ∈ tokens.errands, errand.stage = .waiting ∧ errand.due = instant) ∨
        ∃ runner ∈ tokens.runners, runner.outcome? = none ∧ runner.finish = some instant := by
  simp only [pending, List.mem_append, List.mem_map, List.mem_filterMap, List.mem_filter,
    decide_eq_true_eq, Option.isNone_iff_eq_none, and_assoc]

theorem mayPass_iff {instant : Nat} :
    tokens.mayPass instant ↔
      tokens.clock ≤ instant ∧ tokens.isIdle ∧ ∀ first ∈ tokens.pending, instant ≤ first := by
  simp only [mayPass, Bool.and_eq_true, decide_eq_true_eq, List.all_eq_true, and_assoc]

theorem Sound.passed (sound : tokens.Sound) {instant : Nat} (may : tokens.mayPass instant) :
    Sound { tokens with clock := instant } := by
  obtain ⟨forward, idle, first⟩ := mayPass_iff.mp may
  have ahead {errand : Errand} (member : errand ∈ tokens.errands)
      (waiting : errand.stage = .waiting) : instant ≤ errand.due :=
    first _ (mem_pending.mpr (.inl ⟨errand, member, waiting, rfl⟩))
  refine ⟨sound.flagged, fun errand member begun => ?_, fun errand member late => ?_,
    fun waiter member => sound.waiters waiter member |>.of_same_signal rfl id,
    fun runner member => ?_⟩
  · exact ⟨(sound.acted errand member begun).1,
      Nat.le_trans (sound.acted errand member begun).2 forward⟩
  · obtain ⟨waiting, -⟩ | done := idle_errand idle member
    · exact absurd (ahead member waiting) (Nat.not_le.mpr late)
    · exact done
  · have tracks := sound.runners runner member
    unfold Tracks at tracks ⊢
    obtain ⟨outcome, ended⟩ | ⟨suspended, parked, sleeps⟩ := idle_runner idle member
    · cases outcome with
      | finished =>
        simp only [ended] at tracks ⊢
        obtain ⟨finish, has, past, dues⟩ := tracks
        exact ⟨finish, has, Nat.le_trans past forward, dues⟩
      | cancelled =>
        simp only [ended] at tracks ⊢
        obtain ⟨due, found, past, before⟩ := tracks
        exact ⟨due, found, Nat.le_trans past forward, before⟩
      | abandoned => simp only [ended]
    · simp only [suspended] at tracks ⊢
      obtain ⟨-, attends, -⟩ := tracks
      refine ⟨fun finish has => ?_, attends.of_same_signal rfl id, fun _ due found => ?_⟩
      · have going : runner.outcome? = none := by simp only [Runner.outcome?, suspended]
        exact first finish (mem_pending.mpr (.inr ⟨runner, member, going, has⟩))
      · obtain ⟨errand, held, same⟩ := List.mem_map.mp found
        obtain ⟨cell, rfl⟩ := Prod.mk.inj same
        obtain ⟨waiting, -⟩ | done := idle_errand idle held
        · exact ahead held waiting
        · rw [parked] at attends
          have set := (sound.acted errand held (by simp [done])).1
          exact absurd (attends (cell ▸ set)) (not_calling_of_idle idle)

theorem Sound.move (sound : tokens.Sound) (act : Move) : (tokens.move act).Sound := by
  cases act with
  | order name source what => exact sound.order_given name source what
  | errand i => exact sound.errand_acts i
  | waiter i => exact sound.waiter_acts i
  | runner i => exact sound.runner_acts i
  | abandon i => exact sound.abandoned i
  | pass instant =>
    simp only [Tokens.move]
    split
    · next may => exact sound.passed may
    · exact sound

theorem Sound.play (sound : tokens.Sound) (moves : List Move) : (tokens.play moves).Sound := by
  induction moves generalizing tokens with
  | nil => exact sound
  | cons act moves ih => exact ih (sound.move act)

end ModelHub.Tokens
