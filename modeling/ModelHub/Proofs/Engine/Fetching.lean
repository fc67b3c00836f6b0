import ModelHub.Engine.Trial
import ModelHub.Proofs.Concurrency.Fetching

namespace ModelHub

theorem Timed.race_cases {α β : Type} (wait : Timed α) (rival : Timed β) :
    (∃ value instant, wait = some (value, instant) ∧ wait.race rival = some (.ok value, instant) ∧
      ∀ other, rival = some other → instant ≤ other.2) ∨
    (∃ value instant, rival = some (value, instant) ∧
      wait.race rival = some (.error value, instant) ∧
      ∀ own, wait = some own → instant < own.2) ∨
    wait = none ∧ rival = none := by
  cases wait with
  | none =>
    cases rival with
    | none => exact .inr (.inr ⟨rfl, rfl⟩)
    | some other => exact .inr (.inl ⟨other.1, other.2, rfl, rfl, nofun⟩)
  | some own =>
    cases rival with
    | none => exact .inl ⟨own.1, own.2, rfl, rfl, nofun⟩
    | some other =>
      by_cases first : own.2 ≤ other.2
      · refine .inl ⟨own.1, own.2, rfl, if_pos first, ?_⟩
        rintro _ ⟨⟩
        exact first
      · refine .inr (.inl ⟨other.1, other.2, rfl, if_neg first, ?_⟩)
        rintro _ ⟨⟩
        exact Nat.not_le.mp first

namespace Fault

theorem consult_of_none {call : Call} {faults : List Fault}
    (none : ∀ fault ∈ faults, fault.applies call = false) :
    consult call faults = (false, .none, faults) := by
  induction faults with
  | nil => rfl
  | cons fault rest ih =>
    obtain ⟨passes, others⟩ := List.forall_mem_cons.mp none
    simp only [consult, passes, ih others, Bool.not_false, if_true]

end Fault

abbrev FileServer := FileRequest → Option Nat × Except HubError String

namespace Trial

def serving (server : FileServer) : Program.Handler Trial
  | .fetch request limit, trial =>
    let (outcome, after) := trial.awaitFile (server request).1 (server request).2 limit
    (outcome, { after with log := (.fetch request limit, failureOf outcome) :: after.log })
  | call, trial => answer call trial

def fileServer (trial : Trial) : FileServer := fun request =>
  (trial.git.delay, trial.git.fetch request)

def fetching (server : FileServer) (request : FileRequest) (limit : Duration) (trial : Trial) :
    Fetching :=
  { begun := trial.elapsed, limit
    delay := (server request).1
    reply := (server request).2
    beforehand := trial.isCancelled
    cancellations := {instant | trial.deadline.map (max trial.elapsed) = some instant} }

variable {server : FileServer} {request : FileRequest} {limit : Duration} {trial : Trial}

/-- In the world, too, the bounded call ends when it has something to show. -/
theorem bounded_eq : ∃ shown,
    (trial.fetching server request limit).poll (trial.fetching server request limit).finish =
      some shown ∧
    trial.bounded limit (trial.after (server request).1 (server request).2) =
      some (shown, (trial.fetching server request limit).finish) := by
  unfold bounded after fetching Fetching.poll Fetching.finish Fetching.length Fetching.answerAt
    Fetching.limitAt
  cases (server request).1 with
  | none => exact ⟨.error {}, by simp, rfl⟩
  | some delay =>
    by_cases inTime : delay ≤ limit.nanos
    · refine ⟨.ok (server request).2, ?_, ?_⟩
      · simp [Nat.min_eq_right inTime]
      · simp [Timed.race, inTime]
    · have late := Nat.not_le.mp inTime
      refine ⟨.error {}, ?_, ?_⟩
      · simp [Nat.min_eq_left (Nat.le_of_lt late), late]
      · simp [Timed.race, Nat.min_eq_left (Nat.le_of_lt late), inTime]

theorem awaitFile_decides (uncancelled : trial.isCancelled = false)
    (distinct : (trial.fetching server request limit).Distinct) :
    ∃ outcome after,
      trial.awaitFile (server request).1 (server request).2 limit = (some outcome, after) ∧
        (trial.fetching server request limit).Decides outcome ∧ after.log = trial.log := by
  obtain ⟨shown, polled, isBounded⟩ := @bounded_eq server request limit trial
  generalize known : trial.fetching server request limit = fetching at *
  have waits : ¬ fetching.beforehand := by simp [← known, Trial.fetching, uncancelled]
  have isLimit : fetching.limit = limit := known ▸ rfl
  have cancelledAt : ∀ instant,
      trial.cancellation = some instant ↔ instant ∈ fetching.cancellations := by
    intro instant
    rw [cancellation, uncancelled, ← known]
    exact Iff.rfl
  unfold awaitFile awaitUncancelled
  rw [isBounded]
  rcases Timed.race_cases (some (shown, fetching.finish))
    (trial.cancellation.map fun instant => (({} : Interrupted), instant)) with
    ⟨_, _, ⟨⟩, won, before⟩ | ⟨_, instant, isDue, won, sooner⟩ | ⟨⟨⟩, -⟩
  · have first : ∀ instant ∈ fetching.cancellations, fetching.finish < instant := by
      intro instant member
      refine Nat.lt_of_le_of_ne ?_ (distinct.finish waits instant member).symm
      exact before (_, instant) (Option.map_eq_some_iff.mpr
        ⟨instant, (cancelledAt instant).mpr member, rfl⟩)
    have knows : fetching.Knows fetching.finish (some .finished) := by
      refine ⟨⟨by simp, ?_⟩, ⟨fun _ => ⟨waits, Nat.le_refl _, first⟩, fun _ => rfl⟩, by simp⟩
      rintro (beforehand | ⟨instant, member, -, sooner⟩)
      · exact absurd beforehand waits
      · exact absurd (first instant member) (Nat.lt_asymm sooner)
    obtain ⟨result, isResult, decides⟩ := knows.decides distinct
    rw [Fetching.resultOf, polled, Option.map_some, isLimit] at isResult
    rw [won]
    exact ⟨_, _, rfl, Option.some_inj.mp isResult ▸ decides, rfl⟩
  · obtain ⟨due, isCancellation, same⟩ := Option.map_eq_some_iff.mp isDue
    obtain ⟨-, rfl⟩ := Prod.mk.inj same
    have member := (cancelledAt due).mp isCancellation
    have early : due < fetching.finish := sooner _ rfl
    have knows : fetching.Knows due (some .cancelled) := by
      refine ⟨⟨fun _ => .inr ⟨due, member, Nat.le_refl _, early⟩, fun _ => rfl⟩, ⟨by simp, ?_⟩, by simp⟩
      rintro ⟨-, -, first⟩
      exact absurd early (Nat.lt_asymm (first due member))
    obtain ⟨result, isResult, decides⟩ := knows.decides distinct
    rw [won]
    exact ⟨_, _, rfl, Option.some_inj.mp isResult ▸ decides, rfl⟩

theorem consult_of_none {call : Call} (none : ∀ fault ∈ trial.faults, fault.applies call = false) :
    trial.consult call = (.none, trial) := by
  simp only [consult, Fault.consult_of_none none, Bool.or_false]

/-- The world is one with the file server that it has, as long as that is not out of order. -/
theorem answer_eq_serving
    (none : ∀ fault ∈ trial.faults, fault.applies (.fetch request limit) = false) :
    answer (.fetch request limit) trial = serving trial.fileServer (.fetch request limit) trial := by
  simp only [answer, respond, fetch, consult_of_none none, serving, fileServer]

end Trial

namespace Work

variable {σ : Type} {handler : Program.Handler σ} {state after : σ} {request : FileRequest}
  {limit : Duration}

theorem run_fetch_of_cancelled (answered : handler .isCancelled state = (some (.ok true), after)) :
    Program.run handler (fetch request limit).run state = (some (.error .cancelled), after) := by
  change Program.run handler (.ask .isCancelled _) state = _
  rw [Program.run, answered]
  rfl

theorem run_fetch_of_going {outcome : Except HubError String} {last : σ}
    (answered : handler .isCancelled state = (some (.ok false), after))
    (fetched : handler (.fetch request limit) after = (some outcome, last)) :
    Program.run handler (fetch request limit).run state = (some outcome, last) := by
  change Program.run handler (.ask .isCancelled _) state = _
  rw [Program.run, answered]
  change Program.run handler (.ask (.fetch request limit) _) after = _
  rw [Program.run, fetched]
  cases outcome <;> rfl

end Work

/-- In the world the wait ends with what comes first, after one call of the server, or without one if
the token was cancelled before; the memory server is one of the servers.

Under a token the same holds of every interleaving of its tasks. A run that was cancelled before never
gets to the bounded call, and any other one looks at that call for the last time when it ends. -/
theorem fetches_end_with_what_comes_first :
    (∀ (server : FileServer) (request : FileRequest) (limit : Duration) (trial : Trial),
      (trial.fetching server request limit).Distinct →
      ∃ outcome last,
        Program.run (Trial.serving server) (Work.fetch request limit).run trial =
          (some outcome, last) ∧
        (trial.fetching server request limit).Decides outcome ∧
        last.log = (if trial.isCancelled then []
          else [(.fetch request limit, Trial.failureOf (some outcome))]) ++
            (.isCancelled, none) :: trial.log) ∧
    (∀ call trial, (∀ fault ∈ trial.faults, fault.applies call = false) →
      Trial.answer call trial = Trial.serving trial.fileServer call trial) ∧
    ∀ (moves more : List Tokens.Move) (name : String) (source : Option String) (limit : Duration)
      (delay : Option Nat) (reply : Except HubError String),
      let tokens := Tokens.play {} moves
      let i := tokens.runners.length
      let cell := (tokens.introduce name source).2
      let order : Tokens.Move := .order name source (.run (some (Fetching.length limit delay)))
      let later := (tokens.move order).play more
      let fetching := tokens.fetching later cell limit delay reply
      (tokens.isCancelled cell → ∀ runner, later.runners[i]? = some runner → runner.Refused) ∧
      (∀ act, later.outcomeAt i = none → (later.move act).outcomeAt i = some .finished →
        later.clock = fetching.finish) ∧
      (later.isIdle → later.outcomeAt i ≠ some .abandoned → fetching.Distinct →
        (∀ last, later.outcomeAt i = some last →
          ∃ result, fetching.resultOf last = some result ∧ fetching.Decides result) ∧
        (fetching.HasCome later.clock → (later.outcomeAt i).isSome)) := by
  refine ⟨fun server request limit trial distinct => ?_, fun call trial none => ?_,
    fun moves more name source limit delay reply => ?_⟩
  · cases cancelled : trial.isCancelled with
    | true =>
      have answered : Trial.serving server .isCancelled trial =
          (some (.ok true), { trial with log := (.isCancelled, none) :: trial.log }) := by
        rw [← cancelled]
        rfl
      have first : (trial.fetching server request limit).CancelledFirst := .inl cancelled
      exact ⟨_, _, Work.run_fetch_of_cancelled answered, Fetching.decides_cancelled first, rfl⟩
    | false =>
      have answered : Trial.serving server .isCancelled trial =
          (some (.ok false), { trial with log := (.isCancelled, none) :: trial.log }) := by
        rw [← cancelled]
        rfl
      obtain ⟨outcome, last, awaited, decides, log⟩ := @Trial.awaitFile_decides server request limit
        { trial with log := (.isCancelled, none) :: trial.log } cancelled distinct
      have fetched : Trial.serving server (.fetch request limit)
          { trial with log := (.isCancelled, none) :: trial.log } =
            (some outcome, { last with
              log := (.fetch request limit, Trial.failureOf (some outcome)) :: last.log }) := by
        rw [Trial.serving, awaited]
      refine ⟨_, _, Work.run_fetch_of_going answered fetched, decides, ?_⟩
      rw [log]
      rfl
  · cases call with
    | fetch request limit => exact Trial.answer_eq_serving none
    | store request | submit repoType owner name limit | now | isCancelled | acquire repositoryId
    | release repositoryId => rfl
  · have sound := Tokens.sound_empty.play moves
    generalize Tokens.play {} moves = tokens at sound
    have started := Tokens.started_found tokens name source (some (Fetching.length limit delay))
    obtain ⟨runner, found, becomes⟩ := Tokens.becomes_play started more
    refine ⟨fun set runner => Tokens.refused_started set, fun act going ended => ?_,
      fun idle wanted distinct => ?_⟩
    · have onTime := ((sound.move _).play more).ends_on_time found going ended
      exact (Option.some_inj.mp (onTime.symm.trans becomes.finish))
    · have knows := sound.knows rfl idle wanted distinct
      refine ⟨fun last ended => ?_, knows.isSome distinct⟩
      rw [ended] at knows
      exact knows.decides distinct

/-- A server that never answers is given up at the limit. A server that is slow to fail is left as
soon as a clone of the token is cancelled. -/
theorem first_of_three_counts :
    let request : FileRequest := ⟨.model, "acme", "bert", "main", "config.json"⟩
    let failed : Except HubError String := .error (.unavailable "git" "down")
    let never : FileServer := fun _ => (none, failed)
    let world : Trial := { now := default, deadline := some 30 }
    let acts : List Tokens.Move := .order "b" (some "a") (.cancelAfter 10) ::
      List.replicate 5 (.runner 0) ++ [.pass 10, .errand 0, .errand 0] ++ List.replicate 3 (.runner 0)
    let later := (({} : Tokens).move (.order "a" none (.run (some 20)))).play acts
    let fetching := Tokens.fetching {} later 0 ⟨20⟩ (some 40) failed
    (Program.run (Trial.serving never) (Work.fetch request ⟨20⟩).run world).1 =
        some (.error (.timedOut ⟨20⟩)) ∧
      later.isIdle ∧ later.outcomeAt 0 = some .cancelled ∧ fetching.Distinct ∧
      fetching.Decides (.error .cancelled) := by
  intro request failed never world acts later fetching
  obtain ⟨inWorld, -, underToken⟩ := fetches_end_with_what_comes_first
  have differ : (world.fetching never request ⟨20⟩).Distinct := by
    refine ⟨nofun, .inr ?_⟩
    rintro _ ⟨⟩
    exact ⟨by decide, nofun⟩
  have isLimit : (world.fetching never request ⟨20⟩).LimitFirst := by
    refine ⟨Bool.false_ne_true, ?_, nofun⟩
    rintro _ ⟨⟩
    decide
  obtain ⟨outcome, last, ran, decides, -⟩ := inWorld _ _ _ _ differ
  have timedOut : outcome = .error (.timedOut ⟨20⟩) :=
    (decides.timedOut_iff ⟨20⟩).mpr (.inl ⟨isLimit, rfl⟩)
  have idle : later.isIdle := by decide
  have ended : later.outcomeAt 0 = some .cancelled := by decide
  have dues : later.appointments = [(0, 10)] := by decide
  have differToo : fetching.Distinct := by
    refine ⟨by decide, .inr fun instant member => ?_⟩
    have found : (0, instant) ∈ later.appointments := member
    rw [dues, List.mem_singleton, Prod.mk.injEq] at found
    obtain ⟨-, rfl⟩ := found
    decide
  obtain ⟨-, -, atRest⟩ := underToken [] acts "a" none ⟨20⟩ (some 40) failed
  have wanted : later.outcomeAt 0 ≠ some .abandoned := by rw [ended]; nofun
  obtain ⟨result, same, decidesToo⟩ := (atRest idle wanted differToo).1 _ ended
  obtain rfl := Option.some_inj.mp same
  exact ⟨by rw [ran, timedOut], idle, ended, differToo, decidesToo⟩

end ModelHub
