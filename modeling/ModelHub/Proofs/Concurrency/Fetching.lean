import ModelHub.Engine.Trial
import ModelHub.Proofs.Concurrency.Cancellation

/-! The wait for a file ends with whatever comes first: the answer of the server, the time limit, or a
cancellation.

The call is bounded by the limit, and the bounded call runs under a token, so there are three layers
from which a failure may come. They are told apart whatever the order of the three instants, and in
every interleaving with the other tasks around the token. -/

namespace ModelHub

structure Fetching where
  begun : Nat
  limit : Duration
  /-- How long the server takes, unless it never answers. -/
  delay : Option Nat
  reply : Except HubError String
  /-- The token was cancelled before. -/
  beforehand : Prop
  /-- When the token is cancelled. -/
  cancellations : Set Nat

namespace Fetching

variable {fetching : Fetching} {outcome : Except HubError String}

def answerAt (fetching : Fetching) : Option Nat := fetching.delay.map (fetching.begun + ·)

def limitAt (fetching : Fetching) : Nat := fetching.begun + fetching.limit.nanos

def CancelledFirst (fetching : Fetching) : Prop :=
  fetching.beforehand ∨ ∃ instant ∈ fetching.cancellations, instant < fetching.limitAt ∧
    ∀ answer, fetching.answerAt = some answer → instant < answer

structure LimitFirst (fetching : Fetching) : Prop where
  uncancelled : ¬ fetching.beforehand
  cancellations : ∀ instant ∈ fetching.cancellations, fetching.limitAt < instant
  answer : ∀ answer, fetching.answerAt = some answer → fetching.limitAt < answer

structure AnswerFirst (fetching : Fetching) : Prop where
  uncancelled : ¬ fetching.beforehand
  answer : ∃ answer, fetching.answerAt = some answer ∧ answer < fetching.limitAt ∧
    ∀ instant ∈ fetching.cancellations, answer < instant

/-- The three instants differ. A token that was cancelled before was so before the other two. -/
structure Distinct (fetching : Fetching) : Prop where
  answer : fetching.answerAt ≠ some fetching.limitAt
  cancellations : fetching.beforehand ∨ ∀ instant ∈ fetching.cancellations,
    instant ≠ fetching.limitAt ∧ fetching.answerAt ≠ some instant

theorem not_limitFirst (cancelled : fetching.CancelledFirst) : ¬ fetching.LimitFirst := by
  intro limit
  rcases cancelled with before | ⟨instant, member, sooner, -⟩
  · exact limit.uncancelled before
  · exact Nat.lt_asymm sooner (limit.cancellations instant member)

theorem not_answerFirst (cancelled : fetching.CancelledFirst) : ¬ fetching.AnswerFirst := by
  intro answered
  obtain ⟨answer, isAnswer, -, before⟩ := answered.answer
  rcases cancelled with wasCancelled | ⟨instant, member, -, sooner⟩
  · exact answered.uncancelled wasCancelled
  · exact Nat.lt_asymm (sooner answer isAnswer) (before instant member)

theorem LimitFirst.not_answerFirst (limit : fetching.LimitFirst) : ¬ fetching.AnswerFirst := by
  intro answered
  obtain ⟨answer, isAnswer, sooner, -⟩ := answered.answer
  exact Nat.lt_asymm sooner (limit.answer answer isAnswer)

/-- The wait ends with what came first. The server may of course answer with a failure that reads like
one of the other two. -/
structure Decides (fetching : Fetching) (outcome : Except HubError String) : Prop where
  first : fetching.CancelledFirst ∨ fetching.LimitFirst ∨ fetching.AnswerFirst
  alone : (fetching.CancelledFirst → ¬ fetching.LimitFirst) ∧
    (fetching.CancelledFirst → ¬ fetching.AnswerFirst) ∧
    (fetching.LimitFirst → ¬ fetching.AnswerFirst)
  answered : fetching.AnswerFirst → outcome = fetching.reply
  cancelled_iff : outcome = .error .cancelled ↔
    fetching.CancelledFirst ∨ fetching.AnswerFirst ∧ fetching.reply = .error .cancelled
  timedOut_iff : ∀ limit, outcome = .error (.timedOut limit) ↔
    fetching.LimitFirst ∧ limit = fetching.limit ∨
      fetching.AnswerFirst ∧ fetching.reply = .error (.timedOut limit)

theorem alone : (fetching.CancelledFirst → ¬ fetching.LimitFirst) ∧
    (fetching.CancelledFirst → ¬ fetching.AnswerFirst) ∧
    (fetching.LimitFirst → ¬ fetching.AnswerFirst) :=
  ⟨not_limitFirst, not_answerFirst, LimitFirst.not_answerFirst⟩

theorem decides_cancelled (cancelled : fetching.CancelledFirst) :
    fetching.Decides (.error .cancelled) := by
  have noLimit := not_limitFirst cancelled
  have noAnswer := not_answerFirst cancelled
  refine ⟨.inl cancelled, alone, fun answered => absurd answered noAnswer,
    ⟨fun _ => .inl cancelled, fun _ => rfl⟩, fun limit => ⟨nofun, ?_⟩⟩
  rintro (limited | answered)
  · exact absurd limited.1 noLimit
  · exact absurd answered.1 noAnswer

theorem decides_timedOut (first : fetching.LimitFirst) :
    fetching.Decides (.error (.timedOut fetching.limit)) := by
  have noAnswer := first.not_answerFirst
  refine ⟨.inr (.inl first), alone, fun answered => absurd answered noAnswer, ⟨nofun, ?_⟩,
    fun limit => ?_⟩
  · rintro (cancelled | answered)
    · exact absurd first (not_limitFirst cancelled)
    · exact absurd answered.1 noAnswer
  · constructor
    · intro same
      cases same
      exact .inl ⟨first, rfl⟩
    · rintro (⟨-, rfl⟩ | answered)
      · rfl
      · exact absurd answered.1 noAnswer

theorem decides_reply (first : fetching.AnswerFirst) : fetching.Decides fetching.reply := by
  refine ⟨.inr (.inr first), alone, fun _ => rfl, ⟨fun same => .inr ⟨first, same⟩, ?_⟩,
    fun limit => ⟨fun same => .inr ⟨first, same⟩, ?_⟩⟩
  · rintro (cancelled | answered)
    · exact absurd first (not_answerFirst cancelled)
    · exact answered.2
  · rintro (limited | answered)
    · exact absurd first limited.1.not_answerFirst
    · exact answered.2

/-- A look at the bounded call: at the answer first, and then at the limit. -/
def poll (fetching : Fetching) (clock : Nat) : Option (Except Elapsed (Except HubError String)) :=
  if fetching.answerAt.any (· ≤ clock) then some (.ok fetching.reply)
  else if fetching.limitAt ≤ clock then some (.error {})
  else none

def length (limit : Duration) (delay : Option Nat) : Nat := delay.elim limit.nanos (min limit.nanos)

def finish (fetching : Fetching) : Nat := fetching.begun + length fetching.limit fetching.delay

def resultOf (fetching : Fetching) : Runner.Outcome → Option (Except HubError String)
  | .finished =>
    (fetching.poll fetching.finish).map fun bounded => Trial.unwound fetching.limit (.ok bounded)
  | .cancelled => some (Trial.unwound fetching.limit (.error {}))
  | .abandoned => none

theorem finish_cases (differ : fetching.answerAt ≠ some fetching.limitAt) :
    fetching.answerAt = some fetching.finish ∧ fetching.finish < fetching.limitAt ∨
      fetching.finish = fetching.limitAt ∧
        ∀ answer, fetching.answerAt = some answer → fetching.limitAt < answer := by
  unfold answerAt limitAt finish length at *
  generalize fetching.delay = delay at *
  cases delay with
  | none => exact .inr ⟨rfl, nofun⟩
  | some delay =>
    have apart : delay ≠ fetching.limit.nanos :=
      fun same => differ (congrArg (fun delay => some (fetching.begun + delay)) same)
    rcases Nat.lt_or_gt_of_ne apart with sooner | later
    · left
      rw [Option.elim_some, Nat.min_eq_right (Nat.le_of_lt sooner)]
      exact ⟨rfl, Nat.add_lt_add_left sooner _⟩
    · right
      rw [Option.elim_some, Nat.min_eq_left (Nat.le_of_lt later)]
      refine ⟨rfl, ?_⟩
      rintro _ ⟨⟩
      exact Nat.add_lt_add_left later _

theorem finish_le_limitAt : fetching.finish ≤ fetching.limitAt := by
  unfold limitAt finish length
  cases fetching.delay with
  | none => exact Nat.le_refl _
  | some delay => exact Nat.add_le_add_left (Nat.min_le_left _ _) _

theorem finish_le_answer {answer : Nat} (isAnswer : fetching.answerAt = some answer) :
    fetching.finish ≤ answer := by
  unfold answerAt at isAnswer
  unfold finish length
  obtain ⟨delay, known, rfl⟩ := Option.map_eq_some_iff.mp isAnswer
  rw [known]
  exact Nat.add_le_add_left (Nat.min_le_right _ _) _

theorem resultOf_answered (isAnswer : fetching.answerAt = some fetching.finish) :
    fetching.resultOf .finished = some fetching.reply := by
  simp [resultOf, poll, isAnswer, Trial.unwound, Trial.unbounded]

theorem resultOf_limit (isLimit : fetching.finish = fetching.limitAt)
    (later : ∀ answer, fetching.answerAt = some answer → fetching.limitAt < answer) :
    fetching.resultOf .finished = some (.error (.timedOut fetching.limit)) := by
  have none : ¬ fetching.answerAt.any (· ≤ fetching.limitAt) := by
    rw [Option.any_eq_true]
    rintro ⟨answer, isAnswer, past⟩
    exact absurd (later answer isAnswer) (Nat.not_lt.mpr (of_decide_eq_true past))
  simp [resultOf, poll, isLimit, none, Trial.unwound, Trial.unbounded]

def HasCome (fetching : Fetching) (clock : Nat) : Prop :=
  fetching.beforehand ∨ (∃ instant ∈ fetching.cancellations, instant ≤ clock) ∨
    fetching.limitAt ≤ clock ∨ ∃ answer, fetching.answerAt = some answer ∧ answer ≤ clock

/-- What is known of the run of a bounded call by some time: it was cancelled before its task had its
answer, or its task had the answer before. -/
structure Knows (fetching : Fetching) (clock : Nat) (outcome : Option Runner.Outcome) : Prop where
  cancelled_iff : outcome = some .cancelled ↔ fetching.beforehand ∨
    ∃ instant ∈ fetching.cancellations, instant ≤ clock ∧ instant < fetching.finish
  finished_iff : outcome = some .finished ↔ ¬ fetching.beforehand ∧ fetching.finish ≤ clock ∧
    ∀ instant ∈ fetching.cancellations, fetching.finish < instant
  wanted : outcome ≠ some .abandoned

variable {clock : Nat} {last : Runner.Outcome} {known : Option Runner.Outcome}

theorem Distinct.finish (distinct : fetching.Distinct) (uncancelled : ¬ fetching.beforehand) :
    ∀ instant ∈ fetching.cancellations, instant ≠ fetching.finish := by
  intro instant member same
  obtain ⟨notLimit, notAnswer⟩ := distinct.cancellations.resolve_left uncancelled instant member
  rcases finish_cases distinct.answer with ⟨isAnswer, -⟩ | ⟨isLimit, -⟩
  · exact notAnswer (same ▸ isAnswer)
  · exact notLimit (same.trans isLimit)

theorem Knows.decides (knows : fetching.Knows clock (some last)) (distinct : fetching.Distinct) :
    ∃ result, fetching.resultOf last = some result ∧ fetching.Decides result := by
  cases last with
  | abandoned => exact absurd rfl knows.wanted
  | cancelled =>
    refine ⟨_, rfl, decides_cancelled ?_⟩
    rcases knows.cancelled_iff.mp rfl with before | ⟨instant, member, -, sooner⟩
    · exact .inl before
    · exact .inr ⟨instant, member, Nat.lt_of_lt_of_le sooner finish_le_limitAt,
        fun answer isAnswer => Nat.lt_of_lt_of_le sooner (finish_le_answer isAnswer)⟩
  | finished =>
    obtain ⟨uncancelled, -, first⟩ := knows.finished_iff.mp rfl
    rcases finish_cases distinct.answer with ⟨isAnswer, sooner⟩ | ⟨isLimit, later⟩
    · exact ⟨_, resultOf_answered isAnswer, decides_reply ⟨uncancelled, _, isAnswer, sooner, first⟩⟩
    · rw [isLimit] at first
      exact ⟨_, resultOf_limit isLimit later, decides_timedOut ⟨uncancelled, first, later⟩⟩

theorem Knows.isSome (knows : fetching.Knows clock known) (distinct : fetching.Distinct)
    (come : fetching.HasCome clock) : known.isSome := by
  by_cases beforehand : fetching.beforehand
  · rw [knows.cancelled_iff.mpr (.inl beforehand)]
    rfl
  · have apart := distinct.finish beforehand
    by_cases sooner : ∃ instant ∈ fetching.cancellations, instant ≤ clock ∧ instant < fetching.finish
    · rw [knows.cancelled_iff.mpr (.inr sooner)]
      rfl
    · have later : ∀ instant ∈ fetching.cancellations, instant ≤ clock → fetching.finish < instant :=
        fun instant member past => Nat.lt_of_le_of_ne
          (Nat.not_lt.mp fun less => sooner ⟨instant, member, past, less⟩) (apart instant member).symm
      have finished : fetching.finish ≤ clock := by
        rcases come with before | ⟨instant, member, past⟩ | limit | ⟨answer, isAnswer, past⟩
        · exact absurd before beforehand
        · exact Nat.le_trans (Nat.le_of_lt (later instant member past)) past
        · exact Nat.le_trans finish_le_limitAt limit
        · exact Nat.le_trans (finish_le_answer isAnswer) past
      have first : ∀ instant ∈ fetching.cancellations, fetching.finish < instant := by
        intro instant member
        rcases Nat.le_total instant clock with past | ahead
        · exact later instant member past
        · exact Nat.lt_of_le_of_ne (Nat.le_trans finished ahead) (apart instant member).symm
      rw [knows.finished_iff.mpr ⟨beforehand, finished, first⟩]
      rfl

end Fetching

namespace Runner

variable {runner : Runner} {clock : Nat} {signal : Signal}

theorem ready_of_next (going : runner.outcome? = none)
    (ended : (runner.next clock signal).outcome? = some .finished) : runner.isReady clock := by
  unfold next outcome? at *
  grind

theorem outcome?_woken (cell : Nat) : (runner.woken cell).outcome? = runner.outcome? := by
  unfold woken
  split <;> rfl

theorem outcome?_abandon (going : runner.outcome? = none) :
    runner.abandon.outcome? = some .abandoned := by
  unfold abandon outcome? at *
  grind

end Runner

namespace Tokens

variable {tokens later : Tokens} {cell i : Nat} {name : String} {source : Option String}

def fetching (tokens later : Tokens) (cell : Nat) (limit : Duration) (delay : Option Nat)
    (reply : Except HubError String) : Fetching :=
  { begun := tokens.clock, limit, delay, reply
    beforehand := tokens.isCancelled cell
    cancellations := {instant | (cell, instant) ∈ later.appointments} }

theorem Tracks.ahead {runner : Runner} (tracks : tokens.Tracks runner)
    (going : runner.outcome? = none) {finish : Nat} (has : runner.finish = some finish) :
    tokens.clock ≤ finish := by
  unfold Tracks at tracks
  cases stage : runner.phase with
  | ended outcome =>
    rw [Runner.outcome?_eq_some.mpr stage] at going
    cases going
  | checking | token | task | suspended =>
    simp only [stage] at tracks
    exact tracks.1 finish has

/-- A run ends with its task at the very instant at which the task has its answer. -/
theorem Sound.ends_on_time (sound : tokens.Sound) {act : Move} {runner : Runner}
    (found : tokens.runners[i]? = some runner) (going : tokens.outcomeAt i = none)
    (ended : (tokens.move act).outcomeAt i = some .finished) : runner.finish = some tokens.clock := by
  rw [outcomeAt, found, Option.bind_some] at going
  obtain ⟨after, now, change⟩ := runner_after found act
  rw [outcomeAt, now, Option.bind_some] at ended
  rcases change with rfl | rfl | ⟨other, rfl⟩ | ⟨-, rfl⟩
  · cases going.symm.trans ended
  · obtain ⟨finish, has, past⟩ := (Option.any_eq_true _ _).mp (Runner.ready_of_next going ended)
    have ahead := (sound.runners runner (List.mem_of_getElem? found)).ahead going has
    rw [has, Nat.le_antisymm (of_decide_eq_true past) ahead]
  · rw [Runner.outcome?_woken, going] at ended
    cases ended
  · rw [Runner.outcome?_abandon going] at ended
    cases ended

theorem Sound.knows (sound : tokens.Sound) {limit : Duration} {delay : Option Nat}
    {reply : Except HubError String} {more : List Move}
    (next : later =
      (tokens.move (.order name source (.run (some (Fetching.length limit delay))))).play more)
    (idle : later.isIdle) (wanted : later.outcomeAt tokens.runners.length ≠ some .abandoned)
    (distinct : (tokens.fetching later (tokens.introduce name source).2 limit delay reply).Distinct) :
    (tokens.fetching later (tokens.introduce name source).2 limit delay reply).Knows later.clock
      (later.outcomeAt tokens.runners.length) := by
  have answers := sound.answers next idle wanted ?_
  · refine ⟨answers.cancelled_iff.trans ?_, answers.finished_iff.trans ?_, wanted⟩
    · simp only [Option.map_some, Option.some_inj, forall_eq']
      exact Iff.rfl
    · simp only [Option.map_some, Option.some_inj, exists_eq_left']
      exact Iff.rfl
  · by_cases set : tokens.isCancelled (tokens.introduce name source).2
    · exact .inl set
    · refine .inr fun due found same => ?_
      exact distinct.finish set due found (Option.some_inj.mp same).symm

end Tokens

end ModelHub
