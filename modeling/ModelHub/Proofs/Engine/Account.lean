import ModelHub.Proofs.Engine.Dialogue
import ModelHub.Proofs.Store.Reading

/-! How work accounts for the failures it meets, whatever its surroundings are.

Work that notes failures and goes on can lose its notes when it breaks off. So the noted failures are
part of the conditions on work: with any of them at hand it may break off only for the store or for a
cancellation, failures that weigh as much as those that get lost. -/

namespace ModelHub

open Work (askStore attempt attemptEach perform checkpoint)

structure Dialogue.Meets (before : Dialogue) (met : List HubError) (after : Dialogue) : Prop where
  failures : after.failures = before.failures ++ met
  submissions : after.submissions = before.submissions

namespace Dialogue.Meets

theorem refl (dialogue : Dialogue) : dialogue.Meets [] dialogue := ⟨by simp, rfl⟩

theorem trans {before between after : Dialogue} {met more : List HubError}
    (first : before.Meets met between) (second : between.Meets more after) :
    before.Meets (met ++ more) after :=
  ⟨by rw [second.failures, first.failures, List.append_assoc],
    second.submissions.trans first.submissions⟩

end Dialogue.Meets

theorem HubError.isSkippable_iff {e : HubError} :
    e.isSkippable ↔ e.kind = .absent ∨ e.kind = .malformed := by
  unfold isSkippable
  cases e.kind <;> simp

theorem HubError.isRetryable_iff {e : HubError} :
    e.isRetryable ↔ e.kind = .store ∨ e.kind = .outage ∨ e.kind = .cancelled := by
  unfold isRetryable
  cases e.kind <;> simp

theorem HubError.not_isRetryable {e : HubError} (skippable : e.isSkippable) : ¬ e.isRetryable := by
  rw [isRetryable_iff]
  rcases isSkippable_iff.mp skippable with kind | kind <;> simp [kind]

namespace Surroundings

variable {surroundings : Surroundings} {α β : Type}

/-- A failure for which any work may break off: of the store, or the cancellation. -/
def Breaks (surroundings : Surroundings) (e : HubError) : Prop :=
  e = .cancelled ∨
    ∃ dialogue request, (surroundings.reply dialogue (.store request)).1 = .error e

/-- What is reported tells of what was met: an error is met before it is reported, unless it says that
something is missing or malformed, and of failures worth a redelivery at least one is reported. -/
structure Covers (surroundings : Surroundings) (reported met : List HubError) : Prop where
  founded : ∀ e ∈ reported, e.isSkippable ∨ e ∈ met
  complete : (∀ e, surroundings.Breaks e → e.isRetryable) →
    (∃ e ∈ met, e.isRetryable) → ∃ e ∈ reported, e.isRetryable

namespace Covers

variable {reported met more : List HubError} {e : HubError}

theorem refl (met : List HubError) : surroundings.Covers met met where
  founded _ member := Or.inr member
  complete _ retryable := retryable

theorem of_skippable (skippable : e.isSkippable) : surroundings.Covers [e] [] where
  founded other member := Or.inl (List.mem_singleton.mp member ▸ skippable)
  complete _ retryable := by simp at retryable

theorem append {others : List HubError} (first : surroundings.Covers reported met)
    (second : surroundings.Covers others more) :
    surroundings.Covers (reported ++ others) (met ++ more) where
  founded e member := by
    rcases List.mem_append.mp member with early | late
    · exact (first.founded e early).imp id fun present => List.mem_append_left more present
    · exact (second.founded e late).imp id fun present => List.mem_append_right met present
  complete breaks retryable := by
    obtain ⟨e, member, isRetryable⟩ := retryable
    rcases List.mem_append.mp member with early | late
    · obtain ⟨other, present, otherRetryable⟩ := first.complete breaks ⟨e, early, isRetryable⟩
      exact ⟨other, List.mem_append_left others present, otherRetryable⟩
    · obtain ⟨other, present, otherRetryable⟩ := second.complete breaks ⟨e, late, isRetryable⟩
      exact ⟨other, List.mem_append_right reported present, otherRetryable⟩

/-- A failure of the store makes up for whatever it keeps from being reported. -/
theorem of_breaks (isLast : surroundings.Covers [e] more) (breaks : surroundings.Breaks e) :
    surroundings.Covers [e] (met ++ more) where
  founded other member :=
    (isLast.founded other member).imp id fun present => List.mem_append_right met present
  complete store _ := ⟨e, List.mem_cons_self, store e breaks⟩

theorem pass_over (covers : surroundings.Covers [e] met) (skippable : e.isSkippable) :
    surroundings.Covers [] met where
  founded _ member := absurd member List.not_mem_nil
  complete breaks retryable := by
    obtain ⟨other, member, isRetryable⟩ := covers.complete breaks retryable
    obtain rfl := List.mem_singleton.mp member
    exact absurd isRetryable (HubError.not_isRetryable skippable)

theorem mem_of_not_skippable (covers : surroundings.Covers reported met) (member : e ∈ reported)
    (grave : ¬ e.isSkippable) : e ∈ met :=
  (covers.founded e member).resolve_left grave

end Covers

/-- From any dialogue on, a program hands nothing in, and its value fits the failures it meets. -/
def Yields (surroundings : Surroundings) (program : Program α) (fits : α → List HubError → Prop) :
    Prop :=
  ∀ before, ∃ met, before.Meets met (surroundings.converse program before).2 ∧
    fits (surroundings.converse program before).1 met

theorem yields_done {value : α} {fits : α → List HubError → Prop} (holds : fits value []) :
    surroundings.Yields (.done value) fits :=
  fun before => ⟨[], .refl before, holds⟩

theorem yields_bind {program : Program α} {next : α → Program β} {fits : β → List HubError → Prop}
    (yields : surroundings.Yields program fun value met =>
      surroundings.Yields (next value) fun result more => fits result (met ++ more)) :
    surroundings.Yields (program >>= next) fits := by
  intro before
  obtain ⟨met, meets, onward⟩ := yields before
  obtain ⟨more, meetsMore, holds⟩ := onward (surroundings.converse program before).2
  rw [converse_bind]
  exact ⟨met ++ more, meets.trans meetsMore, holds⟩

theorem Yields.mono {program : Program α} {fits weaker : α → List HubError → Prop}
    (yields : surroundings.Yields program fits)
    (weaken : ∀ value met, fits value met → weaker value met) :
    surroundings.Yields program weaker := by
  intro before
  obtain ⟨met, meets, holds⟩ := yields before
  exact ⟨met, meets, weaken _ met holds⟩

theorem yields_ask {call : Call} {next : Except HubError call.Reply → Program α}
    {fits : α → List HubError → Prop}
    (handsNothingIn : ∀ reply, Exchange.submission? ⟨call, reply⟩ = none)
    (replied : ∀ dialogue, surroundings.Yields (next (surroundings.reply dialogue call).1)
      fun value more => fits value
        ((Exchange.failure? ⟨call, (surroundings.reply dialogue call).1⟩).toList ++ more)) :
    surroundings.Yields (.ask call next) fits := by
  intro before
  obtain ⟨more, meets, holds⟩ := replied before (surroundings.answer call before).2
  have asked : before.Meets (Exchange.failure? ⟨call, (surroundings.reply before call).1⟩).toList
      (surroundings.answer call before).2 := by
    refine ⟨Dialogue.failures_cons _ _ _, (Dialogue.submissions_cons _ _ _).trans ?_⟩
    rw [handsNothingIn]
    exact List.append_nil _
  rw [converse_ask]
  exact ⟨_, asked.trans meets, holds⟩

theorem yields_isCancelled {fits : Bool → List HubError → Prop} (onward : fits false [])
    (cancelled : fits true [.cancelled]) : surroundings.Yields Work.isCancelled fits := by
  refine yields_ask (fun reply => by cases reply <;> rfl) fun dialogue => ?_
  cases answer : surroundings.isCancelled dialogue with
  | false =>
    simp only [reply, answer]
    exact yields_done onward
  | true =>
    simp only [reply, answer]
    exact yields_done cancelled

theorem yields_release {repositoryId : Int} {fits : Unit → List HubError → Prop}
    (onward : fits () []) : surroundings.Yields (Work.release repositoryId) fits :=
  yields_ask (fun reply => by cases reply <;> rfl) fun _ => yields_done onward

/-- How an outcome stands to the failures met, if others were noted before: a value comes with the
list of notes, which has grown, and an error is the only one to be reported. -/
def Accounted (surroundings : Surroundings) (noted : List HubError)
    (good : α → List HubError → Prop) : Except HubError α → List HubError → Prop
  | .ok value, met =>
    ∃ reported, surroundings.Covers reported met ∧ good value (noted ++ reported)
  | .error e, met => surroundings.Covers [e] met ∧ (noted ≠ [] → surroundings.Breaks e)

def Accounts (surroundings : Surroundings) (work : Work α) (noted : List HubError)
    (good : α → List HubError → Prop) : Prop :=
  surroundings.Yields work.run (surroundings.Accounted noted good)

variable {noted : List HubError}

theorem accounts_pure {value : α} {good : α → List HubError → Prop} (holds : good value noted) :
    surroundings.Accounts (pure value) noted good :=
  yields_done ⟨[], .refl [], by rwa [List.append_nil]⟩

theorem accounts_throw {e : HubError} {good : α → List HubError → Prop}
    (skippable : e.isSkippable) : surroundings.Accounts (throw e) [] good :=
  yields_done ⟨.of_skippable skippable, fun nonempty => absurd rfl nonempty⟩

theorem accounts_mk {outcome : Except HubError α} {good : α → List HubError → Prop}
    (onValue : ∀ value, outcome = .ok value → good value [])
    (onFailure : ∀ e, outcome = .error e → e.isSkippable) :
    surroundings.Accounts (ExceptT.mk (pure outcome)) [] good := by
  cases outcome with
  | ok value => exact accounts_pure (onValue value rfl)
  | error e => exact accounts_throw (onFailure e rfl)

theorem accounts_bind {work : Work α} {next : α → Work β} {good : β → List HubError → Prop}
    (accounts : surroundings.Accounts work noted fun value noted =>
      surroundings.Accounts (next value) noted good) :
    surroundings.Accounts (work >>= next) noted good := by
  refine yields_bind (Yields.mono accounts ?_)
  intro outcome met accounted
  cases outcome with
  | error e =>
    refine yields_done ?_
    rw [List.append_nil]
    exact accounted
  | ok value =>
    obtain ⟨reported, covers, onward⟩ := accounted
    refine Yields.mono onward ?_
    intro result more accounted
    cases result with
    | ok last =>
      obtain ⟨others, coversOthers, holds⟩ := accounted
      exact ⟨reported ++ others, covers.append coversOthers, by rwa [← List.append_assoc]⟩
    | error e =>
      obtain ⟨coversError, breaks⟩ := accounted
      refine ⟨?_, fun nonempty => breaks (by simp [nonempty])⟩
      -- What the first part noted gets lost, and then the second part must have broken off.
      cases reported with
      | nil => exact covers.append coversError
      | cons first rest => exact coversError.of_breaks (breaks (by simp))

theorem Accounts.mono {work : Work α} {good better : α → List HubError → Prop}
    (accounts : surroundings.Accounts work noted good)
    (onValue : ∀ value noted, good value noted → better value noted) :
    surroundings.Accounts work noted better := by
  refine Yields.mono accounts ?_
  intro outcome met accounted
  cases outcome with
  | error e => exact accounted
  | ok value =>
    obtain ⟨reported, covers, holds⟩ := accounted
    exact ⟨reported, covers, onValue value _ holds⟩

theorem accounts_ask {call : Call} {good : call.Reply → List HubError → Prop}
    (handsNothingIn : ∀ reply, Exchange.submission? ⟨call, reply⟩ = none)
    (onValue : ∀ dialogue value, (surroundings.reply dialogue call).1 = .ok value →
      Exchange.failure? ⟨call, .ok value⟩ = none ∧ good value noted)
    (onFailure : ∀ dialogue e, (surroundings.reply dialogue call).1 = .error e →
      Exchange.failure? ⟨call, .error e⟩ = some e ∧ (noted ≠ [] → surroundings.Breaks e)) :
    surroundings.Accounts (Work.ask call) noted good := by
  refine yields_ask handsNothingIn fun dialogue => yields_done ?_
  rw [List.append_nil]
  cases answer : (surroundings.reply dialogue call).1 with
  | ok value =>
    obtain ⟨noFailure, holds⟩ := onValue dialogue value answer
    rw [noFailure]
    exact ⟨[], .refl [], by rwa [List.append_nil]⟩
  | error e =>
    obtain ⟨isMet, breaks⟩ := onFailure dialogue e answer
    rw [isMet]
    exact ⟨.refl [e], breaks⟩

theorem accounts_askStore {request : StoreCall} {good : request.Reply → List HubError → Prop}
    (onValue : ∀ store value after, Store.perform store request = (.ok value, after) →
      good value noted) :
    surroundings.Accounts (askStore request) noted good := by
  refine accounts_ask (fun reply => by cases reply <;> rfl) ?_ ?_
  · intro dialogue value answer
    refine ⟨rfl, ?_⟩
    simp only [reply] at answer
    split at answer
    · exact onValue dialogue.store value _ (Prod.ext answer rfl)
    · cases answer
  · intro dialogue e answer
    exact ⟨rfl, fun _ => Or.inr ⟨dialogue, request, answer⟩⟩

theorem accounts_now {good : Instant → List HubError → Prop}
    (onward : ∀ instant, good instant noted) :
    surroundings.Accounts (Work.ask .now) noted good := by
  refine accounts_ask (fun reply => by cases reply <;> rfl) ?_ ?_
  · intro dialogue instant _
    exact ⟨rfl, onward instant⟩
  · intro dialogue e answer
    cases answer

theorem accounts_perform {program : Program α} {good : α → List HubError → Prop}
    (yields : surroundings.Yields program fun value met =>
      surroundings.Accounted noted good (.ok value) met) :
    surroundings.Accounts (perform program) noted good := by
  refine yields_bind (yields.mono ?_)
  intro value met accounted
  exact yields_done (by simpa using accounted)

theorem accounts_checkpoint {good : Unit → List HubError → Prop} (onward : good () noted) :
    surroundings.Accounts checkpoint noted good := by
  refine yields_bind (yields_bind (yields_isCancelled ?_ ?_))
  · refine yields_done (yields_done ⟨[], .refl [], ?_⟩)
    rwa [List.append_nil]
  · exact yields_done (yields_done ⟨.refl _, fun _ => Or.inl rfl⟩)

theorem accounts_fetch {request : FileRequest} {limit : Duration}
    {good : String → List HubError → Prop} (onward : ∀ content, good content []) :
    surroundings.Accounts (Work.fetch request limit) [] good := by
  refine accounts_bind (accounts_checkpoint (accounts_ask (fun reply => by cases reply <;> rfl) ?_ ?_))
  · intro dialogue content _
    exact ⟨rfl, onward content⟩
  · intro dialogue e _
    exact ⟨rfl, fun nonempty => absurd rfl nonempty⟩

theorem accounts_attempt {work : Work α} {inside : α → List HubError → Prop}
    {good : Except HubError α → List HubError → Prop} (accounts : surroundings.Accounts work [] inside)
    (onValue : ∀ value reported, inside value reported → good (.ok value) (noted ++ reported))
    (onFailure : ∀ e, good (.error e) (noted ++ [e])) :
    surroundings.Accounts (perform (attempt work)) noted good := by
  refine accounts_perform (Yields.mono accounts ?_)
  intro outcome met accounted
  cases outcome with
  | ok value =>
    obtain ⟨reported, covers, holds⟩ := accounted
    exact ⟨reported, covers, onValue value reported holds⟩
  | error e => exact ⟨[e], accounted.1, onFailure e⟩

theorem accounts_holding {repositoryId : Int} {work : Work α} {good : α → List HubError → Prop}
    (accounts : surroundings.Accounts work [] good) :
    surroundings.Accounts (Work.holding repositoryId work) [] good := by
  have released : ∀ outcome met, surroundings.Accounted [] good outcome met →
      surroundings.Yields (ExceptT.run (do
        perform (Work.release repositoryId)
        ExceptT.mk (pure outcome))) fun result more =>
          surroundings.Accounted [] good result (met ++ more) := by
    intro outcome met accounted
    refine yields_bind (yields_bind (yields_release (yields_done (yields_done ?_))))
    simpa using accounted
  refine accounts_bind (accounts_checkpoint (accounts_bind (accounts_ask ?_ ?_ ?_)))
  · intro reply
    cases reply <;> rfl
  · intro dialogue _ _
    refine ⟨rfl, yields_bind (yields_bind (Yields.mono accounts ?_))⟩
    intro outcome met accounted
    refine yields_done ?_
    rw [List.append_nil]
    exact released outcome met accounted
  · intro dialogue e _
    exact ⟨rfl, fun nonempty => absurd rfl nonempty⟩

theorem accounts_mapM {work : α → Work β} {values : List α}
    (each : ∀ value, surroundings.Accounts (work value) noted fun _ after => after = noted) :
    surroundings.Accounts (values.mapM work) noted fun _ after => after = noted := by
  induction values with
  | nil => exact accounts_pure rfl
  | cons value rest ih =>
    rw [List.mapM_cons]
    refine accounts_bind ((each value).mono ?_)
    rintro result after rfl
    refine accounts_bind (ih.mono ?_)
    rintro results last rfl
    exact accounts_pure rfl

theorem accounts_attemptEach {work : α → Work Unit} {values : List α}
    (each : ∀ value ∈ values, surroundings.Accounts (work value) [] fun _ after => after = []) :
    surroundings.Accounts (attemptEach work values) noted fun attempts after =>
      after = noted ++ attempts.failures := by
  induction values generalizing noted with
  | nil => exact accounts_pure (by simp)
  | cons value rest ih =>
    have eachLater := fun later member => each later (List.mem_cons_of_mem value member)
    refine accounts_bind (accounts_checkpoint (accounts_bind ?_))
    refine accounts_attempt (each value List.mem_cons_self) ?_ ?_
    · rintro _ reported rfl
      refine accounts_bind ((ih eachLater).mono ?_)
      rintro attempts after rfl
      exact accounts_pure (by simp [Work.Attempts.add])
    · intro e
      refine accounts_bind ((ih eachLater).mono ?_)
      rintro attempts after rfl
      exact accounts_pure (by simp [Work.Attempts.add])

end Surroundings

end ModelHub
