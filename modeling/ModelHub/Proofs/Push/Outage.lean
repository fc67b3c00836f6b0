import ModelHub.Command.Tasks
import ModelHub.Proofs.Domain.Identity
import ModelHub.Proofs.Push.Account
import ModelHub.Proofs.Push.Reachable

namespace ModelHub

theorem PushResult.isRetryable_ofErrors {errors : List HubError} :
    (∃ failure, ofErrors errors = .error failure ∧ failure.isRetryable) ↔
      ∃ e ∈ errors, e.isRetryable := by
  cases errors with
  | nil => simp [ofErrors]
  | cons e rest =>
    constructor
    · rintro ⟨failure, same, retryable⟩
      obtain rfl := Except.error.inj same
      exact List.any_eq_true.mp retryable
    · intro retryable
      exact ⟨_, rfl, List.any_eq_true.mpr retryable⟩

theorem Command.Verdict.ofResult_eq_retry {result : PushResult} :
    ofResult result = retry ↔ ∃ failure, result = .error failure ∧ failure.isRetryable := by
  cases result with
  | ok _ => simp [ofResult]
  | error failure => cases retryable : failure.isRetryable <;> simp [ofResult, retryable]

namespace Surroundings

variable {surroundings : Surroundings} {dialogue : Dialogue}

def FailsAsStore (surroundings : Surroundings) : Prop :=
  ∀ dialogue request e, surroundings.storeFault dialogue request = some e → e.kind = .store

theorem FailsAsStore.kind_of_reply (ofStore : surroundings.FailsAsStore) {request : StoreCall}
    {e : HubError} (failed : (surroundings.reply dialogue (.store request)).1 = .error e) :
    e.kind = .store := by
  simp only [reply] at failed
  split at failed
  · obtain ⟨-, message, rfl⟩ := Store.perform_error (Prod.ext failed rfl)
    rfl
  · next planned =>
    obtain rfl := Except.error.inj failed
    exact ofStore dialogue request _ planned

theorem FailsAsStore.isRetryable_of_breaks (ofStore : surroundings.FailsAsStore) {e : HubError}
    (breaks : surroundings.Breaks e) : e.isRetryable := by
  rcases breaks with rfl | ⟨dialogue, request, failed⟩
  · rfl
  · exact HubError.isRetryable_iff.mpr (Or.inl (ofStore.kind_of_reply failed))

theorem FailsAsStore.failure_of_isOutage (ofStore : surroundings.FailsAsStore) {exchange : Exchange}
    (replied : (surroundings.reply dialogue exchange.call).1 = exchange.reply)
    (isOutage : exchange.isOutage) :
    ∃ e, exchange.failure? = some e ∧ (e.kind = .store ∨ e.kind = .outage) := by
  obtain ⟨call, answer⟩ := exchange
  cases answer with
  | ok value => cases call <;> cases isOutage
  | error e =>
    cases call with
    | store request => exact ⟨e, rfl, Or.inl (ofStore.kind_of_reply replied)⟩
    | fetch request limit => exact ⟨e, rfl, Or.inr (of_decide_eq_true isOutage)⟩
    | submit repoType owner name limit => exact ⟨e, rfl, Or.inr (of_decide_eq_true isOutage)⟩
    | _ => cases isOutage

end Surroundings

namespace Push

open Command (Verdict)

variable {surroundings : Surroundings} {options : Options} {event : PushEvent}

/-- The review reports all its failures. A cancellation that spares it is not reported. -/
theorem Reviewed.failures {identity : RepoIdentity} {before after : Dialogue}
    {errors : List HubError} (reviewed : Reviewed options identity before errors after) :
    ∃ noticed, after.failures = before.failures ++ (errors ++ noticed) ∧
      ∀ e ∈ noticed, e = .cancelled := by
  cases reviewed with
  | cancelled => exact ⟨[.cancelled], Dialogue.failures_noting _ _, by simp⟩
  | notDue spared => exact ⟨[], Dialogue.failures_noting _ _, by simp⟩
  | submitted due known outcome =>
    refine ⟨[], ?_, by simp⟩
    rw [Dialogue.failures_noting, Dialogue.failures_noting]
    cases outcome <;> simp [Exchange.failure?, Reconcile.errorOf]

/-- Errors ask for a redelivery if there was an outage, and only for a failure that was met. -/
structure Reports (errors : List HubError) (dialogue : Dialogue) : Prop where
  outages : ∀ exchange ∈ dialogue.exchanges, exchange.isOutage → ∃ e ∈ errors, e.isRetryable
  founded : ∀ e ∈ errors, e.isRetryable → e ∈ dialogue.failures

theorem reports_of_unparsed {e : HubError} (unparsed : event.identity = .error e) (store : Store) :
    surroundings.run (handle options event) store = (.ofErrors [e], .start store) ∧
      Reports [e] (.start store) := by
  have invalid : e.kind = .invalid := by
    obtain ⟨message, rfl⟩ := RepoIdentity.parse_error unparsed
    rfl
  refine ⟨?_, fun _ member => absurd member List.not_mem_nil, fun other member retryable => ?_⟩
  · unfold handle
    rw [unparsed]
    rfl
  · obtain rfl := List.mem_singleton.mp member
    simp [HubError.isRetryable_iff, invalid] at retryable

theorem founded_of_parsed {identity : RepoIdentity} (parsed : event.identity = .ok identity)
    {store : Store} {result : PushResult} {dialogue : Dialogue}
    (ran : surroundings.run (handle options event) store = (result, dialogue)) :
    ∀ e ∈ result.errors, e.isRetryable → e ∈ dialogue.failures := by
  obtain ⟨errors, met, before, reviewErrors, meets, covers, reviewed, rfl⟩ := handle_ends parsed ran
  obtain ⟨noticed, failures, -⟩ := reviewed.failures
  rw [meets.failures, Dialogue.failures_start, List.nil_append] at failures
  rw [PushResult.errors_ofErrors, failures]
  intro e member retryable
  rcases List.mem_append.mp member with early | late
  · refine List.mem_append_left _ (covers.mem_of_not_skippable early fun skippable => ?_)
    exact HubError.not_isRetryable skippable retryable
  · exact List.mem_append_right met (List.mem_append_left noticed late)

theorem reports_of_parsed {identity : RepoIdentity} (parsed : event.identity = .ok identity)
    (ofStore : surroundings.FailsAsStore) {store : Store} {result : PushResult} {dialogue : Dialogue}
    (ran : surroundings.run (handle options event) store = (result, dialogue)) :
    ∃ errors, result = .ofErrors errors ∧ Reports errors dialogue := by
  have founded := founded_of_parsed parsed ran
  obtain ⟨errors, met, before, reviewErrors, meets, covers, reviewed, rfl⟩ := handle_ends parsed ran
  obtain ⟨noticed, failures, isCancelled⟩ := reviewed.failures
  rw [meets.failures, Dialogue.failures_start, List.nil_append] at failures
  rw [PushResult.errors_ofErrors] at founded
  refine ⟨errors ++ reviewErrors, rfl, ?_, founded⟩
  intro exchange member isOutage
  obtain ⟨asked, replied⟩ := Surroundings.heard_of_run ran exchange member
  obtain ⟨e, failed, kind⟩ := ofStore.failure_of_isOutage replied isOutage
  have retryable : e.isRetryable := HubError.isRetryable_iff.mpr (kind.imp id Or.inl)
  have present : e ∈ dialogue.failures := Dialogue.mem_failures.mpr ⟨exchange, member, failed⟩
  rw [failures, List.mem_append, List.mem_append] at present
  rcases present with early | late | last
  · obtain ⟨other, reported, otherRetryable⟩ :=
      covers.complete (fun _ => ofStore.isRetryable_of_breaks) ⟨e, early, retryable⟩
    exact ⟨other, List.mem_append_left reviewErrors reported, otherRetryable⟩
  · exact ⟨e, List.mem_append_right errors late, retryable⟩
  · -- Only the cancellation that spares the review goes unreported, and that is no outage.
    obtain rfl := isCancelled e last
    simp [HubError.kind] at kind

/-- No outage is swallowed, and nothing else asks for a redelivery but a cancellation. -/
theorem retry_of_outage {store : Store} {result : PushResult} {dialogue : Dialogue}
    (ofStore : surroundings.FailsAsStore)
    (ran : surroundings.run (handle options event) store = (result, dialogue)) :
    ((∃ exchange ∈ dialogue.exchanges, exchange.isOutage) →
      (∃ failure, result = .error failure ∧ failure.isRetryable) ∧
        Verdict.ofResult result = .retry) ∧
    ((∃ failure, result = .error failure ∧ failure.isRetryable) →
      ∃ e ∈ dialogue.failures, e.kind = .store ∨ e.kind = .outage ∨ e.kind = .cancelled) := by
  have reported : ∃ errors, result = .ofErrors errors ∧ Reports errors dialogue := by
    cases parsed : event.identity with
    | ok identity => exact reports_of_parsed parsed ofStore ran
    | error e =>
      obtain ⟨turnedDown, reports⟩ := reports_of_unparsed parsed store
      obtain ⟨rfl, rfl⟩ := Prod.mk.inj (turnedDown.symm.trans ran)
      exact ⟨[e], rfl, reports⟩
  obtain ⟨errors, rfl, reports⟩ := reported
  rw [Verdict.ofResult_eq_retry, and_self, PushResult.isRetryable_ofErrors]
  constructor
  · rintro ⟨exchange, member, isOutage⟩
    exact reports.outages exchange member isOutage
  · rintro ⟨e, member, retryable⟩
    exact ⟨e, reports.founded e member retryable, HubError.isRetryable_iff.mp retryable⟩

/-- The association is not stored: a failure that a reconciliation only notes. -/
def unassociating : Surroundings :=
  { Surroundings.calm bertFiles with
    storeFault := fun _ request =>
      match request with
      | .associate _ => some (.database "disk full")
      | _ => none }

def unassociatedPush : PushResult × Dialogue := unassociating.run (handle .plain bertPush) Store.bert

theorem unassociated_is_retried :
    unassociating.FailsAsStore ∧
      (∃ exchange ∈ unassociatedPush.2.exchanges, exchange.isOutage) ∧
      Verdict.ofResult unassociatedPush.1 = .retry := by
  have ofStore : unassociating.FailsAsStore := by
    intro dialogue request e planned
    simp only [unassociating] at planned
    split at planned
    · obtain rfl := Option.some.inj planned
      rfl
    · cases planned
  have failed : ∃ exchange ∈ unassociatedPush.2.exchanges, exchange.isOutage := by decide +kernel
  exact ⟨ofStore, failed, ((retry_of_outage ofStore (Prod.eta unassociatedPush).symm).1 failed).2⟩

end Push

end ModelHub
