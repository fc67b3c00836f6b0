import ModelHub.Proofs.Push.Account
import ModelHub.Proofs.Push.Reachable

namespace ModelHub.Push

variable {surroundings : Surroundings} {options : Options} {identity : RepoIdentity}
  {event : PushEvent}

def submissionOf (identity : RepoIdentity) (repoType : RepoType) (outcome : Except HubError Unit) :
    Submission :=
  { repoType := repoType, owner := identity.owner, name := identity.name, outcome := outcome }

/-- A review that is due either sees the push cancelled or hands in the repository. -/
theorem Reviewed.submissions {repoType : RepoType} {before after : Dialogue}
    {errors : List HubError} (reviewed : Reviewed options identity before errors after)
    (known : identity.repoType = some repoType)
    (due : options.hasModeration && options.config.sensitiveCheck) :
    (after.endsCancelled = true ∧ after.submissions = before.submissions) ∨
      ∃ outcome, after.endsCancelled = false ∧ errors = Reconcile.errorOf outcome ∧
        after.submissions = before.submissions ++ [submissionOf identity repoType outcome] := by
  cases reviewed with
  | cancelled =>
    refine Or.inl ⟨rfl, ?_⟩
    rw [Dialogue.submissions_noting]
    exact List.append_nil _
  | notDue spared => cases known.symm.trans (spared due)
  | submitted _ same outcome =>
    obtain rfl := Option.some.inj (known.symm.trans same)
    refine Or.inr ⟨outcome, rfl, rfl, ?_⟩
    rw [Dialogue.submissions_noting, Dialogue.submissions_noting]
    simp [Exchange.submission?, submissionOf]

/-- At most one submission is made. A push that succeeds has made it with success, but for a push that is
seen cancelled at its very end: that one has made none. -/
theorem success_submitted_unless_cancelled {store : Store} {repoType : RepoType} {result : PushResult}
    {dialogue : Dialogue} (parsed : event.identity = .ok identity)
    (known : identity.repoType = some repoType)
    (due : options.hasModeration && options.config.sensitiveCheck)
    (ran : surroundings.run (handle options event) store = (result, dialogue)) :
    dialogue.submissions.length ≤ 1 ∧
      (result = .ok () → dialogue.submissions =
        if dialogue.endsCancelled then [] else [submissionOf identity repoType (.ok ())]) := by
  obtain ⟨errors, met, before, reviewErrors, meets, -, reviewed, rfl⟩ := handle_ends parsed ran
  have nothing : before.submissions = [] := meets.submissions
  rcases reviewed.submissions known due with ⟨ends, same⟩ | ⟨outcome, ends, rfl, handedIn⟩
  · rw [ends, same, nothing]
    exact ⟨Nat.zero_le 1, fun _ => rfl⟩
  · rw [ends, handedIn, nothing]
    refine ⟨le_rfl, fun success => ?_⟩
    cases outcome with
    | ok _ => rfl
    | error e =>
      have errorFree := congrArg PushResult.errors success
      rw [PushResult.errors_ofErrors] at errorFree
      simp [PushResult.errors, Reconcile.errorOf] at errorFree

def spent : Surroundings := { Surroundings.calm bertFiles with isCancelled := fun _ => true }

def Options.moderated : Options := { config := { sensitiveCheck := true }, hasModeration := true }

/-- No files, so there is no look before that of the review. -/
def emptyPush : PushEvent := { bertPush with commits := [] }

def spentPush : PushResult × Dialogue := spent.run (handle .moderated emptyPush) Store.bert

theorem spentPush_succeeds_unsubmitted :
    spentPush.1 = .ok () ∧ spentPush.2.submissions = [] := by
  have success : spentPush.1 = .ok () := by decide +kernel
  have parsed : emptyPush.identity = .ok
      { typeToken := "models", repoType := some .model, owner := "acme", name := "bert" } := by
    decide +kernel
  have submitted := (success_submitted_unless_cancelled parsed rfl rfl (Prod.eta spentPush).symm).2 success
  exact ⟨success, submitted.trans (if_pos (by decide +kernel))⟩

end ModelHub.Push
