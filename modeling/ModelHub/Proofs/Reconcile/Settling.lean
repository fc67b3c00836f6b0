import ModelHub.Proofs.Reconcile.Phases

namespace ModelHub

namespace Scene

variable {scene : Scene} {profile : Profile}

theorem does_settle {repository : Repository} (here : repository.id = scene.repositoryId)
    (architecture : String) :
    scene.Does (Reconcile.settle repository architecture) profile
      (fun report after => (∀ e ∈ report.failures, scene.faults e) ∧
        Change.Outcomes scene.faults
          (Agenda.settling scene.store repository.place architecture) profile after)
      fun e after => scene.faults e ∧
        Change.Outcomes scene.faults
          (Agenda.settling scene.store repository.place architecture) profile after := by
  have distinct := scene.lawful.plan_distinct repository.place architecture
  have isFrom := scene.lawful.plan_isFrom repository.place architecture
  have owned : (scene.store.plan repository.place architecture).repositoryId = scene.repositoryId :=
    here
  unfold Agenda.settling
  revert distinct isFrom owned
  generalize planned : scene.store.plan repository.place architecture = plan
  intro distinct isFrom owned
  have isOffer : scene.store.offer architecture repository.modelName = plan.offer :=
    congrArg Plan.offer planned
  refine does_bind (does_listResources ?_ fun e fault => ⟨fault, outcomes_of_fault fault _ _⟩)
  refine does_bind (does_linkResources here _ fun linked equipped linkedExcused equip => ?_)
  have early : ∀ {e : HubError}, scene.faults e → scene.faults e ∧ Change.Outcomes scene.faults
      [.equip (scene.store.resourceNames repository.place.name), .settle plan] profile equipped :=
    fun fault => ⟨fault, equipped, equip, outcomes_of_fault fault _ _⟩
  refine does_bind (does_desiredFor (fun desired names => ?_) fun e => early)
  rw [isOffer] at names
  refine does_bind (does_listAssociations here (fun stored listed isOf => ?_) fun e => early)
  refine does_bind (does_removeAssociations here names listed isOf
    fun removed cut removedExcused toCut fewer cutOffered => ?_)
  refine does_bind (does_addAssociations here owned distinct names listed fewer
    fun added grown addedExcused toGrown grownOffered complete => ?_)
  have excused : ∀ e, (e ∈ linked.failures ∨ e ∈ removed.failures) ∨ e ∈ added.failures →
      scene.faults e := by
    intro e noted
    rcases noted with (inLinked | inRemoved) | inAdded
    · exact linkedExcused e inLinked
    · exact removedExcused e inRemoved
    · exact addedExcused e inAdded
  refine does_bind (does_checkpoint (does_bind (does_perform (runs_attempt
    ((does_pruneTags here isFrom names).mono ?_ ?_)))))
  · intro stale after ended
    obtain ⟨toAfter, associations, pruned⟩ := ended
    refine does_pure ⟨?_, equipped, equip, outcomes_single ⟨?_, ?_⟩⟩
    · simp only [Reconcile.errorOf, List.append_nil, List.mem_append]
      exact excused
    · exact Change.settle_approaches ((toCut.trans toGrown).trans toAfter)
    · intro smooth
      -- What the removals spared and the additions stored is offered.
      have allOffered : ∀ row ∈ grown.associations, plan.Offers row.frameworkId := by
        intro row member
        rcases grownOffered row member with old | new
        · exact cutOffered smooth row old
        · exact new
      refine ((toCut.trans toGrown).trans toAfter).settled ?_ ?_ (pruned allOffered)
      · intro row member
        exact allOffered row (associations ▸ member)
      · intro framework lacks
        obtain ⟨associated, tagged⟩ := complete smooth framework lacks
        refine ⟨associations ▸ associated, toAfter.keptTags _ tagged ?_⟩
        exact Plan.tagKey_not_lapses lacks.1
  · intro e after ended
    obtain ⟨fault, toAfter, -⟩ := ended
    refine does_pure ⟨?_, equipped, equip, outcomes_single (outcome_of_fault fault ?_)⟩
    · simp only [Reconcile.errorOf, List.mem_append, List.mem_singleton]
      intro other member
      rcases member with noted | rfl
      · exact excused other noted
      · exact fault
    · exact Change.settle_approaches ((toCut.trans toGrown).trans toAfter)

end Scene

namespace Reconcile

/-- To unlink all framework tags is to unlink those that nothing backs when nothing does. -/
theorem unlinkAll_eq (repositoryId : Int) (tags : List Tag) :
    unlinkAll repositoryId tags = List.length <$> unlinkUnbacked repositoryId [] tags := by
  induction tags with
  | nil => rfl
  | cons tag rest ih =>
    unfold unlinkAll unlinkUnbacked
    simp only [List.contains_nil, Bool.false_eq_true, if_false, ih, map_bind, bind_map_left,
      map_pure]
    congr 1
    funext present
    congr 1
    funext later
    cases present <;> rfl

end Reconcile

namespace Scene

variable {scene : Scene} {profile : Profile}

theorem does_clear {repository : Repository} (here : repository.id = scene.repositoryId) :
    scene.Does (Reconcile.clear repository) profile
      (fun outcome after => (∃ associations tags, outcome = .cleared associations tags) ∧
        Change.Outcomes scene.faults [.clear] profile after)
      fun e after => scene.faults e ∧ Change.Outcomes scene.faults [.clear] profile after := by
  have excused : ∀ {e : HubError} {after : Profile}, scene.faults e →
      (∀ key, ¬key.IsFramework → (key ∈ after.tags ↔ key ∈ profile.tags)) →
      scene.faults e ∧ Change.Outcomes scene.faults [.clear] profile after :=
    fun fault others =>
      ⟨fault, outcomes_single (outcome_of_fault fault (Change.clear_approaches others))⟩
  refine does_bind (does_checkpoint (does_bind (does_dissociateAll here (fun count => ?_)
    fun e fault => excused fault fun _ _ => Iff.rfl)))
  refine does_bind (does_listTags here (fun tags isOf borne => ?_)
    fun e fault => excused fault fun _ _ => Iff.rfl)
  rw [Reconcile.unlinkAll_eq, map_eq_pure_bind]
  refine does_bind (does_bind ((does_unlinkUnbacked here [] tags isOf).mono ?_ ?_))
  · intro names after ended
    obtain ⟨associations, kept⟩ := ended
    refine does_pure (does_pure ⟨⟨_, _, rfl⟩, outcomes_single ?_⟩)
    have cleared : after = Change.clear.apply profile := by
      refine Profile.ext associations ?_
      ext key
      simp only [kept, Spared, borne, List.not_mem_nil, Change.apply, Profile.retagged,
        Profile.unassociated, Set.union_empty, Set.mem_ofPred_eq]
      constructor
      · intro member
        exact ⟨member.1, fun isFramework => member.2 ⟨member.1, isFramework⟩⟩
      · intro member
        exact ⟨member.1, fun listed => member.2 listed.2⟩
    exact cleared ▸ outcome_apply _ profile
  · intro e after ended
    obtain ⟨fault, associations, between⟩ := ended
    refine excused fault fun key other => ⟨(between key).1, fun member => ?_⟩
    exact (between key).2 member fun isFramework => absurd isFramework other

theorem architecture_ne_cancelled {content : String} {e : HubError}
    (failed : ModelConfig.architecture content = .error e) : e ≠ .cancelled := by
  rintro rfl
  exact Bool.false_ne_true (ModelConfig.isSkippable_of_architecture failed)

variable {config : SyncConfig} {repository : Repository} {reference : String}

theorem does_recompute (here : repository.id = scene.repositoryId) {architecture : String}
    (declared : (scene.files (repository.place.configRequest reference)).bind
      ModelConfig.architecture = .ok architecture) :
    scene.Does (Reconcile.recompute config repository reference) profile
      (fun outcome after => ∃ report, outcome = .reconciled report ∧
        (∀ e ∈ report.failures, scene.faults e) ∧
        Change.Outcomes scene.faults
          (Agenda.settling scene.store repository.place architecture) profile after)
      fun e after => scene.faults e ∧
        Change.Outcomes scene.faults
          (Agenda.settling scene.store repository.place architecture) profile after := by
  cases fetched : scene.files (repository.place.configRequest reference) with
  | error e =>
    rw [fetched] at declared
    cases declared
  | ok content =>
    rw [fetched] at declared
    have read : ModelConfig.architecture content = .ok architecture := declared
    refine does_bind (does_fetch ?_)
    have request : Reconcile.configRequest repository reference =
      repository.place.configRequest reference := rfl
    rw [request, fetched]
    refine does_bind (does_mk ?_)
    rw [read]
    refine does_bind ((does_settle here architecture).mono ?_ fun _ _ => id)
    intro report after ended
    exact does_pure ⟨report, rfl, ended⟩

theorem does_recompute_unread {e : HubError}
    (unread : (scene.files (repository.place.configRequest reference)).bind
      ModelConfig.architecture = .error e) {good : Reconcile.Outcome → Profile → Prop} :
    scene.Does (Reconcile.recompute config repository reference) profile good
      fun other after => other = e ∧ other ≠ .cancelled ∧ after = profile := by
  refine does_bind (does_fetch ?_)
  have request : Reconcile.configRequest repository reference =
    repository.place.configRequest reference := rfl
  rw [request]
  cases fetched : scene.files (repository.place.configRequest reference) with
  | error other =>
    rw [fetched] at unread
    refine ⟨Except.error.inj unread, ?_, rfl⟩
    rintro rfl
    exact scene.files_ne_cancelled _ fetched
  | ok content =>
    rw [fetched] at unread
    have failed : ModelConfig.architecture content = .error e := unread
    refine does_bind (does_mk ?_)
    rw [failed]
    exact ⟨rfl, architecture_ne_cancelled failed, rfl⟩

theorem does_reconcile {identity : RepoIdentity} {path : String} {place : RepositoryPlace}
    {action : FileAction} {architecture : String}
    (triggers : Reconcile.triggers identity path = true)
    (found : scene.store.place? .model identity.owner identity.name = some place)
    (here : place.id = scene.repositoryId) (notRemoved : action ≠ .removed)
    (declared : (scene.files (place.configRequest (place.expectedReference config))).bind
      ModelConfig.architecture = .ok architecture) :
    scene.Does (Reconcile.reconcile config identity (place.expectedReference config) path action)
      profile
      (fun outcome after => ∃ report, outcome = .reconciled report ∧
        (∀ e ∈ report.failures, scene.faults e) ∧
        Change.Outcomes scene.faults (Agenda.settling scene.store place architecture) profile after)
      fun e after => scene.faults e ∧
        Change.Outcomes scene.faults
          (Agenda.settling scene.store place architecture) profile after := by
  unfold Reconcile.reconcile
  simp only [triggers]
  refine does_bind (does_findRepository ?_ ?_ fun e fault => ⟨fault, outcomes_of_fault fault _ _⟩)
  · intro repository isFound
    obtain rfl : place = repository.place := Option.some.inj (found.symm.trans isFound)
    have expected : Reconcile.expectedReference config repository =
      repository.place.expectedReference config := rfl
    rw [expected, if_neg (not_not_intro rfl)]
    refine does_holding ?_
    cases action with
    | removed => exact absurd rfl notRemoved
    | modified => exact does_recompute here declared
    | added => exact does_recompute here declared
  · intro absent
    rw [found] at absent
    cases absent

theorem carries_reconcile {identity : RepoIdentity} {path : String}
    (triggers : Reconcile.triggers identity path = true)
    (targets : scene.Targets .model identity.owner identity.name) (action : FileAction) :
    scene.Carries (Reconcile.reconcile config identity reference path action)
      (Agenda.reconcile scene.store config scene.files identity.owner identity.name reference
        action) := by
  refine ⟨fun profile => ?_⟩
  have calm : ∀ {changes : List Change} {e : HubError} {after : Profile},
      scene.faults e ∧ Change.Outcomes scene.faults changes profile after →
        e ≠ .cancelled ∧ Change.Outcomes scene.faults changes profile after :=
    fun ended => ⟨scene.faults_ne_cancelled _ ended.1, ended.2⟩
  unfold Reconcile.reconcile Agenda.reconcile
  simp only [triggers]
  refine does_bind (does_findRepository ?_ ?_ ?_)
  · intro repository found
    have here : repository.id = scene.repositoryId := targets _ found
    have expected : repository.place.expectedReference config =
      Reconcile.expectedReference config repository := rfl
    simp only [found, expected]
    by_cases isExpected : reference = Reconcile.expectedReference config repository
    · have recomputed : scene.Does (Reconcile.recompute config repository reference) profile
          (fun _ after => Change.Outcomes scene.faults
            (Agenda.recompute scene.store repository.place
              (scene.files (repository.place.configRequest reference))) profile after)
          fun e after => e ≠ .cancelled ∧ Change.Outcomes scene.faults
            (Agenda.recompute scene.store repository.place
              (scene.files (repository.place.configRequest reference))) profile after := by
        unfold Agenda.recompute
        cases declared : (scene.files (repository.place.configRequest reference)).bind
            ModelConfig.architecture with
        | ok architecture =>
          refine (does_recompute here declared).mono ?_ fun _ _ => calm
          intro outcome after ended
          obtain ⟨report, -, -, outcomes⟩ := ended
          exact outcomes
        | error e => exact (does_recompute_unread declared).mono (fun _ _ => id) fun _ _ => And.right
      rw [if_neg (not_not_intro isExpected), if_neg (not_not_intro isExpected)]
      refine does_holding ?_
      cases action with
      | removed => exact (does_clear here).mono (fun _ _ => And.right) fun _ _ => calm
      | modified => exact recomputed
      | added => exact recomputed
    · rw [if_pos isExpected, if_pos isExpected]
      exact does_pure (outcomes_nil profile)
  · intro absent
    refine ⟨by simp [Tagging.missing], ?_⟩
    simp only [absent]
    exact outcomes_nil profile
  · intro e fault
    exact calm ⟨fault, outcomes_of_fault fault _ profile⟩

end Scene

end ModelHub
