import ModelHub.Proofs.Push.Reachable
import ModelHub.Proofs.Reconcile.Settling

namespace ModelHub

/-- The frameworks the catalogue offers for an architecture or a model, by number. -/
def Store.desiredIds (store : Store) (architecture model : String) : Set Int :=
  {id | ∃ candidate ∈ store.candidates architecture model, candidate.frameworkId = id}

def Store.tagNames (store : Store) (ids : Set Int) : Set String :=
  {name | ∃ id ∈ ids, ∃ framework, store.framework? id = some framework ∧ framework.tagName = name}

def Profile.frameworkIds (profile : Profile) : Set Int := {id | profile.Holds id}

variable {store : Store}

theorem Store.mem_desiredIds {architecture model : String} {id : Int} :
    id ∈ store.desiredIds architecture model ↔
      ∃ framework ∈ store.offer architecture model, framework.id = id := by
  constructor
  · intro desired
    obtain ⟨candidate, member, same⟩ := desired
    obtain ⟨framework, offered, rfl⟩ := Store.mem_candidates.mp member
    exact ⟨framework, offered, same⟩
  · intro desired
    obtain ⟨framework, offered, same⟩ := desired
    exact ⟨framework.candidate, Store.mem_candidates.mpr ⟨framework, offered, rfl⟩, same⟩

theorem Store.Lawful.mem_tagNames (lawful : store.Lawful) {architecture model name : String}
    {ids : Set Int} (desired : ids ⊆ store.desiredIds architecture model) :
    name ∈ store.tagNames ids ↔
      ∃ framework ∈ store.offer architecture model,
        framework.id ∈ ids ∧ framework.tagName = name := by
  constructor
  · intro named
    obtain ⟨id, member, framework, found, same⟩ := named
    obtain ⟨offered, isOffered, rfl⟩ := Store.mem_desiredIds.mp (desired member)
    rw [lawful.framework?_eq (List.mem_filter.mp isOffered).1] at found
    obtain rfl := Option.some.inj found
    exact ⟨offered, isOffered, member, same⟩
  · intro named
    obtain ⟨framework, offered, member, same⟩ := named
    exact ⟨framework.id, member, framework,
      lawful.framework?_eq (List.mem_filter.mp offered).1, same⟩

namespace Reconcile

variable {conditions : Conditions} {config : SyncConfig} {identity : RepoIdentity}
  {repository : Repository} {content architecture : String} {action : FileAction}
  {outcome : Option (Except HubError Outcome)} {last : Course}

theorem settles (steady : conditions.Steady) (lawful : store.Lawful)
    (isModel : identity.repoType = some .model)
    (found : store.findRepository .model identity.owner identity.name = .ok (some repository))
    (notRemoved : action ≠ .removed)
    (fetched : conditions.files
      (configRequest repository (expectedReference config repository)) = .ok content)
    (declared : ModelConfig.architecture content = .ok architecture)
    (runs : conditions.run (Work.attempt (reconcile config identity
      (expectedReference config repository) modelConfigFile action)) store = (outcome, last))
    (unfailing : last.Unfailing) :
    store.Revises repository.id last.store ∧
      (∃ report, outcome = some (.ok (.reconciled report)) ∧ report.failures = []) ∧
      last.store.profile repository.id =
        (store.plan repository.place architecture).settled
          ((Change.equip (store.resourceNames repository.modelName)).apply
            (store.profile repository.id)) := by
  have place := Store.findRepository_some found
  have read : (conditions.files (repository.place.configRequest
      (repository.place.expectedReference config))).bind ModelConfig.architecture =
        .ok architecture := by
    have same : conditions.files (repository.place.configRequest
      (repository.place.expectedReference config)) = .ok content := fetched
    rw [same]
    exact declared
  have triggered : triggers identity modelConfigFile = true := by simp [triggers, isModel]
  have does := @Scene.does_reconcile (Conditions.smoothScene steady lawful repository.id)
    (store.profile repository.id) config identity modelConfigFile repository.place action
    architecture triggered place rfl notRemoved read
  obtain ⟨value, last', ran⟩ := conditions.run_answers (Work.attempt (reconcile config identity
    (expectedReference config repository) modelConfigFile action)) (.start store)
  obtain ⟨rfl, rfl⟩ := Prod.mk.inj (runs.symm.trans ran)
  obtain ⟨revises, ended⟩ := Conditions.ends_smoothly does ran unfailing
  cases value with
  | error e => exact ended.1.elim
  | ok outcome =>
    obtain ⟨report, rfl, excused, outcomes⟩ := ended
    refine ⟨revises, ⟨report, rfl, Scene.failures_nil excused fun _ => id⟩, ?_⟩
    exact outcomes.eq_result fun _ => id

/-- From any prior state, whatever associations and tags are stored: the rows of desired frameworks
stay as they are, and one row is added for each desired framework without any; the framework tags
keep the names of desired frameworks and get those of the added ones; the resources of the model are
linked. All other tags, all other repositories and the catalogue of frameworks are left alone. -/
theorem reconcile_reaches_desired (steady : conditions.Steady) (lawful : store.Lawful)
    (isModel : identity.repoType = some .model)
    (found : store.findRepository .model identity.owner identity.name = .ok (some repository))
    (notRemoved : action ≠ .removed)
    (fetched : conditions.files
      (configRequest repository (expectedReference config repository)) = .ok content)
    (declared : ModelConfig.architecture content = .ok architecture)
    (runs : conditions.run (Work.attempt (reconcile config identity
      (expectedReference config repository) modelConfigFile action)) store = (outcome, last))
    (unfailing : last.Unfailing) :
    (∃ report, outcome = some (.ok (.reconciled report)) ∧ report.failures = []) ∧
      (last.store.profile repository.id).associations =
        {row | row ∈ (store.profile repository.id).associations ∧
          row.frameworkId ∈ store.desiredIds architecture repository.modelName} ∪
        {row | ∃ candidate ∈ store.candidates architecture repository.modelName,
          candidate.frameworkId ∉ (store.profile repository.id).frameworkIds ∧
          row = { repositoryId := repository.id, frameworkId := candidate.frameworkId
                  associationType := candidate.associationType }} ∧
      (last.store.profile repository.id).frameworkNames =
        (store.profile repository.id).frameworkNames ∩
            store.tagNames (store.desiredIds architecture repository.modelName) ∪
          store.tagNames (store.desiredIds architecture repository.modelName \
            (store.profile repository.id).frameworkIds) ∧
      (∀ key : TagKey, ¬key.IsFramework →
        (key ∈ (last.store.profile repository.id).tags ↔
          key ∈ (store.profile repository.id).tags ∨
            ∃ resource ∈ store.resourceNames repository.modelName, key = resourceKey resource)) ∧
      store.Revises repository.id last.store := by
  obtain ⟨revises, reported, settled⟩ :=
    settles steady lawful isModel found notRemoved fetched declared runs unfailing
  have desired : ∀ id, (store.plan repository.place architecture).Offers id ↔
      id ∈ store.desiredIds architecture repository.modelName :=
    fun id => Store.mem_desiredIds.symm
  refine ⟨reported, ?_, ?_, ?_, revises⟩
  · rw [settled]
    ext row
    simp only [Plan.settled, desired, Set.mem_union, Set.mem_ofPred_eq]
    refine or_congr Iff.rfl ?_
    constructor
    · intro new
      obtain ⟨framework, lacks, rfl⟩ := new
      exact ⟨framework.candidate, Store.mem_candidates.mpr ⟨framework, lacks.1, rfl⟩, lacks.2, rfl⟩
    · intro new
      obtain ⟨candidate, member, missing, rfl⟩ := new
      obtain ⟨framework, offered, rfl⟩ := Store.mem_candidates.mp member
      exact ⟨framework, ⟨offered, missing⟩, rfl⟩
  · rw [settled, Plan.frameworkNames_settled,
      Profile.frameworkNames_congr (Change.frameworkPart_apply rfl (store.profile repository.id))]
    ext name
    simp only [Set.mem_union, Set.mem_inter_iff, Set.mem_ofPred_eq]
    rw [lawful.mem_tagNames (Set.Subset.refl _), lawful.mem_tagNames Set.sdiff_subset]
    refine or_congr (and_congr_right fun _ => ?_) ?_
    · constructor
      · intro named
        obtain ⟨framework, offered, same⟩ := named
        exact ⟨framework, offered, (desired _).mp ⟨framework, offered, rfl⟩, same⟩
      · intro named
        obtain ⟨framework, offered, -, same⟩ := named
        exact ⟨framework, offered, same⟩
    · constructor
      · intro named
        obtain ⟨framework, lacks, same⟩ := named
        exact ⟨framework, lacks.1, ⟨(desired _).mp ⟨framework, lacks.1, rfl⟩, lacks.2⟩, same⟩
      · intro named
        obtain ⟨framework, offered, isNew, same⟩ := named
        exact ⟨framework, ⟨offered, isNew.2⟩, same⟩
  · intro key other
    rw [settled, (Plan.approaches_settled _ _).tag_iff other]
    exact Iff.rfl

/-- A model that is associated with one framework and compatible with another one. -/
def outdated : Store where
  repositories :=
    [{ id := 1, repoType := .model, owner := "acme", name := "bert", defaultBranch := "" }]
  tags :=
    [{ id := 1, scope := "model", category := "runtime_framework", group := "", name := "vllm" }]
  links := [{ repositoryId := 1, tagId := 1 }]
  frameworks := [{ id := 7, name := "vLLM", tagName := "vllm", frameworkType := 1 },
    { id := 9, name := "TGI", tagName := "tgi", frameworkType := 2 }]
  compatibilities := [{ frameworkId := 9, architecture := "BertModel", model := "" }]
  associations := [{ repositoryId := 1, frameworkId := 7, associationType := 1 }]
  lastRepositoryId := 1
  lastTagId := 1

theorem outdated_lawful : outdated.Lawful := by
  constructor <;> decide

def bert : Repository where
  id := 1
  repoType := .model
  owner := "acme"
  name := "bert"
  defaultBranch := ""
  isMirror := false
  updatedAt := none

def bertIdentity : RepoIdentity where
  typeToken := "models"
  repoType := some .model
  owner := "acme"
  name := "bert"

def bertReconciled : Option (Except HubError Outcome) × Course :=
  (Conditions.calm bertFiles).run (Work.attempt (reconcile {} bertIdentity
    (expectedReference {} bert) modelConfigFile .modified)) outdated

theorem outdated_reaches_desired :
    (∃ report, bertReconciled.1 = some (.ok (.reconciled report)) ∧ report.failures = []) ∧
      (bertReconciled.2.store.profile 1).associations =
        {{ repositoryId := 1, frameworkId := 9, associationType := 2 }} := by
  have found : outdated.findRepository .model bertIdentity.owner bertIdentity.name =
      .ok (some bert) := by decide +kernel
  have unfailing : bertReconciled.2.Unfailing := by decide +kernel
  obtain ⟨reported, associations, -⟩ := @reconcile_reaches_desired outdated (.calm bertFiles) {}
    bertIdentity bert bertConfig "BertModel" .modified bertReconciled.1 bertReconciled.2
    bertFiles_steady outdated_lawful rfl found (by decide) rfl bertConfig_architecture
    (Prod.eta bertReconciled).symm unfailing
  refine ⟨reported, associations.trans ?_⟩
  have candidates : outdated.candidates "BertModel" bert.modelName =
      [{ frameworkId := 9, associationType := 2 }] := by decide +kernel
  ext row
  simp only [Store.desiredIds, candidates, List.mem_singleton, exists_eq_left,
    Profile.frameworkIds, Profile.Holds]
  simp [Store.profile, outdated, bert]
  intro isOld _ isOffered
  rw [isOld] at isOffered
  exact absurd isOffered (by decide)

end Reconcile

end ModelHub
