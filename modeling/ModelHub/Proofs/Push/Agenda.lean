import ModelHub.Proofs.Push.Change
import ModelHub.Proofs.Store.Reading
import ModelHub.Push.Processing

namespace ModelHub

def Store.runs (store : Store) (architecture model : String) (frameworkId : Int) : Bool :=
  store.compatibilities.any fun row => row.frameworkId = frameworkId && row.covers architecture model

def Store.offer (store : Store) (architecture model : String) : List Framework :=
  store.frameworks.filter fun framework => store.runs architecture model framework.id

def Framework.candidate (framework : Framework) : Candidate :=
  { frameworkId := framework.id, associationType := framework.frameworkType }

namespace Store

variable {store : Store} {architecture model : String} {framework : Framework}

theorem mem_joined_iff {row : CompatibilityRow} : (row, framework) ∈ store.joined ↔
    row ∈ store.compatibilities ∧ framework ∈ store.frameworks ∧ framework.id = row.frameworkId := by
  simp only [joined, List.mem_flatMap, List.mem_map, List.mem_filter, decide_eq_true_eq,
    Prod.mk.injEq]
  constructor
  · rintro ⟨_, listed, _, ⟨present, same⟩, rfl, rfl⟩
    exact ⟨listed, present, same⟩
  · rintro ⟨listed, present, same⟩
    exact ⟨row, listed, framework, ⟨present, same⟩, rfl, rfl⟩

theorem mem_offer_iff : framework ∈ store.offer architecture model ↔
    ∃ row, (row, framework) ∈ store.joined ∧ row.covers architecture model := by
  simp only [offer, runs, List.mem_filter, List.any_eq_true, Bool.and_eq_true, decide_eq_true_eq,
    mem_joined_iff]
  constructor
  · rintro ⟨present, row, listed, same, covers⟩
    exact ⟨row, ⟨listed, present, same.symm⟩, covers⟩
  · rintro ⟨row, ⟨listed, present, same⟩, covers⟩
    exact ⟨present, row, listed, same.symm, covers⟩

theorem mem_candidates {candidate : Candidate} :
    candidate ∈ store.candidates architecture model ↔
      ∃ framework ∈ store.offer architecture model, framework.candidate = candidate := by
  simp only [candidates, List.mem_mergeSort, mem_insertAll, List.not_mem_nil, or_false,
    List.mem_map, List.mem_filter, mem_offer_iff]
  constructor
  · rintro ⟨⟨row, framework⟩, ⟨pair, covers⟩, rfl⟩
    refine ⟨framework, ⟨row, pair, covers⟩, ?_⟩
    rw [Framework.candidate, (mem_joined_iff.mp pair).2.2]
  · rintro ⟨framework, ⟨row, pair, covers⟩, rfl⟩
    refine ⟨(row, framework), ⟨pair, covers⟩, ?_⟩
    rw [Framework.candidate, (mem_joined_iff.mp pair).2.2]

end Store

def Store.plan (store : Store) (place : RepositoryPlace) (architecture : String) : Plan :=
  { repositoryId := place.id, offer := store.offer architecture place.name }

theorem Store.Lawful.plan_distinct {store : Store} (lawful : store.Lawful) (place : RepositoryPlace)
    (architecture : String) : (store.plan place architecture).Distinct := by
  intro framework offered other otherOffered same
  exact lawful.framework_of_id (List.mem_filter.mp offered).1
    (List.mem_filter.mp otherOffered).1 same

def Plan.IsFrom (plan : Plan) (store : Store) : Prop :=
  ∀ framework ∈ plan.offer, store.framework? framework.id = some framework

theorem Plan.IsFrom.eq_of_found {store : Store} {plan : Plan} (isFrom : plan.IsFrom store)
    {framework other : Framework} (offered : framework ∈ plan.offer)
    (found : store.framework? framework.id = some other) : framework = other :=
  Option.some.inj ((isFrom framework offered).symm.trans found)

theorem Store.Lawful.plan_isFrom {store : Store} (lawful : store.Lawful) (place : RepositoryPlace)
    (architecture : String) : (store.plan place architecture).IsFrom store := by
  intro framework offered
  exact lawful.framework?_eq (List.mem_filter.mp offered).1

/-- The reference on which the configuration of a model counts. -/
def RepositoryPlace.expectedReference (place : RepositoryPlace) (config : SyncConfig) : String :=
  branchReference (if place.defaultBranch = "" then config.defaultBranch else place.defaultBranch)

def RepositoryPlace.configRequest (place : RepositoryPlace) (reference : String) : FileRequest :=
  { repoType := .model, owner := place.owner, name := place.name
    reference := reference, path := modelConfigFile }

def Commit.handled (commit : Commit) : List (FileAction × String) :=
  FileAction.order.flatMap fun action => (Push.untilReadme (commit.files action)).map (action, ·)

def PushEvent.handled (event : PushEvent) : List (FileAction × String) :=
  event.commits.flatMap Commit.handled

def PushEvent.target? (event : PushEvent) (store : Store) : Option RepositoryPlace :=
  match event.identity with
  | .error _ => none
  | .ok identity =>
    identity.repoType.bind fun repoType => store.place? repoType identity.owner identity.name

/-- The push touches the configuration of a model on the reference where it counts. -/
structure PushEvent.Configures (event : PushEvent) (store : Store) (config : SyncConfig)
    (action : FileAction) (place : RepositoryPlace) : Prop where
  target : event.target? store = some place
  isModel : place.repoType = .model
  reference : event.reference = place.expectedReference config
  touched : (action, modelConfigFile) ∈ event.handled

namespace Agenda

/-- The declared tags are to be those that were read, if they could be read. -/
def declare (store : Store) (scope : TagScope) (owner name : String)
    (declared : Except HubError (List DeclaredTag)) : List Change :=
  match declared with
  | .error _ => []
  | .ok declared =>
    match store.place? scope.repoType owner name with
    | none => []
    | some _ => [.declare scope declared]

def switchLibrary (store : Store) (scope : TagScope) (owner name oldFile newFile : String) :
    List Change :=
  match store.place? scope.repoType owner name with
  | none => []
  | some _ =>
    let old := Tagging.tagOf scope oldFile
    let new := Tagging.tagOf scope newFile
    if old = new then [] else old.toList.map (.drop scope) ++ new.toList.map (.add scope)

def settling (store : Store) (place : RepositoryPlace) (architecture : String) : List Change :=
  [.equip (store.resourceNames place.name), .settle (store.plan place architecture)]

def recompute (store : Store) (place : RepositoryPlace) (content : Except HubError String) :
    List Change :=
  match content.bind ModelConfig.architecture with
  | .ok architecture => settling store place architecture
  | .error _ => []

def reconcile (store : Store) (config : SyncConfig)
    (files : FileRequest → Except HubError String) (owner name reference : String)
    (action : FileAction) : List Change :=
  match store.place? .model owner name with
  | none => []
  | some place =>
    if reference ≠ place.expectedReference config then []
    else if action = .removed then [.clear]
    else recompute store place (files (place.configRequest reference))

def readme (store : Store) (files : FileRequest → Except HubError String) (identity : RepoIdentity)
    (reference : String) (action : FileAction) : List Change :=
  match identity.scope with
  | none => []
  | some scope =>
    declare store scope identity.owner identity.name
      (if action = .removed then .ok []
        else (files (Push.readmeRequest scope.repoType identity reference)).bind MetaTags.declared)

def library (store : Store) (identity : RepoIdentity) (path : String) (action : FileAction) :
    List Change :=
  match TagScope.ofToken? identity.typeToken, action with
  | some scope, .removed => switchLibrary store scope identity.owner identity.name path ""
  | some scope, .added => switchLibrary store scope identity.owner identity.name "" path
  | _, _ => []

def file (store : Store) (config : SyncConfig) (files : FileRequest → Except HubError String)
    (identity : RepoIdentity) (reference : String) (action : FileAction) (path : String) :
    List Change :=
  (if Reconcile.triggers identity path then
    reconcile store config files identity.owner identity.name reference action else []) ++
  if path = readmeFile then readme store files identity reference action
  else library store identity path action

def changes (store : Store) (config : SyncConfig) (files : FileRequest → Except HubError String)
    (event : PushEvent) : List Change :=
  match event.identity with
  | .error _ => []
  | .ok identity =>
    event.handled.flatMap fun entry =>
      file store config files identity event.reference entry.1 entry.2

variable {store : Store} {config : SyncConfig} {files : FileRequest → Except HubError String}
  {identity : RepoIdentity} {event : PushEvent} {reference path : String} {action : FileAction}
  {change : Change}

theorem part_of_declare {scope : TagScope} {owner name : String}
    {declared : Except HubError (List DeclaredTag)}
    (member : change ∈ declare store scope owner name declared) :
    change ≠ .clear ∧ ∀ plan, change ≠ .settle plan := by
  unfold declare at member
  split at member
  · cases member
  · split at member
    · cases member
    · rw [List.mem_singleton.mp member]
      simp

theorem part_of_switchLibrary {scope : TagScope} {owner name oldFile newFile : String}
    (member : change ∈ switchLibrary store scope owner name oldFile newFile) :
    change ≠ .clear ∧ ∀ plan, change ≠ .settle plan := by
  unfold switchLibrary at member
  split at member
  · cases member
  · dsimp only at member
    split at member
    · cases member
    · rcases List.mem_append.mp member with old | new
      · obtain ⟨tag, -, rfl⟩ := List.mem_map.mp old
        simp
      · obtain ⟨tag, -, rfl⟩ := List.mem_map.mp new
        simp

theorem reconcile_of_file (member : change ∈ file store config files identity reference action path)
    (ofFrameworks : change = .clear ∨ ∃ plan, change = .settle plan) :
    Reconcile.triggers identity path = true ∧
      change ∈ reconcile store config files identity.owner identity.name reference action := by
  rcases List.mem_append.mp member with own | other
  · split at own
    · next triggers => exact ⟨triggers, own⟩
    · cases own
  · have notOfFrameworks : change ≠ .clear ∧ ∀ plan, change ≠ .settle plan := by
      split at other
      · unfold readme at other
        split at other
        · cases other
        · exact part_of_declare other
      · unfold library at other
        split at other
        · exact part_of_switchLibrary other
        · exact part_of_switchLibrary other
        · cases other
    rcases ofFrameworks with isClear | ⟨plan, isSettle⟩
    · exact absurd isClear notOfFrameworks.1
    · exact absurd isSettle (notOfFrameworks.2 plan)

theorem clear_mem_reconcile {owner name : String} :
    .clear ∈ reconcile store config files owner name reference action ↔
      ∃ place, store.place? .model owner name = some place ∧
        reference = place.expectedReference config ∧ action = .removed := by
  unfold reconcile
  cases found : store.place? .model owner name with
  | none => simp
  | some place =>
    by_cases expected : reference = place.expectedReference config
    · by_cases removed : action = .removed
      · simp [expected, removed]
      · simp only [expected, removed, ne_eq, not_true_eq_false, if_false, and_false, exists_false,
          iff_false]
        unfold recompute settling
        split <;> simp
    · simp [expected]

theorem settle_mem_reconcile {owner name : String} {plan : Plan} :
    .settle plan ∈ reconcile store config files owner name reference action ↔
      ∃ place, store.place? .model owner name = some place ∧
        reference = place.expectedReference config ∧ action ≠ .removed ∧
        ∃ architecture, (files (place.configRequest reference)).bind ModelConfig.architecture =
          .ok architecture ∧ plan = store.plan place architecture := by
  unfold reconcile
  cases found : store.place? .model owner name with
  | none => simp
  | some place =>
    by_cases expected : reference = place.expectedReference config
    · by_cases removed : action = .removed
      · simp [removed]
      · unfold recompute settling
        cases declared : (files (place.configRequest reference)).bind ModelConfig.architecture with
        | error e => simp [← expected, declared]
        | ok architecture => simp [← expected, declared, removed]
    · simp [expected]

/-- Which changes of a push concern frameworks: those of a touched configuration. -/
theorem mem_changes {config : SyncConfig}
    (ofFrameworks : change = .clear ∨ ∃ plan, change = .settle plan) :
    change ∈ changes store config files event ↔
      ∃ identity action, event.identity = .ok identity ∧ identity.repoType = some .model ∧
        (action, modelConfigFile) ∈ event.handled ∧
        change ∈ reconcile store config files identity.owner identity.name event.reference
          action := by
  unfold changes
  cases parsed : event.identity with
  | error e => simp
  | ok identity =>
    constructor
    · intro member
      obtain ⟨entry, handled, inFile⟩ := List.mem_flatMap.mp member
      obtain ⟨triggers, inReconcile⟩ := reconcile_of_file inFile ofFrameworks
      simp only [Reconcile.triggers, Bool.and_eq_true, decide_eq_true_eq] at triggers
      refine ⟨identity, entry.1, rfl, triggers.1, ?_, inReconcile⟩
      rw [← triggers.2]
      exact handled
    · intro touched
      obtain ⟨other, action, same, isModel, handled, inReconcile⟩ := touched
      obtain rfl := Except.ok.inj same
      refine List.mem_flatMap.mpr ⟨(action, modelConfigFile), handled, List.mem_append_left _ ?_⟩
      have triggers : Reconcile.triggers identity modelConfigFile = true := by
        simp [Reconcile.triggers, isModel]
      rw [if_pos triggers]
      exact inReconcile

theorem configures_iff {place : RepositoryPlace} :
    event.Configures store config action place ↔
      ∃ identity, event.identity = .ok identity ∧ identity.repoType = some .model ∧
        store.place? .model identity.owner identity.name = some place ∧
        event.reference = place.expectedReference config ∧
        (action, modelConfigFile) ∈ event.handled := by
  constructor
  · intro configures
    obtain ⟨target, isModel, reference, touched⟩ := configures
    unfold PushEvent.target? at target
    split at target
    · cases target
    · next identity parsed =>
      obtain ⟨repoType, known, found⟩ := Option.bind_eq_some_iff.mp target
      obtain rfl : repoType = .model := (Store.place?_eq_some found).1.symm.trans isModel
      exact ⟨identity, parsed, known, found, reference, touched⟩
  · intro configures
    obtain ⟨identity, parsed, known, found, reference, touched⟩ := configures
    refine ⟨?_, (Store.place?_eq_some found).1, reference, touched⟩
    unfold PushEvent.target?
    rw [parsed]
    exact Option.bind_eq_some_iff.mpr ⟨.model, known, found⟩

theorem clear_mem_changes :
    .clear ∈ changes store config files event ↔
      ∃ place, event.Configures store config .removed place := by
  rw [mem_changes (Or.inl rfl)]
  simp only [clear_mem_reconcile, configures_iff]
  constructor
  · intro cleared
    obtain ⟨identity, action, parsed, isModel, handled, place, found, expected, rfl⟩ := cleared
    exact ⟨place, identity, parsed, isModel, found, expected, handled⟩
  · intro cleared
    obtain ⟨place, identity, parsed, isModel, found, expected, handled⟩ := cleared
    exact ⟨identity, .removed, parsed, isModel, handled, place, found, expected, rfl⟩

theorem settle_mem_changes {plan : Plan} :
    .settle plan ∈ changes store config files event ↔
      ∃ place action, event.Configures store config action place ∧ action ≠ .removed ∧
        ∃ architecture, (files (place.configRequest event.reference)).bind
          ModelConfig.architecture = .ok architecture ∧ plan = store.plan place architecture := by
  rw [mem_changes (Or.inr ⟨plan, rfl⟩)]
  simp only [settle_mem_reconcile, configures_iff]
  constructor
  · intro settles
    obtain ⟨identity, action, parsed, isModel, handled, place, found, expected, rest⟩ := settles
    exact ⟨place, action, ⟨identity, parsed, isModel, found, expected, handled⟩, rest⟩
  · intro settles
    obtain ⟨place, action, ⟨identity, parsed, isModel, found, expected, handled⟩, rest⟩ := settles
    exact ⟨identity, action, parsed, isModel, handled, place, found, expected, rest⟩

/-- However often a push touches the configuration, there is one plan. -/
theorem changes_coherent (lawful : store.Lawful) (config : SyncConfig)
    (files : FileRequest → Except HubError String) (event : PushEvent) :
    Change.Coherent (changes store config files event) := by
  intro plan settles
  obtain ⟨place, _, configures, -, architecture, read, rfl⟩ := settle_mem_changes.mp settles
  refine ⟨lawful.plan_distinct place architecture, ?_⟩
  intro other otherSettles
  obtain ⟨place', _, configures', -, architecture', read', rfl⟩ :=
    settle_mem_changes.mp otherSettles
  obtain rfl := Option.some.inj (configures.target.symm.trans configures'.target)
  obtain rfl := Except.ok.inj (read.symm.trans read')
  rfl

theorem isFrom_of_settle (lawful : store.Lawful) {plan : Plan}
    (settles : .settle plan ∈ changes store config files event) : plan.IsFrom store := by
  obtain ⟨place, _, -, -, architecture, -, rfl⟩ := settle_mem_changes.mp settles
  exact lawful.plan_isFrom place architecture

end Agenda

end ModelHub
