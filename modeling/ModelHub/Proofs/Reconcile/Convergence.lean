import Mathlib.Data.Set.Card
import ModelHub.Proofs.Reconcile.Pieces
import ModelHub.Proofs.Reconcile.Settlement

namespace ModelHub

open Exchange (additions removals)
open Program (Transcript)
open Work (Attempted)

variable {faults : HubError → Prop} {files : FileRequest → Except HubError String} {α : Type}
  {store after : Store} {said : List Exchange} {row : Association}

namespace Reconcile

theorem revises_of_transcript {repositoryId : Int} {work : Work α} {outcome : Except HubError α}
    (belongs : Work.Abides (Call.Belongs repositoryId) work)
    (transcript : Transcript (Store.answers faults files) work.run store said outcome after) :
    store.Revises repositoryId after := by
  have kept : Program.Leads Store.anyAnswers work.run store fun _ after =>
      store.Revises repositoryId after := by
    refine (belongs store).keeps ?_ (.refl repositoryId store)
    exact fun call before reply after belongs revises answered =>
      revises.trans (belongs.revises answered)
  exact (transcript.mono fun _ _ _ _ answered =>
    Store.anyAnswers_of_possible (Store.possible_of_answers answered)).of_leads kept

theorem revises_of_attempted {repositoryId : Int} {work : α → Work Unit} {values : List α}
    {parts : List (List Exchange)} {attempts : Work.Attempts α}
    (belongs : ∀ value, Work.Abides (Call.Belongs repositoryId) (work value))
    (attempted : Attempted faults files work values store parts attempts after) :
    store.Revises repositoryId after := by
  refine attempted.keeps (fun value _ before part outcome after revises made => ?_) (.refl _ store)
  exact revises.trans (revises_of_transcript (belongs value) made)

theorem nodup_associationsOf (lawful : store.Lawful) (repositoryId : Int) :
    (store.associationsOf repositoryId).Nodup :=
  (List.mergeSort_perm _ _).nodup_iff.mpr (lawful.associations.filter _)

namespace Proceedings

variable {scene : Scene} {repository : Repository} {architecture : String} {report : Report}
  (proceedings :
    Proceedings scene.faults scene.files repository architecture scene.store report after)

include proceedings

theorem revises_equipped : scene.store.Revises repository.id proceedings.equipped :=
  revises_of_attempted (fun resource => belongs_of_tends (abides_linkResource resource))
    proceedings.links

theorem mem_equipped :
    row ∈ proceedings.equipped.associationsOf repository.id ↔
      row ∈ scene.store.associationsOf repository.id := by
  let kept (later : Store) : Prop :=
    ∀ row, row ∈ later.associations ↔ row ∈ scene.store.associations
  have same : kept proceedings.equipped := by
    refine proceedings.links.keeps ?_ fun _ => Iff.rfl
    intro resource _ before part outcome after holds made row
    exact (mem_of_aside (aside_linkResource repository.id resource) made).trans (holds row)
  simp only [Store.mem_associationsOf, Store.profile, Set.mem_ofPred_eq, same row]

theorem names (here : repository.id = scene.repositoryId) :
    proceedings.desired.Names
      {framework | framework ∈ scene.store.offer architecture repository.modelName} := by
  have does := @Scene.does_desiredFor scene (proceedings.equipped.profile scene.repositoryId)
    (fun _ _ => True) architecture repository.modelName
    (fun desired _ => desired.Names
      {framework | framework ∈ scene.store.offer architecture repository.modelName})
    (fun _ names => names) fun _ _ => trivial
  exact (proceedings.looksUp.of_leads (does _ rfl (here ▸ proceedings.revises_equipped))).2

theorem mem_toRemove (here : repository.id = scene.repositoryId) :
    row ∈ proceedings.difference.toRemove ↔ row ∈ scene.store.associationsOf repository.id ∧
      row.frameworkId ∉ scene.store.desiredIds architecture repository.modelName := by
  simp only [difference, Difference.between, List.mem_filter, proceedings.mem_equipped,
    Bool.not_eq_true', Bool.eq_false_iff, ne_eq, (proceedings.names here).isDesired,
    Store.mem_desiredIds]
  exact Iff.rfl

theorem nodup_toRemove : proceedings.difference.toRemove.Nodup :=
  (nodup_associationsOf (proceedings.revises_equipped.lawful scene.lawful) _).filter _

theorem mem_toAdd (here : repository.id = scene.repositoryId) {id : Int} :
    id ∈ proceedings.difference.toAdd.map Candidate.frameworkId ↔
      id ∈ scene.store.desiredIds architecture repository.modelName ∧
        id ∉ (scene.store.profile repository.id).frameworkIds := by
  have stored : Difference.isStored (proceedings.equipped.associationsOf repository.id) id = true ↔
      id ∈ (scene.store.profile repository.id).frameworkIds := by
    simp only [isStored_iff, proceedings.mem_equipped, Store.mem_associationsOf]
    exact Iff.rfl
  rw [Store.mem_desiredIds, ← stored, Bool.not_eq_true]
  simp only [difference, Difference.between, List.mem_map, List.mem_filter, Bool.not_eq_true',
    (proceedings.names here).candidates, Set.mem_ofPred_eq]
  constructor
  · intro member
    obtain ⟨_, ⟨⟨framework, offered, rfl⟩, missing⟩, rfl⟩ := member
    exact ⟨⟨framework, offered, rfl⟩, missing⟩
  · intro member
    obtain ⟨⟨framework, offered, rfl⟩, missing⟩ := member
    exact ⟨framework.candidate, ⟨⟨framework, offered, rfl⟩, missing⟩, rfl⟩

theorem nodup_toAdd (here : repository.id = scene.repositoryId) :
    (proceedings.difference.toAdd.map Candidate.frameworkId).Nodup :=
  (proceedings.names here).distinct.sublist (List.filter_sublist.map _)

end Proceedings

/-- Every framework that was added has its row and its tag, whatever became of those behind it. -/
theorem added_stand {scene : Scene} {plan : Plan} {desired : Desired} {values : List Candidate}
    {repositoryId : Int} {before : Store} {parts : List (List Exchange)}
    {attempts : Work.Attempts Candidate} (here : repositoryId = scene.repositoryId)
    (owned : plan.repositoryId = scene.repositoryId) (distinct : plan.Distinct)
    (names : desired.Names {framework | framework ∈ plan.offer})
    (attempted : Attempted scene.faults scene.files (addAssociation repositoryId desired) values
      before parts attempts after)
    (revises : scene.store.Revises scene.repositoryId before)
    (different : (values.map Candidate.frameworkId).Nodup)
    (waiting : ∀ candidate ∈ values, ∃ framework,
      plan.Lacks (before.profile scene.repositoryId) framework ∧ framework.candidate = candidate) :
    scene.store.Revises scene.repositoryId after ∧
      plan.Approaches (before.profile scene.repositoryId) (after.profile scene.repositoryId) ∧
      ∀ candidate ∈ attempts.succeeded, ∃ framework ∈ plan.offer, framework.candidate = candidate ∧
        framework.association plan.repositoryId ∈ (after.profile scene.repositoryId).associations ∧
        framework.tagKey ∈ (after.profile scene.repositoryId).tags := by
  induction attempted with
  | nil => exact ⟨revises, .refl _ _, fun _ member => absurd member List.not_mem_nil⟩
  | @cons candidate rest before middle _ _ _ outcome _ made _ ih =>
    obtain ⟨framework, lacks, rfl⟩ := waiting candidate List.mem_cons_self
    obtain ⟨absent, differentRest⟩ := List.nodup_cons.mp different
    have ended := made.of_leads
      (Scene.does_addAssociation here owned distinct names lacks before rfl revises)
    obtain ⟨revised, held⟩ := ended
    have step : plan.Approaches (before.profile scene.repositoryId) (middle.profile scene.repositoryId) ∧
        (middle.profile scene.repositoryId).associations ⊆
          insert (framework.association plan.repositoryId)
            (before.profile scene.repositoryId).associations := by
      cases outcome with
      | ok _ =>
        have same : middle.profile scene.repositoryId = _ := held
        rw [same]
        exact ⟨Plan.approaches_tagged lacks (Plan.approaches_associated lacks), fun _ => id⟩
      | error e => exact held.2
    have waitingRest := Scene.lacking_behind absent waiting step.2
    obtain ⟨toAfter, approaches, stand⟩ := ih revised differentRest waitingRest
    refine ⟨toAfter, step.1.trans approaches, ?_⟩
    cases outcome with
    | error e => exact stand
    | ok _ =>
      refine List.forall_mem_cons.mpr ⟨⟨framework, lacks.1, rfl, ?_, ?_⟩, stand⟩
      · have stored : framework.association plan.repositoryId ∈
            (middle.profile scene.repositoryId).associations := held ▸ Or.inl rfl
        exact approaches.kept _ stored (Plan.offers_of_lacks lacks)
      · have linked : framework.tagKey ∈ (middle.profile scene.repositoryId).tags := held ▸ Or.inl rfl
        exact approaches.keptTags _ linked (Plan.tagKey_not_lapses lacks.1)

/-- Every row that is not desired, and every framework that is lacking, is attempted once and stands or
falls with its own attempt. All attempts are in the report, with their failures. -/
structure PairByPair (repository : Repository) (architecture : String) (before : Store)
    (said : List Exchange) (report : Report) (after : Store) : Prop where
  undesired : ∀ row ∈ before.associationsOf repository.id,
    row.frameworkId ∉ before.desiredIds architecture repository.modelName →
      ((removals said).map Prod.fst).count row = 1 ∧
        ∀ failure, (row, failure) ∈ removals said →
          (row ∉ after.associationsOf repository.id ↔ failure = none)
  lacking : ∀ id ∈ before.desiredIds architecture repository.modelName,
    id ∉ (before.profile repository.id).frameworkIds →
      ((additions said).map fun attempt => attempt.1.frameworkId).count id = 1 ∧
        ∀ row failure, (row, failure) ∈ additions said → row.frameworkId = id →
          (id ∈ (after.profile repository.id).frameworkIds ↔ failure = none)
  retained : ∀ row ∈ before.associationsOf repository.id,
    row.frameworkId ∈ before.desiredIds architecture repository.modelName →
      row ∈ after.associationsOf repository.id ∧ row ∉ (removals said).map Prod.fst ∧
        row.frameworkId ∉ (additions said).map fun attempt => attempt.1.frameworkId
  added : ∀ id ∈ report.added, ∃ framework, before.framework? id = some framework ∧
    framework.association repository.id ∈ after.associationsOf repository.id ∧
      framework.tagKey ∈ (after.profile repository.id).tags
  removed : report.removed =
    ((Exchange.pieces said).filterMap Exchange.removed?).map Association.frameworkId
  gone : ∀ row ∈ (Exchange.pieces said).filterMap Exchange.removed?,
    row ∈ before.associationsOf repository.id ∧ row ∉ after.associationsOf repository.id
  count : report.removed.length + report.added.length + report.resources.length +
      report.failures.length =
    {row | row ∈ before.associationsOf repository.id ∧
      row.frameworkId ∉ before.desiredIds architecture repository.modelName}.ncard +
    (before.desiredIds architecture repository.modelName \
      (before.profile repository.id).frameworkIds).ncard +
    (before.resourceNames repository.modelName).length +
    if Exchange.failures (Exchange.lastPiece said) = [] then 0 else 1

theorem mem_removals_of_removed {part : List Exchange} (shown : Exchange.removed? part = some row) :
    (row, none) ∈ removals part := by
  unfold Exchange.removed? at shown
  split at shown
  · next other reply rest =>
    split at shown
    · next unfailing =>
      obtain rfl := Option.some.inj shown
      cases reply with
      | ok present => exact List.mem_cons_self
      | error e => cases unfailing
    · cases shown
  · cases shown

theorem ncard_of_nodup {β : Type} {members : Set β} {listed : List β} (different : listed.Nodup)
    (complete : ∀ value, value ∈ listed ↔ value ∈ members) : members.ncard = listed.length := by
  classical
  have same : members = (listed.toFinset : Set β) := by
    ext value
    rw [List.coe_toFinset, Set.mem_ofPred_eq]
    exact (complete value).symm
  rw [same, Set.ncard_coe_finset, List.toFinset_card_of_nodup different]

namespace Proceedings

variable {scene : Scene} {repository : Repository} {architecture : String} {report : Report}
  (proceedings :
    Proceedings scene.faults scene.files repository architecture scene.store report after)
  (here : repository.id = scene.repositoryId)

include proceedings

theorem oneByOne : ∀ exchange ∈ proceedings.exchanges, ∀ id,
    exchange.call ≠ .store (.dissociateAll id) := by
  refine proceedings.forall_said (fun _ => by simp [Exchange.goesOn]) ?_ (fun _ _ _ _ => by simp)
    fun _ _ _ _ => by simp
  intro exchange aside id isClearing
  rw [isClearing] at aside
  exact aside

theorem additionIds_eq :
    (additions proceedings.exchanges).map (fun attempt => attempt.1.frameworkId) =
      proceedings.difference.toAdd.map Candidate.frameworkId := by
  have rows := congrArg (List.map Association.frameworkId) proceedings.additions_eq
  rw [List.map_map, List.map_map] at rows
  exact rows

/-- Among the pieces of all that was said, the rows that were removed are those of the settlement, and
the last piece is the pruning of the tags. -/
theorem pieces_behind {first : List Exchange}
    (calm : ∀ exchange ∈ first, exchange.dissociation? = none) :
    (Exchange.pieces (first ++ proceedings.exchanges)).filterMap Exchange.removed? =
        proceedings.removed.succeeded ∧
      Exchange.lastPiece (first ++ proceedings.exchanges) = proceedings.pruning := by
  obtain ⟨others, cut, noOthers⟩ := proceedings.pieces_eq first calm
  -- Pieces of additions begin with an order to store, and the pruning gives no order for a row.
  have noAdded : proceedings.adding.filterMap Exchange.removed? = [] := by
    refine List.filterMap_eq_nil_iff.mpr fun part member => ?_
    obtain ⟨candidate, -, reply, rest, rfl, -⟩ := proceedings.adding_part part member
    rfl
  have noPruned : [proceedings.pruning].filterMap Exchange.removed? = [] := by
    refine List.filterMap_eq_nil_iff.mpr fun part member => ?_
    obtain rfl := List.mem_singleton.mp member
    unfold Exchange.removed?
    split
    · next row reply rest begins =>
      have aside := proceedings.pruning_aside ⟨.store (.dissociate row), reply⟩
        (begins ▸ List.mem_cons_self)
      exact aside.elim
    · rfl
  constructor
  · rw [cut, List.filterMap_append, noOthers, List.nil_append, List.filterMap_append,
      List.filterMap_append, noAdded, noPruned, List.append_nil, List.append_nil,
      proceedings.removed_eq]
  · rw [Exchange.lastPiece, cut]
    simp

include here

theorem undesired_of_removal {failure : Option HubError}
    (tried : (row, failure) ∈ removals proceedings.exchanges) :
    row.frameworkId ∉ scene.store.desiredIds architecture repository.modelName := by
  have member : row ∈ proceedings.difference.toRemove :=
    proceedings.removals_eq ▸ List.mem_map.mpr ⟨_, tried, rfl⟩
  exact ((proceedings.mem_toRemove here).mp member).2

theorem desired_of_addition {failure : Option HubError}
    (tried : (row, failure) ∈ additions proceedings.exchanges) :
    row.repositoryId = repository.id ∧
      row.frameworkId ∈ scene.store.desiredIds architecture repository.modelName ∧
        row.frameworkId ∉ (scene.store.profile repository.id).frameworkIds := by
  have member : row ∈ proceedings.difference.toAdd.map (rowOf repository.id) :=
    proceedings.additions_eq ▸ List.mem_map.mpr ⟨_, tried, rfl⟩
  obtain ⟨candidate, toAdd, rfl⟩ := List.mem_map.mp member
  exact ⟨rfl, (proceedings.mem_toAdd here).mp (List.mem_map.mpr ⟨candidate, toAdd, rfl⟩)⟩

variable (transcript : Transcript (Store.answers scene.faults scene.files)
  (settle repository architecture).run scene.store proceedings.exchanges (.ok report) after)

include transcript

theorem row_removed (stored : row ∈ scene.store.associationsOf repository.id)
    (undesired : row.frameworkId ∉ scene.store.desiredIds architecture repository.modelName) :
    row ∉ after.associationsOf repository.id ↔ (row, none) ∈ removals proceedings.exchanges := by
  have unadded : ∀ failure, (row, failure) ∉ additions proceedings.exchanges :=
    fun failure tried => undesired (proceedings.desired_of_addition here tried).2.1
  obtain ⟨present, isOf⟩ := Store.mem_associationsOf.mp stored
  have kept := mem_of_unadded transcript proceedings.oneByOne unadded
  rw [Store.mem_associationsOf]
  simp only [Store.profile, Set.mem_ofPred_eq, kept, present, isOf, true_and, and_true, not_not]

theorem row_retained (stored : row ∈ scene.store.associationsOf repository.id)
    (desired : row.frameworkId ∈ scene.store.desiredIds architecture repository.modelName) :
    row ∈ after.associationsOf repository.id := by
  have unremoved : ∀ failure, (row, failure) ∉ removals proceedings.exchanges :=
    fun failure tried => proceedings.undesired_of_removal here tried desired
  obtain ⟨present, isOf⟩ := Store.mem_associationsOf.mp stored
  have kept := mem_of_unremoved transcript proceedings.oneByOne unremoved
  exact Store.mem_associationsOf.mpr ⟨kept.mpr (Or.inl present), isOf⟩

theorem framework_added {id : Int}
    (desired : id ∈ scene.store.desiredIds architecture repository.modelName)
    (lacking : id ∉ (scene.store.profile repository.id).frameworkIds) :
    id ∈ (after.profile repository.id).frameworkIds ↔
      ∃ row, row.frameworkId = id ∧ (row, none) ∈ additions proceedings.exchanges := by
  have kept : ∀ row : Association, row.frameworkId = id → row.repositoryId = repository.id →
      (row ∈ after.associations ↔ (row, none) ∈ additions proceedings.exchanges) := by
    intro row same isOf
    have unremoved : ∀ failure, (row, failure) ∉ removals proceedings.exchanges :=
      fun failure tried => proceedings.undesired_of_removal here tried (same ▸ desired)
    refine (mem_of_unremoved transcript proceedings.oneByOne unremoved).trans (or_iff_right ?_)
    intro present
    exact lacking ⟨row, ⟨present, isOf⟩, same⟩
  constructor
  · intro holds
    obtain ⟨row, ⟨present, isOf⟩, same⟩ := holds
    exact ⟨row, same, (kept row same isOf).mp present⟩
  · intro tried
    obtain ⟨row, same, tried⟩ := tried
    have isOf := (proceedings.desired_of_addition here tried).1
    exact ⟨row, ⟨(kept row same isOf).mpr tried, isOf⟩, same⟩

omit transcript in
/-- Up to the additions no row has come in. -/
theorem revises_cut : scene.store.Revises scene.repositoryId proceedings.cut ∧
    (proceedings.cut.profile scene.repositoryId).associations ⊆
      (scene.store.profile repository.id).associations := by
  let plan := scene.store.plan repository.place architecture
  have names : proceedings.desired.Names {framework | framework ∈ plan.offer} := proceedings.names here
  let kept (later : Store) : Prop := scene.store.Revises scene.repositoryId later ∧
    (later.profile scene.repositoryId).associations ⊆ (scene.store.profile repository.id).associations
  show kept proceedings.cut
  refine proceedings.removes.keeps ?_ ⟨here ▸ proceedings.revises_equipped, ?_⟩
  · intro row member before part outcome after holds made
    have unoffered : ¬plan.Offers row.frameworkId := fun offered =>
      ((proceedings.mem_toRemove here).mp member).2 (Store.mem_desiredIds.mpr offered)
    have ended := made.of_leads (Scene.does_removeAssociation here names
      ((proceedings.isOf_toRemove member).trans here) unoffered before rfl holds.1)
    refine ⟨ended.1, Set.Subset.trans ?_ holds.2⟩
    cases outcome with
    | ok _ => exact ended.2.2 ▸ Set.sdiff_subset
    | error e => exact ended.2.2.2
  · intro row present
    rw [← here] at present
    exact Store.mem_associationsOf.mp
      (proceedings.mem_equipped.mp (Store.mem_associationsOf.mpr present))

omit transcript in
theorem lacks_of_toAdd {candidate : Candidate} (member : candidate ∈ proceedings.difference.toAdd) :
    ∃ framework, (scene.store.plan repository.place architecture).Lacks
      (proceedings.cut.profile scene.repositoryId) framework ∧ framework.candidate = candidate := by
  obtain ⟨framework, offered, rfl⟩ :=
    ((proceedings.names here).candidates candidate).mp (proceedings.desired_of_toAdd member)
  refine ⟨framework, ⟨offered, fun holds => ?_⟩, rfl⟩
  obtain ⟨row, present, same⟩ := holds
  have lacking := ((proceedings.mem_toAdd here).mp (List.mem_map.mpr ⟨_, member, rfl⟩)).2
  exact lacking ⟨row, (proceedings.revises_cut here).2 present, same⟩

omit transcript in
theorem added_stands : ∀ candidate ∈ proceedings.added.succeeded,
    ∃ framework ∈ scene.store.offer architecture repository.modelName,
      framework.candidate = candidate ∧
        framework.association repository.id ∈ after.associationsOf repository.id ∧
          framework.tagKey ∈ (after.profile repository.id).tags := by
  let plan := scene.store.plan repository.place architecture
  have distinct : plan.Distinct := scene.lawful.plan_distinct repository.place architecture
  have isFrom : plan.IsFrom scene.store := scene.lawful.plan_isFrom repository.place architecture
  have names : proceedings.desired.Names {framework | framework ∈ plan.offer} := proceedings.names here
  obtain ⟨revises, -, stand⟩ := added_stand here here distinct names proceedings.adds
    (proceedings.revises_cut here).1 (proceedings.nodup_toAdd here)
    fun _ member => proceedings.lacks_of_toAdd here member
  have pruned := proceedings.prunes.of_leads
    (Scene.does_pruneTags here isFrom names proceedings.grown rfl revises)
  have approaches : plan.Approaches (proceedings.grown.profile scene.repositoryId)
      (after.profile scene.repositoryId) := by
    obtain ⟨-, ended⟩ := pruned
    cases stale : proceedings.stale with
    | ok tags =>
      rw [stale] at ended
      exact ended.1
    | error e =>
      rw [stale] at ended
      exact ended.2.1
  intro candidate succeeded
  obtain ⟨framework, offered, isFor, stored, linked⟩ := stand candidate succeeded
  refine ⟨framework, offered, isFor, Store.mem_associationsOf.mpr ?_, ?_⟩
  · rw [here]
    exact here ▸ approaches.kept _ stored ⟨framework, offered, rfl⟩
  · rw [here]
    exact approaches.keptTags _ linked (Plan.tagKey_not_lapses offered)

theorem undesired_row (stored : row ∈ scene.store.associationsOf repository.id)
    (undesired : row.frameworkId ∉ scene.store.desiredIds architecture repository.modelName) :
    ((removals proceedings.exchanges).map Prod.fst).count row = 1 ∧
      ∀ failure, (row, failure) ∈ removals proceedings.exchanges →
        (row ∉ after.associationsOf repository.id ↔ failure = none) := by
  have member : row ∈ (removals proceedings.exchanges).map Prod.fst :=
    proceedings.removals_eq ▸ (proceedings.mem_toRemove here).mpr ⟨stored, undesired⟩
  have different : ((removals proceedings.exchanges).map Prod.fst).Nodup :=
    proceedings.removals_eq ▸ proceedings.nodup_toRemove
  refine ⟨List.count_eq_one_of_mem different member, fun failure tried => ?_⟩
  rw [proceedings.row_removed here transcript stored undesired]
  constructor
  · intro removed
    exact congrArg Prod.snd (List.inj_on_of_nodup_map different tried removed rfl)
  · rintro rfl
    exact tried

theorem lacking_framework {id : Int}
    (desired : id ∈ scene.store.desiredIds architecture repository.modelName)
    (lacking : id ∉ (scene.store.profile repository.id).frameworkIds) :
    ((additions proceedings.exchanges).map fun attempt => attempt.1.frameworkId).count id = 1 ∧
      ∀ row failure, (row, failure) ∈ additions proceedings.exchanges → row.frameworkId = id →
        (id ∈ (after.profile repository.id).frameworkIds ↔ failure = none) := by
  have member : id ∈ (additions proceedings.exchanges).map fun attempt => attempt.1.frameworkId :=
    proceedings.additionIds_eq ▸ (proceedings.mem_toAdd here).mpr ⟨desired, lacking⟩
  have different :
      ((additions proceedings.exchanges).map fun attempt => attempt.1.frameworkId).Nodup :=
    proceedings.additionIds_eq ▸ proceedings.nodup_toAdd here
  refine ⟨List.count_eq_one_of_mem different member, fun row failure tried isFor => ?_⟩
  rw [proceedings.framework_added here transcript desired lacking]
  constructor
  · intro added
    obtain ⟨other, same, added⟩ := added
    exact congrArg Prod.snd (List.inj_on_of_nodup_map different tried added (isFor.trans same.symm))
  · rintro rfl
    exact ⟨row, isFor, tried⟩

theorem desired_row (stored : row ∈ scene.store.associationsOf repository.id)
    (desired : row.frameworkId ∈ scene.store.desiredIds architecture repository.modelName) :
    row ∈ after.associationsOf repository.id ∧
      row ∉ (removals proceedings.exchanges).map Prod.fst ∧
      row.frameworkId ∉
        (additions proceedings.exchanges).map fun attempt => attempt.1.frameworkId := by
  rw [proceedings.additionIds_eq, proceedings.removals_eq, proceedings.mem_toRemove here,
    proceedings.mem_toAdd here]
  refine ⟨proceedings.row_retained here transcript stored desired, fun toRemove => toRemove.2 desired,
    fun toAdd => toAdd.2 ?_⟩
  exact ⟨row, Store.mem_associationsOf.mp stored, rfl⟩

theorem removed_row (removed : row ∈ proceedings.removed.succeeded) :
    row ∈ scene.store.associationsOf repository.id ∧ row ∉ after.associationsOf repository.id := by
  rw [proceedings.removed_eq] at removed
  obtain ⟨part, member, shown⟩ := List.mem_filterMap.mp removed
  have tried : (row, none) ∈ removals proceedings.exchanges := by
    rw [removals, proceedings.filterMap_said rfl fun _ => Exchange.dissociation?_of_isAside]
    exact List.mem_append_left _ (List.mem_flatMap.mpr ⟨part, member, mem_removals_of_removed shown⟩)
  have toRemove : row ∈ proceedings.difference.toRemove :=
    proceedings.removals_eq ▸ List.mem_map.mpr ⟨_, tried, rfl⟩
  obtain ⟨stored, undesired⟩ := (proceedings.mem_toRemove here).mp toRemove
  exact ⟨stored, (proceedings.row_removed here transcript stored undesired).mpr tried⟩

omit transcript in
theorem added_framework {id : Int} (added : id ∈ report.added) :
    ∃ framework, scene.store.framework? id = some framework ∧
      framework.association repository.id ∈ after.associationsOf repository.id ∧
        framework.tagKey ∈ (after.profile repository.id).tags := by
  rw [proceedings.addedIds] at added
  obtain ⟨candidate, succeeded, rfl⟩ := List.mem_map.mp added
  obtain ⟨framework, offered, rfl, stored, linked⟩ := proceedings.added_stands here candidate succeeded
  exact ⟨framework, scene.lawful.framework?_eq (List.mem_filter.mp offered).1, stored, linked⟩

omit transcript in
/-- Every attempt is in the report once, as a success or as a failure. -/
theorem attempts_counted :
    report.removed.length + report.added.length + report.resources.length +
        report.failures.length =
      {row | row ∈ scene.store.associationsOf repository.id ∧
        row.frameworkId ∉ scene.store.desiredIds architecture repository.modelName}.ncard +
      (scene.store.desiredIds architecture repository.modelName \
        (scene.store.profile repository.id).frameworkIds).ncard +
      (scene.store.resourceNames repository.modelName).length +
      if Exchange.failures proceedings.pruning = [] then 0 else 1 := by
  have links := proceedings.links.count
  have removes : _ = proceedings.difference.toRemove.length := proceedings.removes.count
  have adds : _ = proceedings.difference.toAdd.length := proceedings.adds.count
  have prunes : (errorOf proceedings.stale).length =
      if Exchange.failures proceedings.pruning = [] then 0 else 1 := by
    rw [failures_of_minor (minor_pruneTags repository.id proceedings.desired) proceedings.prunes]
    cases proceedings.stale <;> rfl
  have undesired := @ncard_of_nodup _ {row | row ∈ scene.store.associationsOf repository.id ∧
    row.frameworkId ∉ scene.store.desiredIds architecture repository.modelName} _
    proceedings.nodup_toRemove fun row => proceedings.mem_toRemove here
  have lacking := @ncard_of_nodup _ (scene.store.desiredIds architecture repository.modelName \
    (scene.store.profile repository.id).frameworkIds) _
    (proceedings.nodup_toAdd here) fun id => proceedings.mem_toAdd here
  rw [List.length_map] at lacking
  rw [proceedings.removedIds, proceedings.addedIds, proceedings.linkedResources, proceedings.failures,
    ← prunes, undesired, lacking]
  simp only [List.length_map, List.length_append]
  omega

theorem pair_by_pair {first : List Exchange}
    (calm : ∀ exchange ∈ first, exchange.dissociation? = none ∧ exchange.association? = none) :
    PairByPair repository architecture scene.store (first ++ proceedings.exchanges) report after := by
  have noRemovals : removals (first ++ proceedings.exchanges) = removals proceedings.exchanges := by
    rw [removals, List.filterMap_append,
      List.filterMap_eq_nil_iff.mpr fun exchange member => (calm exchange member).1]
    rfl
  have noAdditions : additions (first ++ proceedings.exchanges) = additions proceedings.exchanges := by
    rw [additions, List.filterMap_append,
      List.filterMap_eq_nil_iff.mpr fun exchange member => (calm exchange member).2]
    rfl
  obtain ⟨removedRows, lastPiece⟩ :=
    proceedings.pieces_behind fun exchange member => (calm exchange member).1
  constructor
  · rw [noRemovals]
    exact fun row => proceedings.undesired_row here transcript
  · rw [noAdditions]
    exact fun id => proceedings.lacking_framework here transcript
  · rw [noRemovals, noAdditions]
    exact fun row => proceedings.desired_row here transcript
  · exact fun id => proceedings.added_framework here
  · rw [removedRows, proceedings.removedIds]
  · rw [removedRows]
    exact fun row => proceedings.removed_row here transcript
  · rw [lastPiece]
    exact proceedings.attempts_counted here

end Proceedings

end Reconcile

/-- The call fails in an attempt, if it fails. Frameworks are looked up, and associations listed, in
attempts only when the associations have been listed. -/
def StoreCall.isAttempted (listed : Bool) : StoreCall → Bool
  | .associate _ | .dissociate _ | .ensureTag .. | .findTag .. | .link .. | .unlink .. => true
  | .listTags .. => true
  | .findFramework _ | .listAssociations _ => listed
  | _ => false

/-- The push is not cancelled, a file has some content, and store calls fail in attempts only. -/
structure Surroundings.FailsInAttempts (surroundings : Surroundings) (request : FileRequest)
    (content : String) : Prop where
  uncancelled : ∀ dialogue, surroundings.isCancelled dialogue = false
  fetched : ∀ dialogue limit, surroundings.fetch dialogue request limit = .ok content
  faults : ∀ dialogue call e, surroundings.storeFault dialogue call = some e →
    e ≠ .cancelled ∧ call.isAttempted (dialogue.exchanges.any Exchange.lists)

namespace Reconcile

variable {surroundings : Surroundings} {request : FileRequest} {content : String}

theorem breach?_of_failsInAttempts (calm : surroundings.FailsInAttempts request content)
    (dialogue : Dialogue) {call : Call}
    (isFetch : ∀ other limit, call = .fetch other limit → other = request) :
    Exchange.breach? (dialogue.exchanges.any Exchange.lists)
      ⟨call, (surroundings.reply dialogue call).1⟩ = none := by
  cases call with
  | store request =>
    simp only [Surroundings.reply]
    split
    · cases request with
      | listResources | listCandidates | findFramework | listAssociations => rfl
      | _ => rfl
    · next e planned =>
      have attempted := (calm.faults dialogue request e planned).2
      cases request with
      | findFramework id =>
        have listed : dialogue.exchanges.any Exchange.lists = true := attempted
        rw [listed]
        rfl
      | listAssociations id =>
        have listed : dialogue.exchanges.any Exchange.lists = true := attempted
        rw [listed]
        rfl
      | listResources | listCandidates => cases attempted
      | _ => rfl
  | fetch other limit =>
    obtain rfl := isFetch other limit rfl
    rw [Surroundings.reply, calm.fetched]
    rfl
  | isCancelled =>
    rw [Surroundings.reply, calm.uncancelled]
    rfl
  | _ => rfl

theorem unbroken_of_failsInAttempts (calm : surroundings.FailsInAttempts request content)
    {program : Program α} {dialogue : Dialogue}
    (ran : surroundings.run program store = (value, dialogue))
    (fetches : ∀ exchange ∈ dialogue.exchanges, ∀ other limit,
      exchange.call = .fetch other limit → other = request) :
    breach? false dialogue.exchanges.reverse = none := by
  let kept (dialogue : Dialogue) : Prop :=
    (∀ exchange ∈ dialogue.exchanges, ∀ other limit,
      exchange.call = .fetch other limit → other = request) →
        breach? false dialogue.exchanges.reverse = none
  have keeps : kept (surroundings.run program store).2 := by
    refine Surroundings.converse_keeps ?_ program fun _ => rfl
    intro call dialogue unbroken fetches
    obtain ⟨isFetch, earlier⟩ := List.forall_mem_cons.mp fetches
    have goesOn := breach?_of_failsInAttempts calm dialogue isFetch
    show breach? false (⟨call, (surroundings.reply dialogue call).1⟩ :: dialogue.exchanges).reverse = none
    rw [List.reverse_cons, breach?_append, unbroken earlier, Option.none_or, Bool.false_or,
      List.any_reverse, breach?, goesOn]
    rfl
  rw [ran] at keeps
  exact keeps fetches

theorem abides_recompute (config : SyncConfig) (repository : Repository) (reference : String) :
    Work.Abides (fun call store => (∃ limit, call = .fetch (configRequest repository reference) limit) ∨
      call.Belongs repository.id store) (recompute config repository reference) := by
  refine Work.abides_bind (Work.abides_bind (Work.abides_checkpoint fun _ => Or.inr trivial) fun _ => ?_)
    fun content => ?_
  · exact fun store => ⟨Or.inl ⟨_, rfl⟩, fun _ _ _ => trivial⟩
  · refine Work.abides_bind (fun _ => trivial) fun architecture => ?_
    refine Work.abides_bind ?_ fun report => Work.abides_pure _
    exact (abides_settle repository architecture).mono fun _ _ => Or.inr

/-- The scene of a reconciliation with a configuration that can be fetched. -/
def readScene (store : Store) (lawful : store.Lawful) (repositoryId : Int) (content : String) :
    Scene where
  faults := (· ≠ .cancelled)
  faults_ne_cancelled _ := id
  files _ := .ok content
  files_ne_cancelled := by simp
  repositoryId := repositoryId
  store := store
  lawful := lawful

theorem transcript_of_failsInAttempts {config : SyncConfig} {repository : Repository}
    {reference : String} {outcome : Except HubError Outcome} {dialogue : Dialogue}
    (lawful : store.Lawful)
    (calm : surroundings.FailsInAttempts (configRequest repository reference) content)
    (ran : surroundings.run (Work.attempt (recompute config repository reference)) store =
      (outcome, dialogue)) :
    Transcript (readScene store lawful repository.id content).answers
        (recompute config repository reference).run store dialogue.exchanges.reverse outcome
        dialogue.store ∧
      breach? false dialogue.exchanges.reverse = none := by
  have possible := surroundings.transcript_run (@Surroundings.possibleAnswers_reply surroundings
    (· ≠ .cancelled) fun dialogue request e planned => (calm.faults dialogue request e planned).1) ran
  have asked := possible.allowed (fun _ _ _ _ => Store.anyAnswers_of_possible)
    (abides_recompute config repository reference store)
  constructor
  · refine possible.transfer fun exchange member before after answered => ?_
    obtain ⟨_, _, allowed, -⟩ := asked exchange member
    obtain ⟨earlier, heard⟩ :=
      Surroundings.heard_of_run ran exchange (List.mem_reverse.mp member)
    obtain ⟨call, reply⟩ := exchange
    obtain rfl : (surroundings.reply earlier call).1 = reply := heard
    rcases allowed with ⟨limit, rfl⟩ | belongs
    · exact ⟨calm.fetched earlier limit, answered⟩
    · refine Store.answers_of_possible _ (fun _ => id) ?_ answered
      cases call with
      | store request => exact Or.inr ⟨request, rfl⟩
      | isCancelled =>
        refine Or.inl ?_
        rw [Surroundings.reply, calm.uncancelled]
      | fetch | submit | now | acquire | release => exact belongs.elim
  · refine unbroken_of_failsInAttempts calm ran fun exchange member other limit isFetch => ?_
    obtain ⟨before, _, ⟨_, same⟩ | belongs, -⟩ := asked exchange (List.mem_reverse.mpr member)
    · exact (Call.fetch.inj (isFetch.symm.trans same)).1
    · rw [isFetch] at belongs
      exact belongs.elim

/-- Whatever fails in the attempts, the model is reconciled pair by pair. -/
theorem pairs_stand_alone {config : SyncConfig} {repository : Repository} {reference : String}
    {architecture : String} {outcome : Except HubError Outcome} {dialogue : Dialogue}
    (lawful : store.Lawful)
    (calm : surroundings.FailsInAttempts (configRequest repository reference) content)
    (declared : ModelConfig.architecture content = .ok architecture)
    (ran : surroundings.run (Work.attempt (recompute config repository reference)) store =
      (outcome, dialogue)) :
    ∃ report, outcome = .ok (.reconciled report) ∧
      PairByPair repository architecture store dialogue.exchanges.reverse report dialogue.store := by
  obtain ⟨transcript, unbroken⟩ := transcript_of_failsInAttempts lawful calm ran
  revert transcript unbroken
  generalize dialogue.exchanges.reverse = said
  intro transcript unbroken
  rcases Work.transcript_bind transcript with ⟨e, -, failed⟩ | ⟨first, rest, found, _, rfl, fetched, onward⟩
  · cases (Work.transcript_fetch failed).2.1
  obtain ⟨rfl, same, rfl⟩ := Work.transcript_fetch fetched
  obtain rfl : found = content := Except.ok.inj same
  rw [declared] at onward
  have onwardUnbroken : breach? false rest = none := unbroken
  have settles : Transcript (readScene _ lawful repository.id found).answers
      (settle repository architecture >>= fun report => pure (.reconciled report)).run _ rest outcome
      dialogue.store := onward
  rcases Work.transcript_bind settles with ⟨e, rfl, failed⟩ |
    ⟨settling, _, report, _, rfl, settled, ended⟩
  · obtain ⟨_, impossible, -⟩ := proceedings_of_settle onwardUnbroken failed
    cases impossible
  obtain ⟨rfl, rfl, rfl⟩ := ended
  rw [List.append_nil] at onwardUnbroken ⊢
  obtain ⟨_, same, proceedings, rfl⟩ := proceedings_of_settle onwardUnbroken settled
  obtain rfl := Except.ok.inj same
  refine ⟨report, rfl, proceedings.pair_by_pair rfl settled ?_⟩
  simp [Exchange.goesOn, Exchange.dissociation?, Exchange.association?]

def uncatalogued : Surroundings :=
  { Surroundings.calm bertFiles with
    storeFault := fun dialogue request =>
      match request with
      | .findFramework _ =>
        if dialogue.exchanges.any Exchange.lists then some (.database "disk full") else none
      | _ => none }

def bertUncatalogued : Except HubError Outcome × Dialogue :=
  uncatalogued.run (Work.attempt (recompute {} bert (expectedReference {} bert))) outdated

/-- The row that is not desired is gone, though its removal fails behind that. The lacking framework is
added, and the tags are not pruned. -/
theorem uncatalogued_adds :
    uncatalogued.FailsInAttempts (configRequest bert (expectedReference {} bert)) bertConfig ∧
      bertUncatalogued.2.store.associations.map Association.frameworkId = [9] ∧
      ∃ report, bertUncatalogued.1 = .ok (.reconciled report) ∧ report.added = [9] ∧
        report.removed = [] ∧ report.failures = [.database "disk full", .database "disk full"] ∧
        PairByPair bert "BertModel" outdated bertUncatalogued.2.exchanges.reverse report
          bertUncatalogued.2.store := by
  have calm : uncatalogued.FailsInAttempts (configRequest bert (expectedReference {} bert))
      bertConfig := by
    refine ⟨fun _ => rfl, fun _ _ => rfl, fun dialogue request e planned => ?_⟩
    simp only [uncatalogued] at planned
    split at planned
    · split at planned
      · next listed =>
        obtain rfl := Option.some.inj planned
        exact ⟨by simp, listed⟩
      · cases planned
    · cases planned
  obtain ⟨report, reconciled, pairs⟩ := pairs_stand_alone outdated_lawful calm bertConfig_architecture
    (Prod.eta bertUncatalogued).symm
  have ended : bertUncatalogued.1 = .ok (.reconciled
      { architecture := "BertModel", added := [9], removed := [], unchanged := [], resources := []
        staleTags := [], failures := [.database "disk full", .database "disk full"] }) := by
    decide +kernel
  obtain rfl := Outcome.reconciled.inj (Except.ok.inj (reconciled.symm.trans ended))
  exact ⟨calm, by decide +kernel, _, reconciled, rfl, rfl, rfl, pairs⟩

end Reconcile

end ModelHub
