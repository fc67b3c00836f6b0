import ModelHub.Proofs.Push.Complaints
import ModelHub.Proofs.Push.Confinement
import ModelHub.Proofs.Push.Idempotence

/-! Pushes to different repositories commute: in either order they report the same errors, and leave
every repository with the same tags and associations. Only the numbers of tags depend on the order.

So a link that names a number not given out yet would come to mean different tags: no such link may be
there. -/

namespace ModelHub

namespace Store

variable {before after : Store} {pushed repositoryId : Int}

theorem Revises.profile_elsewhere (revises : Store.Revises pushed before after)
    (issued : before.Issued) (elsewhere : repositoryId ≠ pushed) :
    after.profile repositoryId = before.profile repositoryId := by
  apply Profile.ext
  · ext row
    exact and_congr_left fun isOf => revises.associations row (isOf ▸ elsewhere)
  · ext key
    constructor
    · intro bears
      obtain ⟨row, member, same, linked⟩ := bears
      have linkedBefore := (revises.links _ elsewhere).mp linked
      rcases revises.newTags row member with old | isNew
      · exact ⟨row, old, same, linkedBefore⟩
      · have bound : row.id ≤ before.lastTagId := issued _ linkedBefore
        omega
    · intro bears
      obtain ⟨row, member, same, linked⟩ := bears
      exact ⟨row, revises.tags.mem member, same, (revises.links _ elsewhere).mpr linked⟩

/-- Which tags are listed depends on nothing but what there is. Their order may depend on their numbers. -/
theorem tagKeys_perm (lawful : before.Lawful) (lawfulAfter : after.Lawful)
    (same : (after.profile repositoryId).tags = (before.profile repositoryId).tags) :
    ((after.tagRowsOf repositoryId none).map TagRow.key).Perm
      ((before.tagRowsOf repositoryId none).map TagRow.key) := by
  have unique : ∀ store : Store, store.Lawful →
      ((store.tagRowsOf repositoryId none).map TagRow.key).Nodup := by
    intro store isLawful
    rw [tagRowsOf_none, ((List.mergeSort_perm _ _).map TagRow.key).nodup_iff]
    exact isLawful.tagKeys.sublist (List.filter_sublist.map _)
  have mem : ∀ (store : Store) (key : TagKey),
      key ∈ (store.tagRowsOf repositoryId none).map TagRow.key ↔
        key ∈ (store.profile repositoryId).tags := by
    intro store key
    simp only [List.mem_map, mem_tagRowsOf]
    constructor
    · intro listed
      obtain ⟨row, ⟨member, linked, -⟩, isKey⟩ := listed
      exact ⟨row, member, isKey, linked⟩
    · intro bears
      obtain ⟨row, member, isKey, linked⟩ := bears
      exact ⟨row, ⟨member, linked, by simp⟩, isKey⟩
  refine (List.perm_ext_iff_of_nodup (unique after lawfulAfter) (unique before lawful)).mpr ?_
  intro key
  rw [mem, mem, same]

end Store

def PushEvent.Apart (event other : PushEvent) : Prop :=
  ∀ identity otherIdentity repoType,
    event.identity = .ok identity → other.identity = .ok otherIdentity →
      identity.repoType = some repoType → otherIdentity.repoType = some repoType →
        identity.owner = otherIdentity.owner → identity.name ≠ otherIdentity.name

namespace PushEvent

variable {event other : PushEvent} {store : Store}

theorem place_of_target {place : RepositoryPlace} (target : event.target? store = some place) :
    ∃ identity, event.identity = .ok identity ∧ identity.repoType = some place.repoType ∧
      identity.owner = place.owner ∧ identity.name = place.name := by
  unfold PushEvent.target? at target
  split at target
  · cases target
  · next identity parsed =>
    obtain ⟨repoType, known, found⟩ := Option.bind_eq_some_iff.mp target
    obtain ⟨rfl, owner, name⟩ := Store.place?_eq_some found
    exact ⟨identity, parsed, known, owner.symm, name.symm⟩

theorem Apart.targets (apart : event.Apart other) (lawful : store.Lawful) :
    ∃ pushed otherPushed : Int, pushed ≠ otherPushed ∧
      (∀ place, event.target? store = some place → place.id = pushed) ∧
      ∀ place, other.target? store = some place → place.id = otherPushed := by
  obtain ⟨pushed, targets⟩ := event.exists_target store
  cases otherTarget : other.target? store with
  | none => exact ⟨pushed, pushed + 1, by omega, targets, nofun⟩
  | some otherPlace =>
    have otherTargets : ∀ place, some otherPlace = some place → place.id = otherPlace.id :=
      fun place same => congrArg _ (Option.some.inj same).symm
    cases target : event.target? store with
    | none =>
      exact ⟨otherPlace.id + 1, otherPlace.id, by omega, nofun, otherTargets⟩
    | some place =>
      refine ⟨place.id, otherPlace.id, fun same => ?_, fun other same =>
        congrArg _ (Option.some.inj same).symm, otherTargets⟩
      obtain rfl := lawful.place_of_id (Store.mem_places_of_target target)
        (Store.mem_places_of_target otherTarget) same
      obtain ⟨identity, parsed, known, owner, name⟩ := place_of_target target
      obtain ⟨otherIdentity, otherParsed, otherKnown, otherOwner, otherName⟩ :=
        place_of_target otherTarget
      exact apart identity otherIdentity place.repoType parsed otherParsed known otherKnown
        (owner.trans otherOwner.symm) (name.trans otherName.symm)

end PushEvent

namespace Push

variable {options : Options} {event other : PushEvent} {store middle after : Store}
  {result otherResult : PushResult} {files : FileRequest → Except HubError String}
  {review : RepoType → String → String → Except HubError Unit} {pushed otherPushed repositoryId : Int}

/-- A push in which no store call fails and nothing is cancelled, while the git server and the
moderation service answer in a given way. -/
def Smooth (files : FileRequest → Except HubError String)
    (review : RepoType → String → String → Except HubError Unit) (options : Options)
    (event : PushEvent) (store : Store) (result : PushResult) (after : Store) : Prop :=
  ∃ (conditions : Conditions) (last : Course), conditions.Steady ∧ conditions.files = files ∧
    conditions.review = review ∧
    conditions.run (handle options event) store = (some result, last) ∧ last.Unfailing ∧
    last.store = after

namespace Smooth

theorem result_eq (smooth : Smooth files review options event store result after)
    (lawful : store.Lawful) :
    result = .ofErrors (Agenda.errors store options files review event) := by
  obtain ⟨conditions, last, steady, rfl, rfl, runs, unfailing, rfl⟩ := smooth
  exact Option.some.inj (reports_of_unfailing steady lawful runs unfailing)

theorem profile_eq (smooth : Smooth files review options event store result after)
    (lawful : store.Lawful)
    (targets : ∀ place, event.target? store = some place → place.id = pushed) :
    store.Revises pushed after ∧ after.profile pushed =
      Change.result (Agenda.changes store options.config files event) (store.profile pushed) := by
  obtain ⟨conditions, last, steady, rfl, rfl, runs, unfailing, rfl⟩ := smooth
  exact profile_of_unfailing steady lawful targets runs unfailing

end Smooth

/-- What two pushes to different repositories come to. None of it depends on which was first. -/
structure Both (files : FileRequest → Except HubError String)
    (review : RepoType → String → String → Except HubError Unit) (options : Options)
    (event other : PushEvent) (pushed otherPushed : Int) (store : Store)
    (result otherResult : PushResult) (after : Store) : Prop where
  lawful : after.Lawful
  result : result = .ofErrors (Agenda.errors store options files review event)
  otherResult : otherResult = .ofErrors (Agenda.errors store options files review other)
  profile : after.profile pushed =
    Change.result (Agenda.changes store options.config files event) (store.profile pushed)
  otherProfile : after.profile otherPushed =
    Change.result (Agenda.changes store options.config files other) (store.profile otherPushed)
  elsewhere : ∀ repositoryId, repositoryId ≠ pushed → repositoryId ≠ otherPushed →
    after.profile repositoryId = store.profile repositoryId

theorem both_of_smooth (lawful : store.Lawful) (issued : store.Issued)
    (differ : pushed ≠ otherPushed)
    (targets : ∀ place, event.target? store = some place → place.id = pushed)
    (otherTargets : ∀ place, other.target? store = some place → place.id = otherPushed)
    (first : Smooth files review options event store result middle)
    (second : Smooth files review options other middle otherResult after) :
    Both files review options event other pushed otherPushed store result otherResult after := by
  obtain ⟨revises, profile⟩ := first.profile_eq lawful targets
  have lawfulMiddle := revises.lawful lawful
  have issuedMiddle := revises.issued lawfulMiddle issued
  have targetsMiddle : ∀ place, other.target? middle = some place → place.id = otherPushed := by
    intro place found
    exact otherTargets place (revises.target? other ▸ found)
  obtain ⟨revisesAgain, otherProfile⟩ := second.profile_eq lawfulMiddle targetsMiddle
  constructor
  · exact revisesAgain.lawful lawfulMiddle
  · exact first.result_eq lawful
  · rw [second.result_eq lawfulMiddle, revises.errors]
  · rw [revisesAgain.profile_elsewhere issuedMiddle differ, profile]
  · rw [otherProfile, revises.changes, revises.profile_elsewhere issued differ.symm]
  · intro repositoryId notPushed notOther
    rw [revisesAgain.profile_elsewhere issuedMiddle notOther,
      revises.profile_elsewhere issued notPushed]

theorem Both.profile_eq {firstAfter secondAfter : Store} {firstResult secondResult firstOther
      secondOther : PushResult}
    (first : Both files review options event other pushed otherPushed store firstResult firstOther
      firstAfter)
    (second : Both files review options other event otherPushed pushed store secondOther secondResult
      secondAfter) (repositoryId : Int) :
    secondAfter.profile repositoryId = firstAfter.profile repositoryId := by
  by_cases isPushed : repositoryId = pushed
  · rw [isPushed, second.otherProfile, first.profile]
  by_cases isOther : repositoryId = otherPushed
  · rw [isOther, second.profile, first.otherProfile]
  rw [second.elsewhere repositoryId isOther isPushed, first.elsewhere repositoryId isPushed isOther]

/-- Two pushes to different repositories report the same errors in either order, and leave every
repository with the same tags and associations, whatever the events and the stored rows are, as long as
no link names a tag number still to be given out. -/
theorem pushes_commute {between : Store} {resultFirst otherFirst resultSecond otherSecond : PushResult}
    {afterFirst afterSecond : Store}
    (lawful : store.Lawful) (issued : store.Issued) (apart : event.Apart other)
    (first : Smooth files review options event store resultFirst middle)
    (thenOther : Smooth files review options other middle otherFirst afterFirst)
    (otherOnce : Smooth files review options other store otherSecond between)
    (thenEvent : Smooth files review options event between resultSecond afterSecond) :
    resultSecond = resultFirst ∧ otherSecond = otherFirst ∧
      ∀ repositoryId,
        ((afterSecond.tagRowsOf repositoryId none).map TagRow.key).Perm
          ((afterFirst.tagRowsOf repositoryId none).map TagRow.key) ∧
        afterSecond.associationsOf repositoryId = afterFirst.associationsOf repositoryId := by
  obtain ⟨pushed, otherPushed, differ, targets, otherTargets⟩ := apart.targets lawful
  have inOrder := both_of_smooth lawful issued differ targets otherTargets first thenOther
  have reversed := both_of_smooth lawful issued differ.symm otherTargets targets otherOnce thenEvent
  refine ⟨reversed.otherResult.trans inOrder.result.symm,
    reversed.result.trans inOrder.otherResult.symm, fun repositoryId => ?_⟩
  have same := inOrder.profile_eq reversed repositoryId
  exact ⟨Store.tagKeys_perm inOrder.lawful reversed.lawful (congrArg Profile.tags same),
    Store.associationsOf_congr inOrder.lawful reversed.lawful (congrArg Profile.associations same)⟩

def calmly (event : PushEvent) (store : Store) : Option PushResult × Course :=
  (Conditions.calm bertFiles).run (handle .plain event) store

theorem smooth_calmly
    (succeeds : (calmly event store).1 = some (.ok ()) ∧ (calmly event store).2.Unfailing) :
    Smooth bertFiles (fun _ _ _ => .ok ()) .plain event store (.ok ()) (calmly event store).2.store :=
  ⟨.calm bertFiles, (calmly event store).2, bertFiles_steady, rfl, rfl, Prod.ext succeeds.1 rfl,
    succeeds.2, rfl⟩

def twinDataPush : PushEvent :=
  { bertPush with fullName := "datasets_acme/bert", commits := [{ added := ["a.parquet"] }] }

theorem bertPush_apart : bertPush.Apart twinDataPush := by
  intro identity otherIdentity repoType parsed otherParsed known otherKnown
  have isModel : bertPush.identity.map RepoIdentity.repoType = .ok (some .model) := by decide +kernel
  have isDataset : twinDataPush.identity.map RepoIdentity.repoType = .ok (some .dataset) := by
    decide +kernel
  rw [parsed] at isModel
  rw [otherParsed] at isDataset
  have model : identity.repoType = some .model := Except.ok.inj isModel
  have dataset : otherIdentity.repoType = some .dataset := Except.ok.inj isDataset
  rw [known] at model
  rw [otherKnown, model] at dataset
  cases dataset

/-- The model gets the first tag in one order, and the second tag in the other. -/
theorem twins_commute :
    let inOrder := calmly twinDataPush (calmly bertPush twins).2.store
    let reversed := calmly bertPush (calmly twinDataPush twins).2.store
    inOrder.2.store.tagRowsOf 1 none =
        [{ id := 1, scope := "model", category := "runtime_framework", group := "", name := "vllm" }] ∧
      reversed.2.store.tagRowsOf 1 none =
        [{ id := 2, scope := "model", category := "runtime_framework", group := "", name := "vllm" }] ∧
      ((reversed.2.store.tagRowsOf 2 none).map TagRow.key).Perm
        ((inOrder.2.store.tagRowsOf 2 none).map TagRow.key) ∧
      reversed.2.store.associationsOf 1 = inOrder.2.store.associationsOf 1 := by
  have reachable : twins.Reachable := .upsertRepository _ _ _ _ Store.bert_reachable
  have issued : ∀ link ∈ twins.links, link.tagId ≤ twins.lastTagId := by decide +kernel
  obtain ⟨-, -, same⟩ := pushes_commute reachable.lawful issued bertPush_apart
    (smooth_calmly (by decide +kernel))
    (smooth_calmly (by decide +kernel))
    (smooth_calmly (by decide +kernel))
    (smooth_calmly (by decide +kernel))
  exact ⟨by decide +kernel, by decide +kernel, (same 2).1, (same 1).2⟩

/-- A data set is linked to the number that the next tag will get. -/
def linkedAhead : Store := ((twins.upsertRepository .dataset "acme" "corpus" "main").link 3 1).2

/-- The link comes to mean the first tag that is added, whichever push adds it. -/
theorem linked_ahead_tells_order :
    let inOrder := calmly twinDataPush (calmly bertPush linkedAhead).2.store
    let reversed := calmly bertPush (calmly twinDataPush linkedAhead).2.store
    linkedAhead.Lawful ∧ bertPush.Apart twinDataPush ∧
      Smooth bertFiles (fun _ _ _ => .ok ()) .plain bertPush linkedAhead (.ok ())
        (calmly bertPush linkedAhead).2.store ∧
      Smooth bertFiles (fun _ _ _ => .ok ()) .plain twinDataPush (calmly bertPush linkedAhead).2.store
        (.ok ()) inOrder.2.store ∧
      Smooth bertFiles (fun _ _ _ => .ok ()) .plain twinDataPush linkedAhead (.ok ())
        (calmly twinDataPush linkedAhead).2.store ∧
      Smooth bertFiles (fun _ _ _ => .ok ()) .plain bertPush (calmly twinDataPush linkedAhead).2.store
        (.ok ()) reversed.2.store ∧
      (inOrder.2.store.tagRowsOf 3 none).map TagRow.key =
        [.of .model .runtimeFramework "" "vllm"] ∧
      (reversed.2.store.tagRowsOf 3 none).map TagRow.key = [.of .dataset .library "" "parquet"] := by
  have lawful : linkedAhead.Lawful := by constructor <;> decide +kernel
  exact ⟨lawful, bertPush_apart, smooth_calmly (by decide +kernel), smooth_calmly (by decide +kernel),
    smooth_calmly (by decide +kernel), smooth_calmly (by decide +kernel), by decide +kernel,
    by decide +kernel⟩

end Push

end ModelHub
