import ModelHub.Proofs.Concurrency.CrewOrder
import ModelHub.Proofs.Push.Confinement
import ModelHub.Proofs.Reconcile.Settlement

/-! Reconciliations side by side leave every model as they would if the calls ran one after another,
in the order in which they acquired their locks. What the calls for other models do in between makes
no difference: all that they share is the catalogue of tags. -/

namespace ModelHub

/-- In a store that grew from the empty one no link runs ahead of the tag numbers. -/
theorem Store.Reachable.issuedTo {store : Store} (reachable : store.Reachable) (repositoryId : Int) :
    store.IssuedTo repositoryId := by
  have unchanged : ∀ {before after : Store}, after.links = before.links →
      after.lastTagId = before.lastTagId → before.IssuedTo repositoryId →
        after.IssuedTo repositoryId := by
    intro before after links lastTagId issued
    unfold Store.IssuedTo
    rw [links, lastTagId]
    exact issued
  induction reachable with
  | empty => exact fun _ => nofun
  | upsertRepository repoType owner name defaultBranch _ ih =>
    refine unchanged ?_ ?_ ih <;> unfold Store.upsertRepository <;> split <;> rfl
  | markMirror id source _ ih =>
    refine unchanged ?_ ?_ ih <;> unfold Store.markMirror <;> split <;> rfl
  | upsertFramework framework _ ih =>
    refine unchanged ?_ ?_ ih <;> unfold Store.upsertFramework <;> split <;> rfl
  | removeFramework id _ ih => exact unchanged rfl rfl ih
  | addArchitecture frameworkId architecture _ ih => exact unchanged rfl rfl ih
  | addModel frameworkId model _ ih => exact unchanged rfl rfl ih
  | addResource resource model _ ih => exact unchanged rfl rfl ih
  | push conditions options event before ih =>
    obtain ⟨result, last, ran⟩ := conditions.run_answers (Push.handle options event) (.start _)
    have revises := Conditions.run_of_leads (Push.handle_revises options event _ 0) ran
    rw [Conditions.run, ran]
    exact revises.issuedTo (revises.lawful before.lawful) ih

namespace ReconcileCall

variable {call : ReconcileCall} {start store : Store} {repository : Repository}

def changes (call : ReconcileCall) (start : Store) (fetched : Option (Except HubError String)) :
    List Change :=
  match start.findRepository .model call.identity.owner call.identity.name with
  | .ok (some repository) =>
    Reconcile.passChanges start repository call.action (fetchedOr fetched)
  | _ => []

namespace Admits

theorem alone_leads (admits : call.Admits start repository) (descends : start.Descends store)
    (fetched : Option (Except HubError String)) :
    store.Revises repository.id (call.alone fetched store) ∧
      store.Descends (call.alone fetched store) := by
  rw [(admits.of_descends descends).alone_eq]
  obtain ⟨value, last, ran⟩ := Conditions.run_answers (.calm fun _ => fetchedOr fetched)
    (Reconcile.pass repository call.action (fetchedOr fetched)).run (.start store)
  have ended := Conditions.run_of_abides (Reconcile.abides_pass (Course.start store).store) ran
  rw [Conditions.run, ran]
  exact ended

theorem profile_alone (admits : call.Admits start repository) (descends : start.Descends store)
    (lawful : start.Lawful) {fetched : Option (Except HubError String)}
    (ready : Reconcile.Acts call.action (fetchedOr fetched) →
      (start.profile repository.id).Legible) :
    (call.alone fetched store).profile repository.id =
      Change.result (call.changes start fetched) (store.profile repository.id) := by
  rw [(admits.of_descends descends).alone_eq]
  obtain ⟨value, last, ran⟩ := Conditions.run_answers (.calm fun _ => fetchedOr fetched)
    (Reconcile.pass repository call.action (fetchedOr fetched)).run (.start store)
  have legible := fun acts => (descends.legible_iff lawful repository.id).mpr (ready acts)
  have unfailing := Reconcile.unfailing_pass (descends.lawful lawful) legible ran
  have ended := Reconcile.profile_of_pass (descends.lawful lawful) ran unfailing
  rw [Conditions.run, ran]
  rw [Reconcile.passChanges_congr descends] at ended
  unfold changes
  rw [admits.found]
  exact ended

end Admits

end ReconcileCall

namespace Crew

variable {P : Type} {calls : P → ReconcileCall} {start : Store} {id : Int} {α : Type}
  {view : Profile → α}

/-- A view of the profile of a model that is not affected by the calls for other models. -/
structure Isolated (start : Store) (id : Int) (view : Profile → α) : Prop where
  own : ∀ changes before other, view before = view other →
    view (Change.result changes before) = view (Change.result changes other)
  kept : ∀ before after repositoryId, start.Descends before → id ≠ repositoryId →
    before.Revises repositoryId after → view (after.profile id) = view (before.profile id)

theorem isolated_associations (start : Store) (id : Int) :
    Isolated start id Profile.associations where
  own changes _ _ agree := Change.associations_result_congr changes agree
  kept _ _ _ _ differs revises := revises.associations_of_ne differs

theorem isolated_profile (lawful : start.Lawful) (issued : start.IssuedTo id) :
    Isolated start id fun profile => profile where
  own changes _ _ agree := congrArg (Change.result changes) agree
  kept _ _ _ descends differs revises :=
    revises.profile_of_ne differs (descends.issuedTo lawful id issued)

theorem view_serially (isolated : Isolated start id view) (lawful : start.Lawful)
    (fetched : P → Option (Except HubError String)) {order : List P}
    (admits : ∀ party ∈ order, ∃ repository, (calls party).Admits start repository)
    (ready : ∀ party ∈ callsFor calls start id order,
      Reconcile.Acts (calls party).action (ReconcileCall.fetchedOr (fetched party)) →
        (start.profile id).Legible)
    {store : Store} {profile : Profile} (descends : start.Descends store)
    (same : view (store.profile id) = view profile) :
    view ((serially calls fetched order store).profile id) =
      view ((callsFor calls start id order).foldl
        (fun profile party => Change.result ((calls party).changes start (fetched party)) profile)
        profile) := by
  induction order generalizing store profile with
  | nil => exact same
  | cons party rest ih =>
    obtain ⟨repository, isAdmitted⟩ := admits party List.mem_cons_self
    obtain ⟨revises, onward⟩ := isAdmitted.alone_leads descends (fetched party)
    have admitsRest : ∀ other ∈ rest, ∃ repository, (calls other).Admits start repository :=
      fun other member => admits other (List.mem_cons_of_mem party member)
    have target := isAdmitted.target?_eq
    by_cases here : repository.id = id
    · have first : callsFor calls start id (party :: rest) =
          party :: callsFor calls start id rest := by
        simp [callsFor, target, here]
      rw [first] at ready ⊢
      refine ih admitsRest (fun other member => ready other (List.mem_cons_of_mem party member))
        (descends.trans onward) ?_
      rw [← here, isAdmitted.profile_alone descends lawful
        (here ▸ ready party List.mem_cons_self), here]
      exact isolated.own _ _ _ same
    · -- A call for another repository does not touch the view.
      have skipped : callsFor calls start id (party :: rest) = callsFor calls start id rest := by
        simp [callsFor, target, here]
      rw [skipped] at ready ⊢
      refine ih admitsRest ready (descends.trans onward) ?_
      exact (isolated.kept _ _ _ descends (Ne.symm here) revises).trans same

/-- Whether the calls run in the order of the releases or in the order of the acquisitions is the same
for a model that no call is about to write to. -/
theorem History.view_eq {course : Course} {members : P → CrewMember} {order left : List P}
    (history : History calls start course members order left) (lawful : start.Lawful)
    (unfailing : course.Unfailing) (nobody : ∀ party, (members party).inside ≠ some id)
    (isolated : Isolated start id view) :
    view (course.store.profile id) =
      view ((serially calls (fun party => (members party).fetched) order start).profile id) := by
  have sameCalls : callsFor calls start id order = callsFor calls start id left := by
    rcases history.pending id with ⟨party, isInside, -⟩ | ⟨-, account⟩
    · exact absurd isInside (nobody party)
    · exact account
  have ready : ∀ party ∈ callsFor calls start id left,
      Reconcile.Acts (calls party).action (ReconcileCall.fetchedOr (members party).fetched) →
        (start.profile id).Legible := by
    intro party member acts
    obtain ⟨isLeft, target⟩ := List.mem_filter.mp member
    obtain ⟨repository, admits⟩ := history.admits party (Or.inl isLeft)
    have here : some repository.id = some id :=
      admits.target?_eq.symm.trans (of_decide_eq_true target)
    obtain rfl := Option.some.inj here
    exact history.ready lawful unfailing party isLeft repository admits acts
  rw [history.store,
    view_serially isolated lawful _ (fun party isLeft => history.admits party (Or.inl isLeft)) ready
      (.refl start) rfl,
    view_serially isolated lawful _ (fun party isIn => history.admits party (Or.inr isIn))
      (sameCalls ▸ ready) (.refl start) rfl, sameCalls]

/-- At every point of every course the calls that have acquired the lock of a repository and are yet
to release it are one at most, and a call that has returned neither has a lock nor waits for one.
Where no call is between the two, and no store call has failed, the repository has the associations
and tags it would have if the calls that acquired their locks had run alone, one after another, in
that order, each with the outcome of its own fetch.

The store has to obey the laws of its tables, and for the tags the links of the repository must not
run ahead of the tag numbers, as none do in a store that grew from the empty one. -/
theorem serializable [DecidableEq P] (calls : P → ReconcileCall) (start : Store)
    (moves : List (CrewMove P)) {crew : Crew P} (ran : run calls start moves = crew) :
    (∀ party id, (crew.members party).inside = some id →
      crew.locks.holder? id = some party) ∧
    (∀ party other id, (crew.members party).inside = some id →
      (crew.members other).inside = some id → party = other) ∧
    (∀ party outcome, (crew.members party).stage = .returned outcome →
      (crew.members party).inside = none ∧ crew.locks.holds party = false ∧
        crew.locks.awaits party = false) ∧
    (start.Lawful → crew.course.Unfailing →
      ∀ id, (∀ party, (crew.members party).inside ≠ some id) →
        let serial := serially calls (fun party => (crew.members party).fetched) crew.order start
        (crew.course.store.profile id).associations = (serial.profile id).associations ∧
          (start.IssuedTo id → crew.course.store.profile id = serial.profile id)) := by
  have orderly : Orderly calls start crew := ran ▸ orderly_run calls start moves
  refine ⟨?_, ?_, ?_, ?_⟩
  · intro party id isInside
    rw [orderly.sound.holder?_eq]
    exact (orderly.stands party).first_of_inside isInside
  · intro party other id isInside otherInside
    exact orderly.eq_of_inside isInside ((orderly.stands other).first_of_inside otherInside)
  · intro party outcome returned
    obtain ⟨free, absent⟩ := (orderly.stands party).outside_of (Or.inr ⟨outcome, returned⟩)
    exact ⟨free, LockTable.holds_eq_false absent, LockTable.awaits_eq_false absent⟩
  · intro lawful unfailing id nobody serial
    obtain ⟨left, history⟩ := orderly.history
    refine ⟨history.view_eq lawful unfailing nobody (isolated_associations start id), ?_⟩
    intro issued
    exact history.view_eq lawful unfailing nobody (isolated_profile lawful issued)

/-- The configuration of a model is pushed, and removed while it is still being fetched. -/
def bertCall (isRemoval : Bool) : ReconcileCall where
  config := {}
  identity := Reconcile.bertIdentity
  reference := "refs/heads/main"
  path := modelConfigFile
  action := if isRemoval then .removed else .modified

def bertMoves : List (CrewMove Bool) :=
  [.begin false, .begin true, .resume false, .resume true, .answer false (.ok bertConfig),
    .resume true]

def bertCrew : Crew Bool := run bertCall Store.bert bertMoves

theorem bert_serialized :
    bertCrew.order = [false, true] ∧
      bertCrew.course.store.profile 1 =
        (serially bertCall (fun party => (bertCrew.members party).fetched) bertCrew.order
          Store.bert).profile 1 := by
  have unfailing : bertCrew.course.Unfailing := by decide +kernel
  have nobody : ∀ party, (bertCrew.members party).inside ≠ some 1 := by decide +kernel
  have ran : run bertCall Store.bert bertMoves = bertCrew := rfl
  refine ⟨by decide +kernel, ?_⟩
  obtain ⟨-, -, -, serial⟩ := serializable bertCall Store.bert bertMoves ran
  exact (serial Store.bert_reachable.lawful unfailing 1 nobody).2 (Store.bert_reachable.issuedTo 1)

/-- A third repository is linked to the number that the first tag will get. -/
def linkedEarly : Store :=
  let registered := (Store.bert.upsertRepository .model "acme" "gpt" "main").upsertRepository
    .dataset "acme" "corpus" "main"
  let catalogued := registered.upsertFramework
    { id := 8, name := "TGI", tagName := "tgi", frameworkType := 1 }
  ((catalogued.addArchitecture 8 "GptModel").link 3 1).2

def pairCall (isSecond : Bool) : ReconcileCall :=
  if isSecond then
    { bertCall false with identity := { Reconcile.bertIdentity with name := "gpt" } }
  else bertCall false

/-- The call that is second to acquire its lock is first to have its file. -/
def crossingMoves : List (CrewMove Bool) :=
  [.begin false, .begin true, .resume false, .resume true,
    .answer true (.ok "\x7b\"architectures\": [\"GptModel\"]\x7d"), .answer false (.ok bertConfig)]

/-- The early link comes to mean the tag of whichever call is first to add one, and that is not told by
the order of the locks. -/
theorem linked_early_tells_turns :
    let crew := run pairCall linkedEarly crossingMoves
    let serial := serially pairCall (fun party => (crew.members party).fetched) crew.order linkedEarly
    linkedEarly.Lawful ∧ crew.course.Unfailing ∧
      (∀ party, (crew.members party).inside = none) ∧ crew.order = [false, true] ∧
      (crew.course.store.tagRowsOf 3 none).map TagRow.key = [.of .model .runtimeFramework "" "tgi"] ∧
      (serial.tagRowsOf 3 none).map TagRow.key = [.of .model .runtimeFramework "" "vllm"] ∧
      crew.course.store.profile 3 ≠ serial.profile 3 := by
  intro crew serial
  have lawful : linkedEarly.Lawful := by constructor <;> decide +kernel
  refine ⟨lawful, by decide +kernel, by decide +kernel, by decide +kernel,
    by decide +kernel, by decide +kernel, fun same => ?_⟩
  have bears : crew.course.store.Bears 3 (.of .model .runtimeFramework "" "tgi") := by
    unfold Store.Bears
    decide +kernel
  have lacks : ¬ serial.Bears 3 (.of .model .runtimeFramework "" "tgi") := by
    unfold Store.Bears
    decide +kernel
  exact lacks ((Set.ext_iff.mp (congrArg Profile.tags same) _).mp bears)

end Crew

end ModelHub
