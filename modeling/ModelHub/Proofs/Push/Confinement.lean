import ModelHub.Proofs.Engine.Precinct
import ModelHub.Proofs.Push.Effect
import ModelHub.Proofs.Push.Handlers
import ModelHub.Proofs.Push.Reachable
import ModelHub.Proofs.Reconcile.Belongings

/-! A push touches nothing but its own repository and the catalogue of tags, to which it only adds,
whatever fails on the way and whenever it is cancelled.

All handlers get the number of the repository from a look-up at the address of the push. Nothing that
a push does moves a repository, so every look-up gives the same number. -/

namespace ModelHub

namespace Precinct

open Work (keeps_ask keeps_bind keeps_fetch keeps_holding keeps_mk_bind keeps_of_leads keeps_pure
  leads_storeCall)

variable {precinct : Precinct}

/-- The repository at an address, if there is one, is the one that may be written to. -/
def Targets (precinct : Precinct) (repoType : RepoType) (owner name : String) : Prop :=
  ∀ place, precinct.store.place? repoType owner name = some place →
    place.id = precinct.repositoryId

variable {repoType : RepoType} {owner name : String}

theorem encloses_findRepository (targets : precinct.Targets repoType owner name) :
    precinct.Encloses (Tagging.findRepository repoType owner name)
      fun repository => repository.id = precinct.repositoryId := by
  refine keeps_of_leads fun store revises => Work.leads_bind.mpr ?_
  refine leads_storeCall ?_ fun _ => revises
  intro found after performed
  obtain ⟨answer, rfl⟩ := Prod.mk.inj performed
  cases found with
  | none => exact revises
  | some repository =>
    refine ⟨revises, targets repository.place ?_⟩
    rw [← Store.place?_congr revises.places]
    exact Store.findRepository_some answer

theorem encloses_link {repositoryId : Int} (here : repositoryId = precinct.repositoryId)
    (scope : TagScope) (category : TagCategory) (group tag : String) :
    precinct.Encloses (Tagging.link repositoryId scope category group tag) fun _ => True := by
  subst here
  exact encloses_of_abides (fun _ _ _ _ => Call.Belongs.revises)
    (Reconcile.belongs_of_tends (Reconcile.abides_link scope category group tag))

theorem encloses_unlink {repositoryId : Int} (here : repositoryId = precinct.repositoryId)
    (scope : TagScope) (category : TagCategory) (group tag : String) :
    precinct.Encloses (Tagging.unlink repositoryId scope category group tag) fun _ => True := by
  subst here
  exact encloses_of_abides (fun _ _ _ _ => Call.Belongs.revises)
    (Reconcile.belongs_of_tends (Reconcile.abides_unlink scope category group tag))

theorem leads_ensureDeclared (scope : TagScope) (declared : List DeclaredTag) {store : Store}
    (revises : precinct.store.Revises precinct.repositoryId store) :
    Work.Leads Store.anyAnswers (declared.mapM (Tagging.ensureDeclared scope)) store
      (fun tags after => precinct.store.Revises precinct.repositoryId after ∧
        (∀ tag ∈ tags, after.HasTag tag.id) ∧ store.tags <+: after.tags)
      fun _ after => precinct.store.Revises precinct.repositoryId after := by
  induction declared generalizing store with
  | nil => exact ⟨revises, fun _ member => absurd member List.not_mem_nil, List.prefix_rfl⟩
  | cons head rest ih =>
    rw [List.mapM_cons]
    refine Work.leads_bind.mpr (leads_storeCall ?_ fun _ => revises)
    intro tag ensured performed
    obtain ⟨answer, rfl⟩ := Prod.mk.inj performed
    obtain rfl := Except.ok.inj answer
    have step : store.Revises precinct.repositoryId _ :=
      Store.revises_ensureTag scope .declared head.group head.name
    have listed := (store.ensureTag_lists scope .declared head.group head.name).1
    refine Work.leads_bind.mpr ((ih (revises.trans step)).mono ?_ fun _ _ => id)
    intro tags after ended
    obtain ⟨revised, present, grown⟩ := ended
    refine ⟨revised, List.forall_mem_cons.mpr ⟨?_, present⟩, step.tags.trans grown⟩
    obtain ⟨row, member, same⟩ := listed.hasTag
    exact ⟨row, grown.mem member, same⟩

theorem encloses_applyDeclared {scope : TagScope} {content : String}
    (targets : precinct.Targets scope.repoType owner name) :
    precinct.Encloses (Tagging.applyDeclared scope owner name content) fun _ => True := by
  refine keeps_mk_bind fun declared _ => ?_
  refine keeps_bind (encloses_findRepository targets) fun repository here => ?_
  refine keeps_of_leads fun store revises => Work.leads_bind.mpr ?_
  refine (leads_ensureDeclared scope declared revises).mono ?_ fun _ _ => id
  intro tags middle held
  obtain ⟨revised, present, -⟩ := held
  refine Work.leads_bind.mpr (leads_storeCall ?_ fun _ => revised)
  intro _ after performed
  exact ⟨revises_askStore performed revised here present, trivial⟩

theorem encloses_clearDeclared {scope : TagScope}
    (targets : precinct.Targets scope.repoType owner name) :
    precinct.Encloses (Tagging.clearDeclared scope owner name) fun _ => True := by
  refine keeps_bind (encloses_findRepository targets) fun repository here => ?_
  exact encloses_askStore here fun _ => trivial

theorem encloses_switchLibrary {scope : TagScope} (oldFile newFile : String)
    (targets : precinct.Targets scope.repoType owner name) :
    precinct.Encloses (Tagging.switchLibrary scope owner name oldFile newFile) fun _ => True := by
  have linked : ∀ repository : Repository, repository.id = precinct.repositoryId → ∀ tag,
      precinct.Encloses (do
        let _ ← Tagging.link repository.id scope .library "" tag
        return ()) fun _ => True := by
    intro repository here tag
    exact keeps_bind (encloses_link here _ _ _ _) fun _ _ => keeps_pure trivial
  unfold Tagging.switchLibrary
  dsimp only
  split
  · exact keeps_pure trivial
  · refine keeps_bind (encloses_findRepository targets) fun repository here => ?_
    cases Tagging.tagOf scope oldFile with
    | none =>
      cases Tagging.tagOf scope newFile with
      | none => exact keeps_pure trivial
      | some new => exact linked repository here new
    | some old =>
      refine keeps_bind (encloses_unlink here _ _ _ _) fun _ _ => ?_
      cases Tagging.tagOf scope newFile with
      | none => exact keeps_pure trivial
      | some new => exact linked repository here new

theorem encloses_revise {config : SyncConfig} {repository : Repository} {reference : String}
    (action : FileAction) (here : repository.id = precinct.repositoryId) :
    precinct.Encloses (Reconcile.revise config repository reference action) fun _ => True := by
  have recompute : precinct.Encloses (Reconcile.recompute config repository reference)
      fun _ => True := by
    refine keeps_bind keeps_fetch fun content _ => ?_
    refine keeps_mk_bind fun architecture _ => ?_
    have settle : precinct.Encloses (Reconcile.settle repository architecture) fun _ => True := by
      refine encloses_of_abides (fun _ _ _ _ => Call.Belongs.revises) ?_
      exact here ▸ Reconcile.abides_settle repository architecture
    exact keeps_bind settle fun report _ => keeps_pure trivial
  cases action with
  | removed =>
    refine encloses_of_abides (fun _ _ _ _ => Call.Belongs.revises) ?_
    exact here ▸ Reconcile.abides_clear repository
  | added => exact recompute
  | modified => exact recompute

theorem encloses_reconcile {config : SyncConfig} {identity : RepoIdentity} {reference path : String}
    {action : FileAction} (targets : precinct.Targets .model identity.owner identity.name) :
    precinct.Encloses (Reconcile.reconcile config identity reference path action) fun _ => True := by
  unfold Reconcile.reconcile
  split
  · exact keeps_pure trivial
  · refine keeps_bind (encloses_findRepository targets) fun repository here => ?_
    dsimp only
    split
    · exact keeps_pure trivial
    · exact keeps_holding (encloses_revise action here)

variable {options : Push.Options} {event : PushEvent} {identity : RepoIdentity}
  {reference path : String} {action : FileAction}

def Pushes (precinct : Precinct) (identity : RepoIdentity) : Prop :=
  ∀ repoType, identity.repoType = some repoType →
    precinct.Targets repoType identity.owner identity.name

theorem pushes_of_target
    (targets : ∀ place, event.target? precinct.store = some place →
      place.id = precinct.repositoryId)
    (parsed : event.identity = .ok identity) : precinct.Pushes identity := by
  intro repoType known place found
  refine targets place ?_
  unfold PushEvent.target?
  rw [parsed]
  exact Option.bind_eq_some_iff.mpr ⟨repoType, known, found⟩

theorem encloses_applyReadme (pushes : precinct.Pushes identity) :
    precinct.Encloses (Push.applyReadme options identity reference action) fun _ => True := by
  unfold Push.applyReadme
  split
  · exact keeps_pure trivial
  · next scope isOf =>
    have targets := pushes scope.repoType (Scene.scope_eq_some isOf)
    split
    · exact keeps_bind (encloses_clearDeclared targets) fun _ _ => keeps_pure trivial
    · refine keeps_bind keeps_fetch fun content _ => ?_
      exact keeps_bind (encloses_applyDeclared targets) fun _ _ => keeps_pure trivial

theorem encloses_updateLibrary (pushes : precinct.Pushes identity)
    (known : identity.scope = TagScope.ofToken? identity.typeToken) :
    precinct.Encloses (Push.updateLibrary identity path action) fun _ => True := by
  have update : ∀ oldFile newFile, precinct.Encloses (Tagging.updateLibrary identity.typeToken
      identity.owner identity.name oldFile newFile) fun _ => True := by
    intro oldFile newFile
    unfold Tagging.updateLibrary
    split
    · exact keeps_pure trivial
    · next scope isOf =>
      exact encloses_switchLibrary oldFile newFile
        (pushes scope.repoType (Scene.scope_eq_some (known.trans isOf)))
  cases action with
  | modified => exact keeps_pure trivial
  | removed => exact update path ""
  | added => exact update "" path

theorem encloses_setUpdateTime
    (pushes : ∀ identity, event.identity = .ok identity → precinct.Pushes identity) :
    precinct.Encloses (Push.setUpdateTime event) fun _ => True := by
  refine keeps_mk_bind fun identity parsed => ?_
  split
  · exact keeps_pure trivial
  · next repoType known =>
    have found := encloses_findRepository (pushes identity parsed repoType known)
    refine keeps_bind found fun repository here => ?_
    refine keeps_bind (keeps_ask fun _ _ _ => id) fun now _ => ?_
    split
    · refine keeps_mk_bind fun instant _ => ?_
      refine keeps_bind (encloses_askStore here fun _ => trivial) fun _ _ => ?_
      exact keeps_bind (encloses_askStore here fun _ => trivial) fun _ _ => keeps_pure trivial
    · exact encloses_askStore here fun _ => trivial

theorem handlers (options : Push.Options) (parsed : event.identity = .ok identity)
    (pushes : precinct.Pushes identity) :
    Push.Handlers (precinct.store.Revises precinct.repositoryId) options event identity where
  config _ isModel _ := encloses_reconcile (pushes .model isModel)
  readme _ _ := encloses_applyReadme pushes
  library _ _ _ := encloses_updateLibrary pushes (RepoIdentity.scope_of_parse parsed)

theorem confines_handle (options : Push.Options)
    (targets : ∀ place, event.target? precinct.store = some place →
      place.id = precinct.repositoryId) :
    precinct.Confines (Push.handle options event) fun _ => True := by
  have pushes (identity : RepoIdentity) (parsed : event.identity = .ok identity) :
      precinct.Pushes identity :=
    pushes_of_target targets parsed
  exact Push.keeps_handle (encloses_setUpdateTime pushes) fun identity parsed =>
    handlers options parsed (pushes identity parsed)

end Precinct

theorem Store.mem_places_of_target {store : Store} {event : PushEvent} {place : RepositoryPlace}
    (target : event.target? store = some place) :
    place ∈ store.repositories.map RepositoryRow.place := by
  unfold PushEvent.target? at target
  split at target
  · cases target
  · obtain ⟨repoType, -, found⟩ := Option.bind_eq_some_iff.mp target
    obtain ⟨row, isFirst, rfl⟩ := Option.map_eq_some_iff.mp found
    exact List.mem_map_of_mem (List.mem_of_find?_eq_some isFirst)

namespace Push

variable {surroundings : Surroundings} {options : Options} {event : PushEvent} {store : Store}
  {result : PushResult} {dialogue : Dialogue}

/-- Only the repository that the push is for is revised. Without one, any number will do. -/
theorem handle_revises (options : Options) (event : PushEvent) (store : Store) (otherwise : Int) :
    Program.Leads Store.anyAnswers (handle options event) store fun _ after =>
      store.Revises ((event.target? store).elim otherwise RepositoryPlace.id) after := by
  let precinct : Precinct :=
    { store := store, repositoryId := (event.target? store).elim otherwise RepositoryPlace.id }
  have targets : ∀ place, event.target? precinct.store = some place →
      place.id = precinct.repositoryId := by
    intro place target
    have same : event.target? store = some place := target
    simp only [precinct, same, Option.elim_some]
  have confined : precinct.Confines (handle options event) fun _ => True :=
    Precinct.confines_handle options targets
  exact (confined store (.refl _ store)).mono fun _ _ => And.left

theorem revises_of_push (otherwise : Int)
    (ran : surroundings.run (handle options event) store = (result, dialogue)) :
    store.Revises ((event.target? store).elim otherwise RepositoryPlace.id) dialogue.store := by
  have ended := surroundings.run_of_leads (handle_revises options event store otherwise)
  rwa [ran] at ended

/-- Whatever fails and whenever it is cancelled, a push changes nothing of any repository but the one
it is for, found by type, owner and name. That one stays where it is. Nothing in the catalogue is
changed, and tags are only added. -/
theorem push_touches_its_repository_only (lawful : store.Lawful)
    (ran : surroundings.run (handle options event) store = (result, dialogue)) :
    (∀ repositoryId, (∀ place, event.target? store = some place → place.id ≠ repositoryId) →
      dialogue.store.estate repositoryId = store.estate repositoryId) ∧
    (∀ row ∈ store.repositories, event.target? store ≠ some row.place →
      dialogue.store.estate row.id = store.estate row.id) ∧
    dialogue.store.repositories.map RepositoryRow.place =
      store.repositories.map RepositoryRow.place ∧
    dialogue.store.mirrors.map MirrorRow.origin = store.mirrors.map MirrorRow.origin ∧
    store.tags <+: dialogue.store.tags ∧
    dialogue.store.frameworks = store.frameworks ∧
    dialogue.store.compatibilities = store.compatibilities ∧
    dialogue.store.resources = store.resources := by
  have elsewhere : ∀ repositoryId,
      (∀ place, event.target? store = some place → place.id ≠ repositoryId) →
        dialogue.store.estate repositoryId = store.estate repositoryId := by
    intro repositoryId others
    refine (revises_of_push (repositoryId + 1) ran).estate ?_
    cases target : event.target? store with
    | none => exact (Int.lt_succ repositoryId).ne
    | some place => exact (others place target).symm
  have revises := revises_of_push 0 ran
  refine ⟨elsewhere, ?_, revises.places, revises.origins, revises.tags, revises.frameworks,
    revises.compatibilities, revises.resources⟩
  intro row member other
  refine elsewhere row.id fun place target same => other ?_
  have place_eq := lawful.place_of_id (Store.mem_places_of_target target)
    (List.mem_map_of_mem member) same
  exact target.trans (congrArg some place_eq)

def twins : Store := Store.bert.upsertRepository .dataset "acme" "bert" "main"

def twinRow : RepositoryRow where
  id := 2
  repoType := .dataset
  owner := "acme"
  name := "bert"
  defaultBranch := "main"

def twinsPush : PushResult × Dialogue :=
  (Surroundings.calm bertFiles).run (handle .plain bertPush) twins

theorem twin_untouched : twins.Lawful ∧ twinRow ∈ twins.repositories ∧
    twinsPush.2.store.associations =
      [{ repositoryId := 1, frameworkId := 7, associationType := 1 }] ∧
    twinsPush.2.store.estate twinRow.id = twins.estate twinRow.id := by
  have reachable : twins.Reachable := .upsertRepository _ _ _ _ Store.bert_reachable
  have present : twinRow ∈ twins.repositories := by decide +kernel
  have other : bertPush.target? twins ≠ some twinRow.place := by decide +kernel
  obtain ⟨-, untouched, -⟩ :=
    push_touches_its_repository_only reachable.lawful (Prod.eta twinsPush).symm
  exact ⟨reachable.lawful, present, by decide +kernel, untouched twinRow present other⟩

end Push

end ModelHub
