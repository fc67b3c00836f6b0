import ModelHub.Proofs.Engine.Keeps
import ModelHub.Proofs.Push.Calls
import ModelHub.Proofs.Push.Handlers

namespace ModelHub

structure Store.SameRecords (start store : Store) : Prop where
  repositories : store.repositories = start.repositories
  mirrors : store.mirrors = start.mirrors

namespace Store.SameRecords

variable {start store : Store}

theorem refl (start : Store) : start.SameRecords start := ⟨rfl, rfl⟩

theorem ensureTag (same : start.SameRecords store) (scope : TagScope) (category : TagCategory)
    (group name : String) : start.SameRecords (store.ensureTag scope category group name).2 := by
  unfold Store.ensureTag
  dsimp only
  split <;> exact ⟨same.repositories, same.mirrors⟩

theorem linkAll (same : start.SameRecords store) (repositoryId : Int) (tags : List Tag) :
    start.SameRecords (store.linkAll repositoryId tags) := by
  induction tags generalizing store with
  | nil => exact same
  | cons tag rest ih => exact @ih (store.link repositoryId tag.id).2 ⟨same.repositories, same.mirrors⟩

theorem perform (same : start.SameRecords store) {request : StoreCall}
    (spares : request.SparesRecords) : start.SameRecords (store.perform request).2 := by
  cases request with
  | setUpdatedAt | touchMirror => exact spares.elim
  | ensureTag scope category group name => exact same.ensureTag scope category group name
  | replaceTags repositoryId category tags =>
    simp only [Store.perform, Store.replaceTags]
    split
    · next replaced =>
      split at replaced
      · cases replaced
      · obtain rfl := Except.ok.inj replaced
        have cleared : start.SameRecords (store.unlinkCategory repositoryId category).2 :=
          ⟨same.repositories, same.mirrors⟩
        exact cleared.linkAll repositoryId tags
    · exact same
  | _ => exact ⟨same.repositories, same.mirrors⟩

end Store.SameRecords

namespace Push

open Work (keeps_bind keeps_holding keeps_pure)

variable {start : Store} {α : Type}

theorem keeps_records {work : Work α} (asks : Work.Abides Call.IsOfHandler work) :
    Work.Keeps start.SameRecords work fun _ => True := by
  refine Work.keeps_of_abides ?_ asks
  intro call store reply after ofHandler same answered
  cases call with
  | store request =>
    rcases answered with performed | ⟨-, rfl⟩
    · have step := same.perform ofHandler
      rwa [performed] at step
    · exact same
  | _ =>
    obtain rfl := answered
    exact same

theorem keeps_records_reconcile (config : SyncConfig) (identity : RepoIdentity)
    (reference path : String) (action : FileAction) :
    Work.Keeps start.SameRecords (Reconcile.reconcile config identity reference path action)
      fun _ => True := by
  unfold Reconcile.reconcile
  split
  · exact keeps_pure trivial
  · have found := asks_findRepository .model identity.owner identity.name
    refine keeps_bind (keeps_records found) fun repository _ => ?_
    dsimp only
    split
    · exact keeps_pure trivial
    · exact keeps_holding (keeps_records (asks_revise config repository reference action))

theorem handlers_records (start : Store) (options : Options) (event : PushEvent)
    (identity : RepoIdentity) : Handlers start.SameRecords options event identity where
  config _ _ _ := keeps_records_reconcile _ _ _ _ _
  readme _ _ := keeps_records (asks_applyReadme _ _ _ _)
  library _ _ _ := keeps_records (asks_updateLibrary _ _ _)

end Push

end ModelHub
