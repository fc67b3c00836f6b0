import ModelHub.Proofs.Reconcile.Belongings
import ModelHub.Push.Processing

namespace ModelHub

def StoreCall.SparesRecords : StoreCall → Prop
  | setUpdatedAt .. | touchMirror .. => False
  | _ => True

def Call.IsOfHandler : Call → Store → Prop
  | .store request, _ => request.SparesRecords
  | .fetch .., _ | .isCancelled, _ => True
  | .acquire _, _ | .release _, _ | .now, _ | .submit .., _ => False

def Call.IsErrand : Call → Store → Prop
  | .store request, _ => request.SparesRecords
  | _, _ => False

theorem Call.IsErrand.isOfHandler {call : Call} {store : Store} (errand : call.IsErrand store) :
    call.IsOfHandler store := by
  cases call with
  | store request => exact errand
  | _ => exact errand.elim

theorem Call.Tends.isErrand {repositoryId : Int} {call : Call} {store : Store}
    (tends : call.Tends repositoryId store) : call.IsErrand store := by
  cases call with
  | store request =>
    cases request with
    | setUpdatedAt | touchMirror => exact tends.elim
    | _ => trivial
  | _ => exact tends.elim

theorem Call.Belongs.isOfHandler {repositoryId : Int} {call : Call} {store : Store}
    (belongs : call.Belongs repositoryId store) : call.IsOfHandler store := by
  cases call with
  | store request =>
    have tends : (Call.store request).Tends repositoryId store := belongs
    exact tends.isErrand
  | isCancelled => trivial
  | _ => exact belongs.elim

open Work (Abides abides_askStore abides_bind abides_checkpoint abides_mapM abides_pure)

namespace Tagging

variable {α : Type}

theorem errand_of_tends {repositoryId : Int} {work : Work α}
    (tends : Abides (Call.Tends repositoryId) work) : Abides Call.IsErrand work :=
  tends.mono fun _ _ tending => tending.isErrand

theorem errand_mk (outcome : Except HubError α) :
    Abides Call.IsErrand (ExceptT.mk (pure outcome)) := fun _ => trivial

theorem errand_findRepository (repoType : RepoType) (owner name : String) :
    Abides Call.IsErrand (findRepository repoType owner name) := by
  refine abides_bind (abides_askStore fun _ => trivial) fun found => ?_
  cases found with
  | none => exact Work.abides_throw _
  | some repository => exact abides_pure repository

theorem errand_applyDeclared (scope : TagScope) (owner name content : String) :
    Abides Call.IsErrand (applyDeclared scope owner name content) := by
  have ensured : ∀ tag, Abides Call.IsErrand (ensureDeclared scope tag) :=
    fun tag => abides_askStore fun _ => trivial
  refine abides_bind (errand_mk _) fun declared => ?_
  refine abides_bind (errand_findRepository _ _ _) fun repository => ?_
  refine abides_bind (abides_mapM ensured declared) fun tags => ?_
  exact abides_bind (abides_askStore fun _ => trivial) fun _ => abides_pure tags

theorem errand_clearDeclared (scope : TagScope) (owner name : String) :
    Abides Call.IsErrand (clearDeclared scope owner name) :=
  abides_bind (errand_findRepository _ _ _) fun _ => abides_askStore fun _ => trivial

theorem errand_switchLibrary (scope : TagScope) (owner name oldFile newFile : String) :
    Abides Call.IsErrand (switchLibrary scope owner name oldFile newFile) := by
  have linked : ∀ (repository : Repository) tag, Abides Call.IsErrand (do
      let _ ← link repository.id scope .library "" tag
      return ()) := by
    intro repository tag
    have links := @Reconcile.abides_link repository.id scope .library "" tag
    exact abides_bind (errand_of_tends links) fun _ => abides_pure ()
  unfold switchLibrary
  dsimp only
  split
  · exact abides_pure ()
  · refine abides_bind (errand_findRepository _ _ _) fun repository => ?_
    cases tagOf scope oldFile with
    | none =>
      cases tagOf scope newFile with
      | none => exact abides_pure ()
      | some new => exact linked repository new
    | some old =>
      have unlinks := @Reconcile.abides_unlink repository.id scope .library "" old
      refine abides_bind (errand_of_tends unlinks) fun _ => ?_
      cases tagOf scope newFile with
      | none => exact abides_pure ()
      | some new => exact linked repository new

theorem errand_updateLibrary (identity : RepoIdentity) (path : String) (action : FileAction) :
    Abides Call.IsErrand (Push.updateLibrary identity path action) := by
  have update : ∀ oldFile newFile, Abides Call.IsErrand
      (updateLibrary identity.typeToken identity.owner identity.name oldFile newFile) := by
    intro oldFile newFile
    unfold updateLibrary
    split
    · exact abides_pure ()
    · exact errand_switchLibrary _ _ _ _ _
  cases action with
  | modified => exact abides_pure ()
  | removed => exact update path ""
  | added => exact update "" path

end Tagging

namespace Push

variable {α : Type}

theorem asks_of_belongs {repositoryId : Int} {work : Work α}
    (abides : Abides (Call.Belongs repositoryId) work) : Abides Call.IsOfHandler work :=
  abides.mono fun _ _ belongs => belongs.isOfHandler

theorem asks_of_errand {work : Work α} (errand : Abides Call.IsErrand work) :
    Abides Call.IsOfHandler work :=
  errand.mono fun _ _ isErrand => isErrand.isOfHandler

theorem asks_fetch (request : FileRequest) (limit : Duration) :
    Abides Call.IsOfHandler (Work.fetch request limit) := by
  refine abides_bind (abides_checkpoint fun _ => trivial) fun _ store => ?_
  exact ⟨trivial, fun _ _ _ => trivial⟩

theorem asks_findRepository (repoType : RepoType) (owner name : String) :
    Abides Call.IsOfHandler (Tagging.findRepository repoType owner name) :=
  asks_of_errand (Tagging.errand_findRepository repoType owner name)

theorem asks_revise (config : SyncConfig) (repository : Repository) (reference : String)
    (action : FileAction) :
    Abides Call.IsOfHandler (Reconcile.revise config repository reference action) := by
  have recompute : Abides Call.IsOfHandler (Reconcile.recompute config repository reference) := by
    refine abides_bind (asks_fetch _ _) fun content => ?_
    refine abides_bind (asks_of_errand (Tagging.errand_mk _)) fun architecture => ?_
    have settles := Reconcile.abides_settle repository architecture
    exact abides_bind (asks_of_belongs settles) fun report => abides_pure _
  cases action with
  | removed => exact asks_of_belongs (Reconcile.abides_clear repository)
  | added => exact recompute
  | modified => exact recompute

theorem asks_applyReadme (options : Options) (identity : RepoIdentity) (reference : String)
    (action : FileAction) :
    Abides Call.IsOfHandler (applyReadme options identity reference action) := by
  unfold applyReadme
  split
  · exact abides_pure ()
  · next scope _ =>
    split
    · have cleared := Tagging.errand_clearDeclared scope identity.owner identity.name
      exact abides_bind (asks_of_errand cleared) fun _ => abides_pure ()
    · refine abides_bind (asks_fetch _ _) fun content => ?_
      have applied := Tagging.errand_applyDeclared scope identity.owner identity.name content
      exact abides_bind (asks_of_errand applied) fun _ => abides_pure ()

theorem asks_updateLibrary (identity : RepoIdentity) (path : String) (action : FileAction) :
    Abides Call.IsOfHandler (updateLibrary identity path action) :=
  asks_of_errand (Tagging.errand_updateLibrary identity path action)

end Push

end ModelHub
