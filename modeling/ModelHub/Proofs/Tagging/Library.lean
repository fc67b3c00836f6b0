import ModelHub.Proofs.Engine.Unfailing
import ModelHub.Proofs.Manifest.LibraryView
import ModelHub.Proofs.Push.Change
import ModelHub.Proofs.Store.Categories
import ModelHub.Push.Processing

namespace ModelHub

namespace Store

def libraryNames (store : Store) (repositoryId : Int) : Set String :=
  {name | ∃ key, store.Bears repositoryId key ∧ key.category = TagCategory.library.name ∧
    key.name = name}

def Shows (store : Store) (repositoryId : Int) (scope : TagScope) (names : Set String) : Prop :=
  ∀ key, key.category = TagCategory.library.name →
    (store.Bears repositoryId key ↔ ∃ name ∈ names, key = libraryKey scope name)

def libraryKeys (store : Store) (repositoryId : Int) : Set TagKey :=
  {key | store.Bears repositoryId key ∧ key.category = TagCategory.library.name}

variable {store after : Store} {repositoryId : Int} {scope : TagScope} {names : Set String}

theorem Shows.libraryNames (shows : store.Shows repositoryId scope names) :
    store.libraryNames repositoryId = names := by
  ext name
  constructor
  · rintro ⟨key, borne, isLibrary, rfl⟩
    obtain ⟨name, member, rfl⟩ := (shows key isLibrary).mp borne
    exact member
  · intro member
    exact ⟨libraryKey scope name, (shows _ rfl).mpr ⟨name, member, rfl⟩, rfl, rfl⟩

theorem shows_nothing (bare : store.libraryNames repositoryId = ∅) (scope : TagScope) :
    store.Shows repositoryId scope ∅ := by
  intro key isLibrary
  constructor
  · intro borne
    have shown : key.name ∈ store.libraryNames repositoryId := ⟨key, borne, isLibrary, rfl⟩
    rw [bare] at shown
    exact absurd shown (Set.notMem_empty _)
  · rintro ⟨name, member, -⟩
    exact absurd member (Set.notMem_empty _)

theorem shows_iff : store.Shows repositoryId scope names ↔
    store.libraryKeys repositoryId = libraryKey scope '' names := by
  have parts : ∀ key, key ∈ libraryKey scope '' names ↔ ∃ name ∈ names, key = libraryKey scope name :=
    fun key => exists_congr fun name => and_congr_right fun _ => eq_comm
  constructor
  · intro shows
    ext key
    rw [parts]
    constructor
    · rintro ⟨borne, isLibrary⟩
      exact (shows key isLibrary).mp borne
    · rintro ⟨name, member, rfl⟩
      exact ⟨(shows _ rfl).mpr ⟨name, member, rfl⟩, rfl⟩
  · intro same key isLibrary
    rw [← parts, ← same]
    exact ⟨fun borne => ⟨borne, isLibrary⟩, And.left⟩

theorem libraryKeys_of_tagged {tag : String} (changed : after.profile repositoryId =
      (store.profile repositoryId).tagged (libraryKey scope tag)) :
    after.libraryKeys repositoryId = insert (libraryKey scope tag) (store.libraryKeys repositoryId) := by
  ext key
  have borne : after.Bears repositoryId key ↔
      key = libraryKey scope tag ∨ store.Bears repositoryId key := by
    show key ∈ (after.profile repositoryId).tags ↔ _
    rw [changed]
    exact Iff.rfl
  constructor
  · rintro ⟨bears, isLibrary⟩
    exact (borne.mp bears).imp id fun before => ⟨before, isLibrary⟩
  · rintro (rfl | ⟨before, isLibrary⟩)
    · exact ⟨borne.mpr (Or.inl rfl), rfl⟩
    · exact ⟨borne.mpr (Or.inr before), isLibrary⟩

theorem libraryKeys_of_untagged {tag : String} (changed : after.profile repositoryId =
      (store.profile repositoryId).untagged (libraryKey scope tag)) :
    after.libraryKeys repositoryId = store.libraryKeys repositoryId \ {libraryKey scope tag} := by
  ext key
  have borne : after.Bears repositoryId key ↔
      store.Bears repositoryId key ∧ key ≠ libraryKey scope tag := by
    show key ∈ (after.profile repositoryId).tags ↔ _
    rw [changed]
    exact Iff.rfl
  exact (and_congr_left' borne).trans and_right_comm

theorem libraryKeys_of_linksOf (lawful : after.Lawful) (tags : store.tags <+: after.tags)
    (links : after.linksOf .library = store.linksOf .library) :
    after.libraryKeys repositoryId = store.libraryKeys repositoryId := by
  ext key
  refine and_congr_left fun isLibrary => ?_
  constructor
  · rintro ⟨row, member, rfl, linked⟩
    have inAfter : ({ repositoryId, tagId := row.id } : TagLink) ∈ after.linksOf .library :=
      List.mem_filter.mpr ⟨linked, hasCategory_eq_true.mpr ⟨row, member, rfl, isLibrary⟩⟩
    rw [links] at inAfter
    obtain ⟨linkedBefore, isOf⟩ := List.mem_filter.mp inAfter
    obtain ⟨old, oldMember, sameId, -⟩ := hasCategory_eq_true.mp isOf
    obtain rfl := lawful.tag_of_id (tags.mem oldMember) member sameId
    exact ⟨old, oldMember, rfl, linkedBefore⟩
  · rintro ⟨row, member, rfl, linked⟩
    have inBefore : ({ repositoryId, tagId := row.id } : TagLink) ∈ store.linksOf .library :=
      List.mem_filter.mpr ⟨linked, hasCategory_eq_true.mpr ⟨row, member, rfl, isLibrary⟩⟩
    rw [← links] at inBefore
    exact ⟨row, tags.mem member, rfl, (List.mem_filter.mp inBefore).1⟩

end Store

namespace Tagging

open LibraryTag (view)

variable {store : Store} {repositoryId : Int} {scope : TagScope} {names : Set String}
  {place : RepositoryPlace} {owner name : String}

theorem sure_leads_findPlace (found : store.place? scope.repoType owner name = some place) :
    Work.Leads Store.sureAnswers (findRepository scope.repoType owner name) store
      (fun repository after => after = store ∧ repository.id = place.id) fun _ _ => False := by
  refine sure_leads_findRepository (fun repository answered => ⟨rfl, ?_⟩) fun answered => ?_
  · have isThere := Store.findRepository_some answered
    rw [found] at isThere
    exact congrArg RepositoryPlace.id (Option.some.inj isThere).symm
  · have absent := Store.findRepository_none answered
    rw [found] at absent
    cases absent

/-- A new tag may take the number of an old link, but then it is linked anyway. -/
theorem sure_leads_link (lawful : store.Lawful) (tag : String) :
    Work.Leads Store.sureAnswers (link repositoryId scope .library "" tag) store
      (fun _ after => after.libraryKeys repositoryId =
        insert (libraryKey scope tag) (store.libraryKeys repositoryId)) fun _ _ => False := by
  have ensured := store.profile_ensureTag repositoryId scope .library "" tag
  have listed := (store.ensureTag_lists scope .library "" tag).1
  have isKey := (store.ensureTag_lists scope .library "" tag).2
  have linked := Store.profile_link (lawful.ensureTag scope .library "" tag) listed repositoryId
  refine Work.leads_bind.mpr (Work.sure_leads_storeCall ?_)
  intro found middle performed
  obtain ⟨answer, rfl⟩ := Prod.mk.inj performed
  obtain rfl := Except.ok.inj answer
  refine Work.sure_leads_storeCall ?_
  intro isNew after performedLink
  obtain ⟨-, rfl⟩ := Prod.mk.inj performedLink
  refine Store.libraryKeys_of_tagged (linked.trans ?_)
  rw [isKey]
  rcases ensured with same | new
  · rw [same]
    rfl
  · rw [new]
    exact Profile.tagged_tagged _ _

theorem sure_leads_unlink (lawful : store.Lawful) (tag : String) :
    Work.Leads Store.sureAnswers (unlink repositoryId scope .library "" tag) store
      (fun _ after => after.libraryKeys repositoryId =
        store.libraryKeys repositoryId \ {libraryKey scope tag}) fun _ _ => False := by
  refine Work.leads_bind.mpr (Work.sure_leads_storeCall ?_)
  intro found middle performed
  obtain ⟨answer, rfl⟩ := Prod.mk.inj performed
  cases found with
  | none =>
    have absent := Store.findTag?_eq_none (Except.ok.inj answer)
    exact Store.libraryKeys_of_untagged (Store.untagged_of_absent absent).symm
  | some found =>
    obtain ⟨listed, isKey⟩ := Store.findTag?_eq_some (Except.ok.inj answer)
    refine Work.sure_leads_storeCall ?_
    intro present after performedUnlink
    obtain ⟨-, rfl⟩ := Prod.mk.inj performedUnlink
    refine Store.libraryKeys_of_untagged ((Store.profile_unlink lawful listed repositoryId).trans ?_)
    rw [isKey]
    rfl

def toggled (scope : TagScope) (names : Set String) : FileAction × String → Set String
  | (.modified, _) => names
  | (.removed, path) => names \ view scope {path}
  | (.added, path) => names ∪ view scope {path}

def toggledKeys (scope : TagScope) (keys : Set TagKey) : FileAction × String → Set TagKey
  | (.modified, _) => keys
  | (.removed, path) => keys \ libraryKey scope '' view scope {path}
  | (.added, path) => keys ∪ libraryKey scope '' view scope {path}

theorem libraryKey_injective (scope : TagScope) : (libraryKey scope).Injective :=
  fun _ _ same => congrArg TagKey.name same

theorem toggledKeys_image (entry : FileAction × String) :
    toggledKeys scope (libraryKey scope '' names) entry = libraryKey scope '' toggled scope names entry := by
  obtain ⟨action, path⟩ := entry
  cases action with
  | modified => rfl
  | removed => exact (Set.image_sdiff (libraryKey_injective scope) _ _).symm
  | added => exact (Set.image_union _ _ _).symm

theorem foldl_toggledKeys_image (files : List (FileAction × String)) :
    files.foldl (toggledKeys scope) (libraryKey scope '' names) =
      libraryKey scope '' files.foldl (toggled scope) names := by
  induction files generalizing names with
  | nil => rfl
  | cons entry rest ih => rw [List.foldl_cons, List.foldl_cons, toggledKeys_image, ih]

theorem view_of_none {path : String} (untagged : LibraryTag.ofFile? scope path = none) :
    view scope {path} = ∅ := by
  ext tag
  simp [view, untagged]

theorem view_of_some {path tag : String} (tagged : LibraryTag.ofFile? scope path = some tag) :
    view scope {path} = {tag} := by
  ext other
  simp [view, tagged, eq_comm]

theorem tagOf_eq (scope : TagScope) (path : String) :
    tagOf scope path = LibraryTag.ofFile? scope path := by
  unfold tagOf
  split
  · next isEmpty =>
    subst isEmpty
    cases scope <;> rfl
  · rfl

theorem sure_leads_removed (lawful : store.Lawful)
    (found : store.place? scope.repoType owner name = some place) (path : String) :
    Work.Leads Store.sureAnswers (switchLibrary scope owner name path "") store
      (fun _ after => after.libraryKeys place.id =
        toggledKeys scope (store.libraryKeys place.id) (.removed, path)) fun _ _ => False := by
  have noFile : tagOf scope "" = none := rfl
  unfold switchLibrary toggledKeys
  dsimp only
  rw [noFile, tagOf_eq]
  cases tagged : LibraryTag.ofFile? scope path with
  | none =>
    rw [if_pos rfl, view_of_none tagged, Set.image_empty, Set.sdiff_empty]
    exact rfl
  | some tag =>
    rw [if_neg nofun, view_of_some tagged, Set.image_singleton]
    refine Work.leads_bind.mpr ((sure_leads_findPlace found).mono ?_ fun _ _ => id)
    rintro repository _ ⟨rfl, isHere⟩
    rw [isHere]
    refine Work.leads_bind.mpr ((sure_leads_unlink lawful tag).mono ?_ fun _ _ => id)
    exact fun _ _ unlinked => unlinked

theorem sure_leads_added (lawful : store.Lawful)
    (found : store.place? scope.repoType owner name = some place) (path : String) :
    Work.Leads Store.sureAnswers (switchLibrary scope owner name "" path) store
      (fun _ after => after.libraryKeys place.id =
        toggledKeys scope (store.libraryKeys place.id) (.added, path)) fun _ _ => False := by
  have noFile : tagOf scope "" = none := rfl
  unfold switchLibrary toggledKeys
  dsimp only
  rw [noFile, tagOf_eq]
  cases tagged : LibraryTag.ofFile? scope path with
  | none =>
    rw [if_pos rfl, view_of_none tagged, Set.image_empty, Set.union_empty]
    exact rfl
  | some tag =>
    rw [if_neg nofun, view_of_some tagged, Set.image_singleton, Set.union_singleton]
    refine Work.leads_bind.mpr ((sure_leads_findPlace found).mono ?_ fun _ _ => id)
    rintro repository _ ⟨rfl, isHere⟩
    rw [isHere]
    refine Work.leads_bind.mpr ((sure_leads_link lawful tag).mono ?_ fun _ _ => id)
    exact fun _ _ linked => linked

theorem sure_leads_updateLibrary {identity : RepoIdentity} (lawful : store.Lawful)
    (known : TagScope.ofToken? identity.typeToken = some scope)
    (found : store.place? scope.repoType identity.owner identity.name = some place)
    (action : FileAction) (path : String) :
    Work.Leads Store.sureAnswers (Push.updateLibrary identity path action) store
      (fun _ after => after.libraryKeys place.id =
        toggledKeys scope (store.libraryKeys place.id) (action, path)) fun _ _ => False := by
  cases action with
  | modified => exact rfl
  | removed =>
    unfold Push.updateLibrary updateLibrary
    rw [known]
    exact sure_leads_removed lawful found path
  | added =>
    unfold Push.updateLibrary updateLibrary
    rw [known]
    exact sure_leads_added lawful found path

end Tagging

end ModelHub
