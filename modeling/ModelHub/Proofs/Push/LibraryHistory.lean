import ModelHub.Proofs.Push.Dispatch
import ModelHub.Proofs.Push.Gates
import ModelHub.Proofs.Tagging.Library

/-! The library tags of a repository along a history of pushes.

All that a push does besides keeps to other categories, so its library tags are what its files make
of those before, one after the other. -/

namespace ModelHub

open LibraryTag (view)
open Tagging (toggled toggledKeys)

/-- The repository stands at its place and shows the library tags of some names in its scope. -/
structure Store.Displays (store : Store) (place : RepositoryPlace) (scope : TagScope)
    (names : Set String) : Prop where
  lawful : store.Lawful
  found : store.place? place.repoType place.owner place.name = some place
  shows : store.Shows place.id scope names

structure Store.Carries (store : Store) (place : RepositoryPlace) (keys : Set TagKey) : Prop where
  lawful : store.Lawful
  found : store.place? place.repoType place.owner place.name = some place
  libraryKeys : store.libraryKeys place.id = keys

theorem Store.displays_iff {store : Store} {place : RepositoryPlace} {scope : TagScope}
    {names : Set String} :
    store.Displays place scope names ↔ store.Carries place (libraryKey scope '' names) :=
  ⟨fun ⟨lawful, found, shows⟩ => ⟨lawful, found, Store.shows_iff.mp shows⟩,
    fun ⟨lawful, found, same⟩ => ⟨lawful, found, Store.shows_iff.mpr same⟩⟩

namespace Tagging

variable {scope : TagScope} {names : Set String}

theorem view_cons (path : String) (rest : List String) :
    view scope {other | other ∈ path :: rest} =
      view scope {path} ∪ view scope {other | other ∈ rest} := by
  rw [← LibraryTag.view_union]
  congr 1
  ext other
  exact List.mem_cons

theorem view_nil : view scope {other | other ∈ ([] : List String)} = ∅ := by
  ext tag
  simp [view]

theorem foldl_toggled_modified (paths : List String) :
    (paths.map (FileAction.modified, ·)).foldl (toggled scope) names = names := by
  induction paths with
  | nil => rfl
  | cons path rest ih => exact ih

theorem foldl_toggled_removed (paths : List String) :
    (paths.map (FileAction.removed, ·)).foldl (toggled scope) names =
      names \ view scope {path | path ∈ paths} := by
  induction paths generalizing names with
  | nil => rw [view_nil, Set.sdiff_empty]; rfl
  | cons path rest ih =>
    rw [List.map_cons, List.foldl_cons, ih, view_cons]
    exact Set.sdiff_sdiff

theorem foldl_toggled_added (paths : List String) :
    (paths.map (FileAction.added, ·)).foldl (toggled scope) names =
      names ∪ view scope {path | path ∈ paths} := by
  induction paths generalizing names with
  | nil => rw [view_nil, Set.union_empty]; rfl
  | cons path rest ih =>
    rw [List.map_cons, List.foldl_cons, ih, view_cons]
    exact Set.union_assoc _ _ _

end Tagging

theorem Push.untilReadme_eq_self {files : List String} (absent : readmeFile ∉ files) :
    Push.untilReadme files = files := by
  induction files with
  | nil => rfl
  | cons path rest ih =>
    obtain ⟨differs, restAbsent⟩ := not_or.mp (List.mem_cons.not.mp absent)
    rw [Push.untilReadme, if_neg (Ne.symm differs), ih restAbsent]

def Commit.WithoutReadme (commit : Commit) : Prop := ∀ action, readmeFile ∉ commit.files action

theorem Commit.WithoutReadme.handled {commit : Commit} (without : commit.WithoutReadme) :
    commit.handled = commit.modified.map (FileAction.modified, ·) ++
      (commit.removed.map (FileAction.removed, ·) ++ commit.added.map (FileAction.added, ·)) := by
  have all : ∀ action, Push.untilReadme (commit.files action) = commit.files action :=
    fun action => Push.untilReadme_eq_self (without action)
  simp only [Commit.handled, FileAction.order, all, List.flatMap_cons, List.flatMap_nil,
    List.append_nil]
  rfl

theorem Commit.WithoutReadme.foldl_toggled {commit : Commit} (without : commit.WithoutReadme)
    (scope : TagScope) (names : Set String) :
    commit.handled.foldl (toggled scope) names = commit.retag scope names := by
  rw [without.handled, List.foldl_append, List.foldl_append, Tagging.foldl_toggled_modified,
    Tagging.foldl_toggled_removed, Tagging.foldl_toggled_added]
  rfl

theorem foldl_toggled_handled {commits : List Commit}
    (without : ∀ commit ∈ commits, commit.WithoutReadme) (scope : TagScope) (names : Set String) :
    (commits.flatMap Commit.handled).foldl (toggled scope) names =
      commits.foldl (fun tags commit => commit.retag scope tags) names := by
  induction commits generalizing names with
  | nil => rfl
  | cons commit rest ih =>
    obtain ⟨first, others⟩ := List.forall_mem_cons.mp without
    rw [List.flatMap_cons, List.foldl_append, first.foldl_toggled, List.foldl_cons]
    exact ih others _

theorem TagScope.repoType_of_ofRepoType? {repoType : RepoType} {scope : TagScope}
    (bears : TagScope.ofRepoType? repoType = some scope) : repoType = scope.repoType := by
  cases repoType <;> cases bears <;> rfl

namespace Push

variable {surroundings : Surroundings} {options : Options} {identity : RepoIdentity}
  {event : PushEvent} {reference : String} {place : RepositoryPlace} {scope : TagScope}
  {names : Set String} {keys : Set TagKey} {before : Dialogue}

/-- All that does not concern library tags. -/
def besidesLibrary (start : Store) : Regime := { start := start, permits := (· ≠ .library) }

/-- What keeps to other categories leaves the library tags as they are. -/
theorem keeps_carries {α : Type} {program : Program α}
    (keeps : ∀ start, Program.Keeps ((besidesLibrary start).Holds ∅) program fun _ => True) :
    Program.Keeps (fun store => store.Carries place keys) program fun _ => True := by
  intro store carries
  have holds : (besidesLibrary store).Holds ∅ store := Regime.holds_start carries.lawful
  refine (keeps store store holds).mono ?_
  rintro value after ⟨ended, -⟩
  have links := ended.links .library fun differs => differs rfl
  refine ⟨⟨ended.lawful, ?_, ?_⟩, trivial⟩
  · rw [Store.place?_congr ended.places]
    exact carries.found
  · rw [Store.libraryKeys_of_linksOf ended.lawful ended.tags links]
    exact carries.libraryKeys

theorem keeps_configErrors {action : FileAction} {path : String} :
    Program.Keeps (fun store => store.Carries place keys)
      (configErrors options identity reference path action) fun _ => True := by
  refine keeps_carries fun start => ?_
  unfold configErrors
  split
  · refine Program.keeps_bind (Work.keeps_attempt (Regime.keeps_reconcile ?_)) fun _ _ =>
      Program.keeps_done trivial
    exact fun _ _ _ => ⟨nofun, nofun⟩
  · exact Program.keeps_done trivial

/-- The identity names the repository at a place, which bears tags of that scope. -/
structure Hits (identity : RepoIdentity) (place : RepositoryPlace) (scope : TagScope) : Prop where
  known : TagScope.ofToken? identity.typeToken = some scope
  repoType : place.repoType = scope.repoType
  owner : place.owner = identity.owner
  name : place.name = identity.name

theorem Hits.found (hits : Hits identity place scope) {store : Store}
    (carries : store.Carries place keys) :
    store.place? scope.repoType identity.owner identity.name = some place := by
  rw [← hits.repoType, ← hits.owner, ← hits.name]
  exact carries.found

theorem carries_updateLibrary (hits : Hits identity place scope) {action : FileAction}
    {path : String} (carries : before.store.Carries place keys)
    (unfailing : (surroundings.converse (errorsOf (updateLibrary identity path action))
      before).2.Unfailing) :
    (surroundings.converse (errorsOf (updateLibrary identity path action))
      before).2.store.Carries place (toggledKeys scope keys (action, path)) := by
  have found := hits.found carries
  have updated : Work.Keeps ((Regime.free before.store).Holds ∅)
      (updateLibrary identity path action) fun _ => True :=
    Regime.keeps_updateLibrary fun _ _ _ _ => trivial
  obtain ⟨holds, -⟩ := surroundings.converse_of_leads
    (keeps_errorsOf updated before.store (Regime.holds_start carries.lawful))
  have shown : Program.Leads Store.sureAnswers (errorsOf (updateLibrary identity path action))
      before.store fun _ after => after.libraryKeys place.id =
        toggledKeys scope (before.store.libraryKeys place.id) (action, path) := by
    refine Program.leads_bind.mpr (Program.Leads.mono (Tagging.sure_leads_updateLibrary
      carries.lawful hits.known found action path) ?_)
    intro outcome after ended
    cases outcome with
    | ok value => exact ended
    | error e => exact ended.elim
  refine ⟨holds.lawful, ?_, ?_⟩
  · rw [Store.place?_congr holds.places]
    exact carries.found
  · rw [Surroundings.converse_of_sure_leads shown unfailing, carries.libraryKeys]

theorem ofFile?_readme (scope : TagScope) : LibraryTag.ofFile? scope readmeFile = none := by
  cases scope <;> decide +kernel

theorem toggledKeys_readme (scope : TagScope) (keys : Set TagKey) (action : FileAction) :
    toggledKeys scope keys (action, readmeFile) = keys := by
  have noTag : view scope {readmeFile} = ∅ :=
    Tagging.view_of_none (ofFile?_readme scope)
  cases action with
  | modified => rfl
  | removed => rw [toggledKeys, noTag, Set.image_empty, Set.sdiff_empty]
  | added => rw [toggledKeys, noTag, Set.image_empty, Set.union_empty]

theorem carries_tagging (hits : Hits identity place scope) {action : FileAction} {path : String}
    (carries : before.store.Carries place keys)
    (unfailing : (surroundings.converse (errorsOf (tagging options identity reference path action))
      before).2.Unfailing) :
    (surroundings.converse (errorsOf (tagging options identity reference path action))
      before).2.store.Carries place (toggledKeys scope keys (action, path)) := by
  unfold tagging at unfailing ⊢
  split at unfailing
  · next isReadme =>
    subst isReadme
    rw [if_pos rfl, toggledKeys_readme]
    have applied : Program.Keeps (fun store => store.Carries place keys)
        (errorsOf (applyReadme options identity reference action)) fun _ => True :=
      keeps_carries fun _ => keeps_errorsOf (Regime.keeps_applyReadme nofun)
    exact (surroundings.converse_of_leads (applied before.store carries)).1
  · next other =>
    rw [if_neg other]
    exact carries_updateLibrary hits carries unfailing

theorem carries_fileErrors (hits : Hits identity place scope) {entry : FileAction × String}
    (carries : before.store.Carries place keys)
    (unfailing : (surroundings.converse (fileErrors options identity reference entry)
      before).2.Unfailing) :
    (surroundings.converse (fileErrors options identity reference entry)
      before).2.store.Carries place (toggledKeys scope keys entry) := by
  obtain ⟨action, path⟩ := entry
  unfold fileErrors at unfailing ⊢
  simp only [Surroundings.converse_bind, Program.pure_eq, Surroundings.converse_done]
    at unfailing ⊢
  have asked : (surroundings.converse Work.isCancelled before).2.store.Carries place keys := carries
  have configured := (surroundings.converse_of_leads
    (@keeps_configErrors options identity reference place keys action path _ asked)).1
  exact carries_tagging hits configured unfailing

theorem carries_errorsOfFiles (hits : Hits identity place scope)
    {files : List (FileAction × String)} (carries : before.store.Carries place keys)
    (unfailing : (surroundings.converse (errorsOfFiles options identity reference files)
      before).2.Unfailing) :
    (surroundings.converse (errorsOfFiles options identity reference files)
      before).2.store.Carries place (files.foldl (toggledKeys scope) keys) := by
  induction files generalizing before keys with
  | nil => exact carries
  | cons entry rest ih =>
    unfold errorsOfFiles at unfailing ih ⊢
    rw [List.mapM_cons] at unfailing ⊢
    simp only [Surroundings.converse_bind, Program.pure_eq, Surroundings.converse_done]
      at unfailing ⊢
    have first := carries_fileErrors hits carries (Surroundings.unfailing_before unfailing)
    exact ih first unfailing

theorem displays_updateInfos (hits : Hits identity place scope)
    (parsed : event.identity = .ok identity) (uncancelled : surroundings.Uncancelled)
    (preparing : surroundings.Preparing before)
    (without : ∀ commit ∈ event.commits, commit.WithoutReadme)
    (displays : before.store.Displays place scope names)
    (unfailing : (surroundings.converse (updateInfos options event) before).2.Unfailing) :
    (surroundings.converse (updateInfos options event) before).2.store.Displays place scope
      (event.commits.foldl (fun tags commit => commit.retag scope tags) names) := by
  have handles : Handles surroundings options identity event.reference
      (Progress.each (handleCommit options identity event.reference) event.commits) event.handled :=
    handles_each _ (fun _ => Surroundings.yields_handleCommit) fun commit =>
      handles_handleCommit uncancelled commit
  unfold updateInfos at unfailing ⊢
  rw [parsed] at unfailing ⊢
  simp only [Surroundings.converse_bind, handles _ preparing, Program.pure_eq,
    Surroundings.converse_done] at unfailing ⊢
  rw [← foldl_toggled_handled without scope names, Store.displays_iff,
    ← Tagging.foldl_toggledKeys_image]
  exact carries_errorsOfFiles hits (Store.displays_iff.mp displays) unfailing

theorem keeps_review {kept : Store → Prop} :
    Program.Keeps kept (review options event) fun _ => True := by
  refine Program.keeps_bind Program.keeps_isCancelled fun isCancelled _ => ?_
  cases isCancelled
  · exact keeps_errorsOf keeps_submitForReview
  · exact Program.keeps_done trivial

end Push

theorem PushEvent.hits_of_target {event : PushEvent} {place : RepositoryPlace} {store : Store}
    {scope : TagScope} (target : event.target? store = some place)
    (bears : TagScope.ofRepoType? place.repoType = some scope) :
    ∃ identity, event.identity = .ok identity ∧ Push.Hits identity place scope ∧
      store.place? place.repoType place.owner place.name = some place := by
  unfold PushEvent.target? at target
  split at target
  · cases target
  · next identity parsed =>
    obtain ⟨repoType, known, found⟩ := Option.bind_eq_some_iff.mp target
    obtain ⟨isOf, owner, name⟩ := Store.place?_eq_some found
    refine ⟨identity, parsed, ⟨?_, ?_, owner, name⟩, ?_⟩
    · rw [← RepoIdentity.scope_of_parse parsed, RepoIdentity.scope, known, ← isOf]
      exact bears
    · exact TagScope.repoType_of_ofRepoType? bears
    · rw [isOf, owner, name]
      exact found

structure Delivery where
  surroundings : Surroundings
  options : Push.Options
  event : PushEvent

namespace Delivery

def run (delivery : Delivery) (store : Store) : PushResult × Dialogue :=
  delivery.surroundings.run (Push.handle delivery.options delivery.event) store

/-- The push is to the repository at a place and touches no README, it is not cancelled, and no store
call fails. -/
structure Undisturbed (delivery : Delivery) (place : RepositoryPlace) (store : Store) : Prop where
  target : delivery.event.target? store = some place
  without : ∀ commit ∈ delivery.event.commits, commit.WithoutReadme
  uncancelled : delivery.surroundings.Uncancelled
  unfailing : (delivery.run store).2.Unfailing

variable {delivery : Delivery} {place : RepositoryPlace} {store : Store} {scope : TagScope}
  {names : Set String}

theorem displays (undisturbed : delivery.Undisturbed place store)
    (bears : TagScope.ofRepoType? place.repoType = some scope)
    (displays : store.Displays place scope names) :
    (delivery.run store).2.store.Displays place scope
      (delivery.event.commits.foldl (fun tags commit => commit.retag scope tags) names) := by
  obtain ⟨identity, parsed, hits, -⟩ := PushEvent.hits_of_target undisturbed.target bears
  have unfailing := undisturbed.unfailing
  unfold run Surroundings.run at unfailing ⊢
  rw [Push.handle_eq parsed] at unfailing ⊢
  unfold Push.revision at unfailing ⊢
  simp only [Surroundings.converse_bind, Program.pure_eq, Surroundings.converse_done]
    at unfailing ⊢
  have timed : Program.Keeps (fun store => store.Carries place (libraryKey scope '' names))
      (Push.errorsOf (Push.setUpdateTime delivery.event)) fun _ => True :=
    Push.keeps_carries fun _ => Push.keeps_errorsOf Regime.keeps_setUpdateTime
  have carriesTimed :=
    (delivery.surroundings.run_of_leads (timed store (Store.displays_iff.mp displays))).1
  have preparingTimed := (delivery.surroundings.preparing_start store).converse
    (Surroundings.yields_errorsOf (Surroundings.accounts_setUpdateTime parsed))
  have displaysUpdated := Push.displays_updateInfos hits parsed undisturbed.uncancelled
    preparingTimed undisturbed.without (Store.displays_iff.mpr carriesTimed)
    (Surroundings.unfailing_before unfailing)
  have reviewed : Program.Keeps
      (fun store => store.Displays place scope
        (delivery.event.commits.foldl (fun tags commit => commit.retag scope tags) names))
      (Push.review delivery.options delivery.event) fun _ => True := Push.keeps_review
  exact (delivery.surroundings.converse_of_leads (reviewed _ displaysUpdated)).1

end Delivery

namespace Delivery

def runAll (deliveries : List Delivery) (store : Store) : Store :=
  deliveries.foldl (fun store delivery => (delivery.run store).2.store) store

def AllUndisturbed (place : RepositoryPlace) : List Delivery → Store → Prop
  | [], _ => True
  | delivery :: rest, store =>
    delivery.Undisturbed place store ∧ AllUndisturbed place rest (delivery.run store).2.store

def commits (deliveries : List Delivery) : List Commit :=
  deliveries.flatMap fun delivery => delivery.event.commits

variable {place : RepositoryPlace} {store : Store} {scope : TagScope} {names : Set String}
  {deliveries : List Delivery}

theorem displays_runAll (undisturbed : AllUndisturbed place deliveries store)
    (bears : TagScope.ofRepoType? place.repoType = some scope)
    (displays : store.Displays place scope names) :
    (runAll deliveries store).Displays place scope
      ((commits deliveries).foldl (fun tags commit => commit.retag scope tags) names) := by
  induction deliveries generalizing store names with
  | nil => exact displays
  | cons delivery rest ih =>
    obtain ⟨first, others⟩ := undisturbed
    have onward := ih others (Delivery.displays first bears displays)
    rw [commits, List.flatMap_cons, List.foldl_append]
    exact onward

end Delivery

namespace Push

open Delivery (AllUndisturbed commits runAll)

variable {store : Store} {place : RepositoryPlace} {scope : TagScope}
  {deliveries : List Delivery}

/-- The library tags of a repository that had none, after any undisturbed pushes to it: every commit
takes away the tags of the files it removes and adds those of the files it adds. So every tag is that
of some file, and all tags of files are there unless a commit removed a file with the tag of another
one that stayed. -/
theorem library_tags_follow_commits (lawful : store.Lawful)
    (found : store.place? place.repoType place.owner place.name = some place)
    (bears : TagScope.ofRepoType? place.repoType = some scope)
    (bare : store.libraryNames place.id = ∅)
    (undisturbed : AllUndisturbed place deliveries store) :
    (runAll deliveries store).libraryNames place.id = History.tags scope (commits deliveries) ∧
    (runAll deliveries store).libraryNames place.id ⊆
      view scope (History.tree (commits deliveries)) ∧
    (History.Throughout (Commit.Spares scope) (commits deliveries) ∅ →
      (runAll deliveries store).libraryNames place.id =
        view scope (History.tree (commits deliveries))) := by
  have displays : store.Displays place scope ∅ :=
    ⟨lawful, found, Store.shows_nothing bare scope⟩
  have shown := (Delivery.displays_runAll undisturbed bears displays).shows.libraryNames
  rw [shown]
  exact ⟨rfl, History.tags_subset_view scope _, History.tags_eq_view⟩

def onnxDelivery (commit : Commit) : Delivery where
  surroundings := Surroundings.calm bertFiles
  options := .plain
  event := { bertPush with commits := [commit] }

def addsA : Commit := { added := ["a.onnx"] }

def renamesA : Commit := { removed := ["a.onnx"], added := ["b.onnx"] }

theorem onnxDelivery_undisturbed {commit : Commit} {store : Store}
    (target : (onnxDelivery commit).event.target? store = some bertPlace)
    (without : commit.WithoutReadme) (unfailing : ((onnxDelivery commit).run store).2.Unfailing) :
    (onnxDelivery commit).Undisturbed bertPlace store where
  target := target
  without := List.forall_mem_singleton.mpr without
  uncancelled :=
    { token := fun _ => rfl
      queue := fun _ _ => rfl
      store := fun _ _ => nofun
      server := fun _ _ _ => nofun }
  unfailing := unfailing

theorem bert_bare : Store.bert.libraryNames bertPlace.id = ∅ := by
  refine Set.eq_empty_iff_forall_notMem.mpr ?_
  rintro name ⟨key, ⟨row, member, -⟩, -⟩
  have noTags : Store.bert.tags = [] := rfl
  rw [noTags] at member
  exact absurd member List.not_mem_nil

theorem renamed_file_keeps_its_tag :
    AllUndisturbed bertPlace [onnxDelivery addsA, onnxDelivery renamesA] Store.bert ∧
    (runAll [onnxDelivery addsA, onnxDelivery renamesA] Store.bert).libraryNames bertPlace.id =
      view .model (History.tree [addsA, renamesA]) := by
  have undisturbed :
      AllUndisturbed bertPlace [onnxDelivery addsA, onnxDelivery renamesA] Store.bert := by
    refine ⟨onnxDelivery_undisturbed ?_ ?_ ?_, onnxDelivery_undisturbed ?_ ?_ ?_, trivial⟩
    · decide +kernel
    · intro action
      cases action <;> decide
    · decide +kernel
    · decide +kernel
    · intro action
      cases action <;> decide
    · decide +kernel
  have spare : History.Throughout (Commit.Spares .model) [addsA, renamesA] ∅ := by
    refine ⟨?_, ?_, trivial⟩
    · rintro tag ⟨⟨path, removed, -⟩, -⟩
      exact absurd removed List.not_mem_nil
    · rintro tag ⟨⟨path, removed, tagged⟩, -⟩
      obtain rfl := List.mem_singleton.mp removed
      exact ⟨"b.onnx", List.mem_singleton.mpr rfl, tagged⟩
  obtain ⟨-, -, complete⟩ := library_tags_follow_commits Store.bert_reachable.lawful
    (by decide +kernel) rfl bert_bare undisturbed
  exact ⟨undisturbed, complete spare⟩

def addsBoth : Commit := { added := ["a.onnx", "b.onnx"] }

def removesA : Commit := { removed := ["a.onnx"] }

/-- Two files of one tag are pushed, and one of them is removed again. -/
theorem shared_tag_is_lost :
    History.Throughout Commit.Fits [addsBoth, removesA] ∅ ∧
    AllUndisturbed bertPlace [onnxDelivery addsBoth, onnxDelivery removesA] Store.bert ∧
    Store.bert.libraryNames bertPlace.id = ∅ ∧
    (runAll [onnxDelivery addsBoth, onnxDelivery removesA] Store.bert).libraryNames bertPlace.id ≠
      view .model (History.tree [addsBoth, removesA]) := by
  refine ⟨⟨?_, ?_, trivial⟩, ⟨?_, ?_, trivial⟩, bert_bare, ?_⟩
  · exact ⟨nofun, nofun, fun _ _ old => old.1⟩
  · refine ⟨nofun, ?_, nofun⟩
    intro path removed
    obtain rfl := List.mem_singleton.mp removed
    exact Or.inr List.mem_cons_self
  · refine onnxDelivery_undisturbed (by decide +kernel) ?_ (by decide +kernel)
    intro action
    cases action <;> decide
  · refine onnxDelivery_undisturbed (by decide +kernel) ?_ (by decide +kernel)
    intro action
    cases action <;> decide
  · intro same
    have stays : "b.onnx" ∈ History.tree [addsBoth, removesA] := by
      refine Or.inl ⟨Or.inr (List.mem_cons_of_mem _ List.mem_cons_self), ?_⟩
      intro removed
      exact absurd (List.mem_singleton.mp removed) (by decide)
    have tagged : LibraryTag.ofFile? .model "b.onnx" = some "onnx" := by decide +kernel
    have inView : "onnx" ∈ view .model (History.tree [addsBoth, removesA]) :=
      ⟨"b.onnx", stays, tagged⟩
    rw [← same] at inView
    obtain ⟨key, ⟨row, -, -, linked⟩, -⟩ := inView
    have noLinks : (runAll [onnxDelivery addsBoth, onnxDelivery removesA] Store.bert).links = [] := by
      decide +kernel
    rw [noLinks] at linked
    exact absurd linked List.not_mem_nil

end Push

end ModelHub
