import ModelHub.Proofs.Engine.Scene
import ModelHub.Proofs.Push.Agenda

/-! What the tag service does to the profile of a repository. A call that fails behind the one that
adds a tag to the catalogue may leave the repository with that tag, if the number of the new tag
happened to be linked already. -/

namespace ModelHub

open Work (askStore)

theorem MetaTags.isSkippable_of_declared {content : String} {e : HubError}
    (failed : MetaTags.declared content = .error e) : e.isSkippable := by
  unfold MetaTags.declared at failed
  split at failed
  · cases failed
  · split at failed
    · cases failed
    · split at failed
      · obtain rfl := Except.error.inj failed
        rfl
      · cases failed
      · cases failed
      · obtain rfl := Except.error.inj failed
        rfl

namespace Scene

variable {scene : Scene} {profile : Profile} {bad : HubError → Profile → Prop}

/-- Work that carries out changes, maybe in part if it fails. -/
structure Carries {α : Type} (scene : Scene) (work : Work α) (changes : List Change) : Prop where
  does : ∀ profile, scene.Does work profile
    (fun _ after => Change.Outcomes scene.faults changes profile after)
    fun e after => e ≠ .cancelled ∧ Change.Outcomes scene.faults changes profile after

def Targets (scene : Scene) (repoType : RepoType) (owner name : String) : Prop :=
  ∀ place, scene.store.place? repoType owner name = some place → place.id = scene.repositoryId

theorem does_findRecord {repoType : RepoType} {owner name : String}
    {good : Repository → Profile → Prop}
    (found : ∀ repository, scene.store.place? repoType owner name = some repository.place →
      repository.isMirror = (scene.store.mirror? repository.id).isSome → good repository profile)
    (absent : scene.store.place? repoType owner name = none →
      bad (Tagging.missing repoType owner name) profile)
    (failed : ∀ e, scene.faults e → bad e profile) :
    scene.Does (Tagging.findRepository repoType owner name) profile good bad := by
  refine does_bind (does_askStore trivial (fun _ => trivial) ?_ failed)
  intro store value after same revises performed
  obtain ⟨answer, rfl⟩ := Prod.mk.inj performed
  have place := Store.place?_congr revises.places repoType owner name
  rw [same]
  cases value with
  | none => exact does_throw (absent (place ▸ Store.findRepository_none answer))
  | some repository =>
    refine does_pure (found repository (place ▸ Store.findRepository_some answer) ?_)
    rw [Store.findRepository_isMirror answer, Store.isSome_mirror?_congr revises.origins]

theorem does_findRepository {repoType : RepoType} {owner name : String}
    {good : Repository → Profile → Prop}
    (found : ∀ repository, scene.store.place? repoType owner name = some repository.place →
      good repository profile)
    (absent : scene.store.place? repoType owner name = none →
      bad (Tagging.missing repoType owner name) profile)
    (failed : ∀ e, scene.faults e → bad e profile) :
    scene.Does (Tagging.findRepository repoType owner name) profile good bad :=
  does_findRecord (fun repository isAt _ => found repository isAt) absent failed

theorem leads_ensureTag (scope : TagScope) (category : TagCategory) (group name : String)
    (store : Store) :
    Work.Leads scene.answers (askStore (.ensureTag scope category group name)) store
      (fun tag after => store.Revises scene.repositoryId after ∧ after.Lists tag ∧
        tag.key = .of scope category group name ∧
        (after.profile scene.repositoryId = store.profile scene.repositoryId ∨
          after.profile scene.repositoryId =
            (store.profile scene.repositoryId).tagged (.of scope category group name)))
      fun e after => scene.faults e ∧ after = store := by
  refine Work.leads_askStore ?_ fun e fault => ⟨fault, rfl⟩
  intro tag after performed
  have result : store.ensureTag scope category group name = (tag, after) := by
    obtain ⟨first, second⟩ := Prod.mk.inj performed
    exact Prod.ext (Except.ok.inj first) second
  obtain ⟨listed, key⟩ := store.ensureTag_lists scope category group name
  have step : store.Revises scene.repositoryId (store.ensureTag scope category group name).2 :=
    Store.revises_ensureTag scope category group name
  have profiles := store.profile_ensureTag scene.repositoryId scope category group name
  rw [result] at listed key step profiles
  exact ⟨step, listed, key, profiles⟩

theorem does_link {repositoryId : Int} {scope : TagScope} {category : TagCategory}
    {group name : String} {good : Bool → Profile → Prop} (here : repositoryId = scene.repositoryId)
    (onValue : ∀ isNew, good isNew (profile.tagged (.of scope category group name)))
    (onFailure : ∀ e, scene.faults e →
      bad e profile ∧ bad e (profile.tagged (.of scope category group name))) :
    scene.Does (Tagging.link repositoryId scope category group name) profile good bad := by
  subst here
  refine does_of_leads fun store same revises => ?_
  refine Work.leads_bind.mpr ((leads_ensureTag scope category group name store).mono ?_ ?_)
  · intro tag ensured ended
    obtain ⟨step, listed, key, profiles⟩ := ended
    rw [same] at profiles
    have revised := revises.trans step
    refine Work.leads_askStore ?_ ?_
    · intro isNew linked performed
      have done : (ensured.link scene.repositoryId tag.id).2 = linked := (Prod.mk.inj performed).2
      have after := Store.profile_link (revised.lawful scene.lawful) listed scene.repositoryId
      rw [key] at after
      rw [← done]
      refine ⟨revised.trans (Store.revises_link listed.hasTag), ?_⟩
      rcases profiles with kept | tagged
      · rw [after, kept]
        exact onValue isNew
      · rw [after, tagged, Profile.tagged_tagged]
        exact onValue isNew
    · intro e fault
      refine ⟨revised, ?_⟩
      rcases profiles with kept | tagged
      · exact kept ▸ (onFailure e fault).1
      · exact tagged ▸ (onFailure e fault).2
  · intro e after ended
    obtain ⟨fault, rfl⟩ := ended
    exact ⟨revises, same.symm ▸ (onFailure e fault).1⟩

theorem does_unlink {repositoryId : Int} {scope : TagScope} {category : TagCategory}
    {group name : String} {good : Bool → Profile → Prop} (here : repositoryId = scene.repositoryId)
    (onValue : ∀ present, good present (profile.untagged (.of scope category group name)))
    (onFailure : ∀ e, scene.faults e → bad e profile) :
    scene.Does (Tagging.unlink repositoryId scope category group name) profile good bad := by
  subst here
  refine does_of_leads fun store same revises => ?_
  have lawful := revises.lawful scene.lawful
  refine Work.leads_bind.mpr (Work.leads_askStore ?_ ?_)
  · intro found after performed
    obtain ⟨answer, rfl⟩ := Prod.mk.inj performed
    have found? : store.findTag? scope category group name = found := Except.ok.inj answer
    cases found with
    | none =>
      refine ⟨revises, ?_⟩
      have kept : (store.profile scene.repositoryId).untagged (.of scope category group name) =
          store.profile scene.repositoryId :=
        Store.untagged_of_absent (Store.findTag?_eq_none found?)
      rw [← kept, same]
      exact onValue false
    | some tag =>
      obtain ⟨listed, key⟩ := Store.findTag?_eq_some found?
      refine Work.leads_askStore ?_ ?_
      · intro present unlinked performed
        have ended : (store.unlink scene.repositoryId tag.id).2 = unlinked :=
          (Prod.mk.inj performed).2
        rw [← ended]
        refine ⟨revises.trans (Store.revises_unlink listed.hasTag), ?_⟩
        rw [Store.profile_unlink lawful listed, key, same]
        exact onValue present
      · intro e fault
        exact ⟨revises, same.symm ▸ onFailure e fault⟩
  · intro e fault
    exact ⟨revises, same.symm ▸ onFailure e fault⟩

theorem leads_ensureDeclared (scope : TagScope) (declared : List DeclaredTag) (store : Store) :
    Work.Leads scene.answers (declared.mapM (Tagging.ensureDeclared scope)) store
      (fun tags after => store.Revises scene.repositoryId after ∧
        Profile.AgreeBut (Change.declare scope declared).Decides
          (store.profile scene.repositoryId) (after.profile scene.repositoryId) ∧
        (∀ tag ∈ tags, after.Lists tag) ∧
        ∀ key, (∃ tag ∈ tags, tag.key = key) ↔ ∃ tag ∈ declared, tag.key scope = key)
      fun e after => scene.faults e ∧ store.Revises scene.repositoryId after ∧
        Profile.AgreeBut (Change.declare scope declared).Decides
          (store.profile scene.repositoryId) (after.profile scene.repositoryId) := by
  induction declared generalizing store with
  | nil =>
    exact ⟨.refl _ _, .refl _ _, by simp, by simp⟩
  | cons tag rest ih =>
    rw [List.mapM_cons]
    refine Work.leads_bind.mpr
      ((leads_ensureTag scope .declared tag.group tag.name store).mono ?_ ?_)
    · intro ensuredTag ensured ended
      obtain ⟨step, listed, key, profiles⟩ := ended
      have agree : Profile.AgreeBut (Change.declare scope (tag :: rest)).Decides
          (store.profile scene.repositoryId) (ensured.profile scene.repositoryId) := by
        have decides : (Change.declare scope (tag :: rest)).Decides (tag.key scope) := rfl
        rcases profiles with kept | tagged
        · exact kept ▸ .refl _ _
        · exact tagged ▸ .tagged decides _
      refine Work.leads_bind.mpr ((ih ensured).mono ?_ ?_)
      · intro tags after ended
        obtain ⟨revises, others, allListed, keys⟩ := ended
        refine Work.leads_pure.mpr ⟨step.trans revises, agree.trans others, ?_, ?_⟩
        · intro other member
          rcases List.mem_cons.mp member with rfl | later
          · exact revises.lists listed
          · exact allListed other later
        · intro other
          simp only [List.mem_cons, exists_eq_or_imp, key, keys]
          exact Iff.rfl
      · intro e after ended
        exact ⟨ended.1, step.trans ended.2.1, agree.trans ended.2.2⟩
    · intro e after ended
      obtain ⟨fault, rfl⟩ := ended
      exact ⟨fault, .refl _ _, .refl _ _⟩

theorem leads_replaceTags {repositoryId : Int} {category : TagCategory} {tags : List Tag}
    {store : Store} (here : repositoryId = scene.repositoryId) (lawful : store.Lawful)
    (listed : ∀ tag ∈ tags, store.Lists tag) :
    Work.Leads scene.answers (askStore (.replaceTags repositoryId category tags)) store
      (fun _ after => store.Revises scene.repositoryId after ∧
        after.profile scene.repositoryId =
          (store.profile scene.repositoryId).retagged category {key | ∃ tag ∈ tags, tag.key = key})
      fun e after => scene.faults e ∧ after = store := by
  subst here
  refine Work.leads_askStore ?_ fun e fault => ⟨fault, rfl⟩
  intro _ after performed
  have replaced : store.replaceTags scene.repositoryId category tags = .ok after := by
    simp only [Store.perform] at performed
    split at performed
    · next result isOk => rw [isOk, (Prod.mk.inj performed).2]
    · cases (Prod.mk.inj performed).1
  exact ⟨Store.revises_replaceTags (fun tag member => (listed tag member).hasTag) replaced,
    Store.profile_replaceTags lawful listed replaced⟩

theorem declared_ne_cancelled {content : String} {e : HubError}
    (failed : MetaTags.declared content = .error e) : e ≠ .cancelled := by
  rintro rfl
  exact Bool.false_ne_true (MetaTags.isSkippable_of_declared failed)

theorem outcomes_nil (profile : Profile) : Change.Outcomes scene.faults [] profile profile := rfl

theorem outcomes_single {change : Change} {after : Profile}
    (outcome : change.Outcome scene.faults profile after) :
    Change.Outcomes scene.faults [change] profile after := ⟨after, outcome, rfl⟩

theorem outcomes_of_fault {e : HubError} (fault : scene.faults e) (changes : List Change)
    (profile : Profile) : Change.Outcomes scene.faults changes profile profile := by
  induction changes with
  | nil => rfl
  | cons change rest ih =>
    exact ⟨profile, ⟨.refl change profile, fun unfailing => absurd fault (unfailing e)⟩, ih⟩

theorem outcome_of_fault {change : Change} {after : Profile} {e : HubError} (fault : scene.faults e)
    (approaches : change.Approaches profile after) :
    change.Outcome scene.faults profile after :=
  ⟨approaches, fun unfailing => absurd fault (unfailing e)⟩

theorem outcome_apply (change : Change) (profile : Profile) :
    change.Outcome scene.faults profile (change.apply profile) :=
  ⟨Change.approaches_apply change profile, fun _ => rfl⟩

theorem retagged_congr {decided : List DeclaredTag} {scope : TagScope} {middle : Profile}
    (agree : Profile.AgreeBut (Change.declare scope decided).Decides profile middle) :
    (Change.declare scope decided).apply middle = (Change.declare scope decided).apply profile := by
  refine Profile.ext agree.1 ?_
  ext key
  exact or_congr_left (and_congr_left fun other => agree.2 key other)

theorem carries_applyDeclared {scope : TagScope} {owner name content : String}
    (targets : scene.Targets scope.repoType owner name) :
    scene.Carries (Tagging.applyDeclared scope owner name content)
      (Agenda.declare scene.store scope owner name (MetaTags.declared content)) := by
  refine ⟨fun profile => ?_⟩
  refine does_bind (does_mk ?_)
  cases parsed : MetaTags.declared content with
  | error e => exact ⟨declared_ne_cancelled parsed, outcomes_nil profile⟩
  | ok declared =>
    refine does_bind (does_findRepository ?_ ?_ ?_)
    · intro repository found
      have here : repository.id = scene.repositoryId := targets _ found
      simp only [Agenda.declare, found]
      refine does_of_leads fun store same revises => ?_
      refine Work.leads_bind.mpr ((leads_ensureDeclared scope declared store).mono ?_ ?_)
      · intro tags ensured ended
        obtain ⟨step, agree, listed, keys⟩ := ended
        rw [same] at agree
        have revised := revises.trans step
        refine Work.leads_bind.mpr
          ((leads_replaceTags here (revised.lawful scene.lawful) listed).mono ?_ ?_)
        · intro _ after ended
          refine ⟨revised.trans ended.1, outcomes_single ?_⟩
          have settled : after.profile scene.repositoryId =
              (Change.declare scope declared).apply profile := by
            rw [ended.2, ← retagged_congr agree]
            simp only [keys]
            rfl
          exact settled ▸ outcome_apply _ profile
        · intro e after ended
          obtain ⟨fault, rfl⟩ := ended
          refine ⟨revised, scene.faults_ne_cancelled e fault, outcomes_single ?_⟩
          exact outcome_of_fault fault (Change.approaches_of_tags rfl agree)
      · intro e after ended
        obtain ⟨fault, step, agree⟩ := ended
        refine ⟨revises.trans step, scene.faults_ne_cancelled e fault, outcomes_single ?_⟩
        rw [same] at agree
        exact outcome_of_fault fault (Change.approaches_of_tags rfl agree)
    · intro absent
      refine ⟨by simp [Tagging.missing], ?_⟩
      simp only [Agenda.declare, absent]
      exact outcomes_nil profile
    · intro e fault
      exact ⟨scene.faults_ne_cancelled e fault, outcomes_of_fault fault _ profile⟩

theorem carries_clearDeclared {scope : TagScope} {owner name : String}
    (targets : scene.Targets scope.repoType owner name) :
    scene.Carries (Tagging.clearDeclared scope owner name)
      (Agenda.declare scene.store scope owner name (.ok [])) := by
  refine ⟨fun profile => ?_⟩
  refine does_bind (does_findRepository ?_ ?_ ?_)
  · intro repository found
    have here : repository.id = scene.repositoryId := targets _ found
    simp only [Agenda.declare, found]
    refine does_unlinkCategory here ?_ ?_
    · intro count
      refine outcomes_single ?_
      have cleared : profile.retagged .declared ∅ = (Change.declare scope []).apply profile := by
        simp [Change.apply]
      exact cleared ▸ outcome_apply _ profile
    · intro e fault
      exact ⟨scene.faults_ne_cancelled e fault, outcomes_of_fault fault _ profile⟩
  · intro absent
    refine ⟨by simp [Tagging.missing], ?_⟩
    simp only [Agenda.declare, absent]
    exact outcomes_nil profile
  · intro e fault
    exact ⟨scene.faults_ne_cancelled e fault, outcomes_of_fault fault _ profile⟩

/-- The tag of the new file comes last, behind what was done before. -/
theorem does_add {repositoryId : Int} (here : repositoryId = scene.repositoryId) (scope : TagScope)
    (name : String) {before : List Change} {first : Profile}
    (earlier : Change.Outcomes scene.faults before first profile) :
    scene.Does (do let _ ← Tagging.link repositoryId scope .library "" name : Work Unit) profile
      (fun _ after => Change.Outcomes scene.faults (before ++ [.add scope name]) first after)
      fun e after => e ≠ .cancelled ∧
        Change.Outcomes scene.faults (before ++ [.add scope name]) first after := by
  have later : ∀ {after : Profile}, (Change.add scope name).Outcome scene.faults profile after →
      Change.Outcomes scene.faults (before ++ [.add scope name]) first after := by
    intro after outcome
    exact Change.outcomes_append.mpr ⟨profile, earlier, outcomes_single outcome⟩
  refine does_bind (does_link here ?_ ?_)
  · intro isNew
    exact does_pure (later (outcome_apply _ profile))
  · intro e fault
    have calm := scene.faults_ne_cancelled e fault
    refine ⟨⟨calm, later (outcome_of_fault fault (.refl _ profile))⟩, calm, later ?_⟩
    exact outcome_of_fault fault (Change.approaches_apply (.add scope name) profile)

theorem carries_switchLibrary {scope : TagScope} {owner name oldFile newFile : String}
    (targets : scene.Targets scope.repoType owner name) :
    scene.Carries (Tagging.switchLibrary scope owner name oldFile newFile)
      (Agenda.switchLibrary scene.store scope owner name oldFile newFile) := by
  refine ⟨fun profile => ?_⟩
  unfold Tagging.switchLibrary Agenda.switchLibrary
  by_cases same : Tagging.tagOf scope oldFile = Tagging.tagOf scope newFile
  · simp only [same, if_true]
    refine does_pure ?_
    cases scene.store.place? scope.repoType owner name <;> exact outcomes_nil profile
  · simp only [same, if_false]
    refine does_bind (does_findRepository ?_ ?_ ?_)
    · intro repository found
      have here : repository.id = scene.repositoryId := targets _ found
      simp only [found]
      have dropped : ∀ old, Change.Outcomes scene.faults [.drop scope old] profile
          ((Change.drop scope old).apply profile) :=
        fun old => outcomes_single (outcome_apply _ profile)
      cases isOld : Tagging.tagOf scope oldFile with
      | none =>
        cases isNew : Tagging.tagOf scope newFile with
        | none => exact absurd (isOld.trans isNew.symm) same
        | some new => exact does_add here scope new (outcomes_nil profile)
      | some old =>
        refine does_bind (does_unlink here (fun present => ?_) ?_)
        · cases Tagging.tagOf scope newFile with
          | none => exact does_pure (dropped old)
          | some new => exact does_add here scope new (dropped old)
        · intro e fault
          exact ⟨scene.faults_ne_cancelled e fault, outcomes_of_fault fault _ profile⟩
    · intro absent
      refine ⟨by simp [Tagging.missing], ?_⟩
      simp only [absent]
      exact outcomes_nil profile
    · intro e fault
      exact ⟨scene.faults_ne_cancelled e fault, outcomes_of_fault fault _ profile⟩

theorem carries_updateLibrary {scope : TagScope} {typeToken owner name oldFile newFile : String}
    (isOf : TagScope.ofToken? typeToken = some scope)
    (targets : scene.Targets scope.repoType owner name) :
    scene.Carries (Tagging.updateLibrary typeToken owner name oldFile newFile)
      (Agenda.switchLibrary scene.store scope owner name oldFile newFile) := by
  unfold Tagging.updateLibrary
  rw [isOf]
  exact carries_switchLibrary targets

end Scene

end ModelHub
