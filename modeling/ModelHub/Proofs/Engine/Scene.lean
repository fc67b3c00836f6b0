import ModelHub.Proofs.Engine.Answers

/-! The profile of one repository while programs run: what a program turns it into, when store calls
may fail with some errors and only this repository is written to.

The rules follow the constructions of programs, one rule each, and one rule for each store call. -/

namespace ModelHub

open Work (askStore attempt attemptEach checkpoint either perform)

structure Scene where
  faults : HubError → Prop
  faults_ne_cancelled : ∀ e, faults e → e ≠ .cancelled
  files : FileRequest → Except HubError String
  files_ne_cancelled : ∀ request, files request ≠ .error .cancelled
  repositoryId : Int
  store : Store
  lawful : store.Lawful

namespace Scene

def answers (scene : Scene) : Program.Answers Store := Store.answers scene.faults scene.files

/-- The program may turn the profile only into profiles with the given property. -/
def Runs {α : Type} (scene : Scene) (program : Program α) (profile : Profile)
    (post : α → Profile → Prop) : Prop :=
  ∀ store, store.profile scene.repositoryId = profile →
    Store.Revises scene.repositoryId scene.store store →
      Program.Leads scene.answers program store fun value after =>
        Store.Revises scene.repositoryId scene.store after ∧
          post value (after.profile scene.repositoryId)

def Does {α : Type} (scene : Scene) (work : Work α) (profile : Profile)
    (good : α → Profile → Prop) (bad : HubError → Profile → Prop) : Prop :=
  scene.Runs work.run profile (either good bad)

variable {scene : Scene} {α β : Type} {profile : Profile}

theorem runs_done {value : α} {post : α → Profile → Prop} (holds : post value profile) :
    scene.Runs (.done value) profile post := by
  intro store same revises
  exact ⟨revises, same ▸ holds⟩

theorem runs_bind {program : Program α} {next : α → Program β} {post : β → Profile → Prop}
    (runs : scene.Runs program profile fun value after => scene.Runs (next value) after post) :
    scene.Runs (program >>= next) profile post := by
  intro store same revises
  refine Program.leads_bind.mpr ((runs store same revises).mono ?_)
  intro value after ended
  exact ended.2 after rfl ended.1

theorem Runs.mono {program : Program α} {post weaker : α → Profile → Prop}
    (runs : scene.Runs program profile post)
    (weaken : ∀ value after, post value after → weaker value after) :
    scene.Runs program profile weaker := by
  intro store same revises
  exact (runs store same revises).mono fun value after ended =>
    ⟨ended.1, weaken value _ ended.2⟩

theorem runs_isCancelled {post : Bool → Profile → Prop} (uncancelled : post false profile) :
    scene.Runs Work.isCancelled profile post := by
  intro store same revises reply after answer
  obtain ⟨rfl, rfl⟩ := answer
  exact ⟨revises, same ▸ uncancelled⟩

variable {bad : HubError → Profile → Prop}

theorem does_pure {value : α} {good : α → Profile → Prop} (holds : good value profile) :
    scene.Does (pure value) profile good bad := runs_done holds

theorem does_mk {outcome : Except HubError α} {good : α → Profile → Prop}
    (holds : either good bad outcome profile) :
    scene.Does (ExceptT.mk (pure outcome)) profile good bad := runs_done holds

theorem does_throw {e : HubError} {good : α → Profile → Prop} (holds : bad e profile) :
    scene.Does (throw e) profile good bad := runs_done holds

theorem does_bind {work : Work α} {next : α → Work β} {good : β → Profile → Prop}
    (does : scene.Does work profile (fun value after => scene.Does (next value) after good bad)
      bad) :
    scene.Does (work >>= next) profile good bad := by
  refine runs_bind (Runs.mono does ?_)
  intro outcome after ended
  cases outcome with
  | ok value => exact ended
  | error e => exact runs_done ended

theorem does_perform {program : Program α} {good : α → Profile → Prop}
    (runs : scene.Runs program profile good) : scene.Does (perform program) profile good bad := by
  refine runs_bind (runs.mono ?_)
  intro value after ended
  exact runs_done ended

theorem runs_attempt {work : Work α} {post : Except HubError α → Profile → Prop}
    (does : scene.Does work profile (fun value after => post (.ok value) after)
      fun e after => post (.error e) after) :
    scene.Runs (attempt work) profile post := by
  refine Runs.mono does ?_
  intro outcome after ended
  cases outcome with
  | ok value => exact ended
  | error e => exact ended

theorem Does.mono {work : Work α} {good better : α → Profile → Prop}
    {worse : HubError → Profile → Prop} (does : scene.Does work profile good bad)
    (onValue : ∀ value after, good value after → better value after)
    (onFailure : ∀ e after, bad e after → worse e after) :
    scene.Does work profile better worse := by
  refine Runs.mono does ?_
  intro outcome after ended
  cases outcome with
  | ok value => exact onValue value after ended
  | error e => exact onFailure e after ended

theorem does_checkpoint {good : Unit → Profile → Prop} (onward : good () profile) :
    scene.Does checkpoint profile good bad := by
  refine does_bind (does_perform (runs_isCancelled ?_))
  exact does_pure onward

theorem does_fetch {request : FileRequest} {limit : Duration} {good : String → Profile → Prop}
    (fetched : either good bad (scene.files request) profile) :
    scene.Does (Work.fetch request limit) profile good bad := by
  refine does_bind (does_checkpoint ?_)
  intro store same revises reply after answer
  obtain ⟨rfl, rfl⟩ := answer
  exact ⟨revises, same.symm ▸ fetched⟩

theorem does_now {good : Instant → Profile → Prop} (onward : ∀ instant, good instant profile) :
    scene.Does (Work.ask .now) profile good bad := by
  intro store same revises reply after answer
  obtain ⟨⟨instant, rfl⟩, rfl⟩ := answer
  exact ⟨revises, same ▸ onward instant⟩

theorem does_holding {repositoryId : Int} {work : Work α} {good : α → Profile → Prop}
    (does : scene.Does work profile good bad) :
    scene.Does (Work.holding repositoryId work) profile good bad := by
  refine does_bind (does_checkpoint (does_bind ?_))
  intro store same revises reply after answer
  obtain ⟨rfl, rfl⟩ := answer
  refine ⟨revises, ?_⟩
  rw [same]
  refine does_bind (does_perform (runs_attempt (does.mono ?_ ?_)))
  · intro value last ended
    refine does_bind (does_perform ?_)
    intro store same revises reply after answer
    obtain rfl := answer
    exact ⟨revises, does_mk (same.symm ▸ ended)⟩
  · intro e last ended
    refine does_bind (does_perform ?_)
    intro store same revises reply after answer
    obtain rfl := answer
    exact ⟨revises, does_mk (same.symm ▸ ended)⟩

/-- The loop law of attempts: an invariant on the values that remain and the profile. -/
theorem does_attemptEach {work : α → Work Unit} {values : List α}
    {good : Work.Attempts α → Profile → Prop} (inv : List α → Profile → Prop)
    (initially : inv values profile)
    (step : ∀ value rest profile, inv (value :: rest) profile →
      scene.Does (work value) profile (fun _ after => inv rest after)
        fun e after => scene.faults e ∧ inv rest after)
    (conclude : ∀ attempts after, (∀ e ∈ attempts.failures, scene.faults e) → inv [] after →
      good attempts after) :
    scene.Does (attemptEach work values) profile good bad := by
  suffices kept : scene.Does (attemptEach work values) profile
      (fun attempts after => (∀ e ∈ attempts.failures, scene.faults e) ∧ inv [] after) bad from
    kept.mono (fun attempts after ended => conclude attempts after ended.1 ended.2) fun _ _ => id
  clear conclude
  induction values generalizing profile with
  | nil => exact does_pure ⟨by simp, initially⟩
  | cons value rest ih =>
    refine does_bind (does_checkpoint (does_bind (does_perform (runs_attempt ?_))))
    refine (step value rest profile initially).mono ?_ ?_
    · intro _ after held
      refine does_bind ((ih held).mono ?_ fun _ _ => id)
      intro attempts last ended
      exact does_pure ended
    · intro e after held
      refine does_bind ((ih held.2).mono ?_ fun _ _ => id)
      intro attempts last ended
      refine does_pure ⟨?_, ended.2⟩
      intro other member
      rcases List.mem_cons.mp member with same | later
      · exact same ▸ held.1
      · exact ended.1 other later

theorem does_of_leads {work : Work α} {good : α → Profile → Prop}
    (leads : ∀ store, store.profile scene.repositoryId = profile →
      Store.Revises scene.repositoryId scene.store store →
        Work.Leads scene.answers work store
          (fun value after => Store.Revises scene.repositoryId scene.store after ∧
            good value (after.profile scene.repositoryId))
          fun e after => Store.Revises scene.repositoryId scene.store after ∧
            bad e (after.profile scene.repositoryId)) :
    scene.Does work profile good bad := by
  intro store same revises
  refine Program.Leads.mono (leads store same revises) ?_
  intro outcome after ended
  cases outcome with
  | ok value => exact ended
  | error e => exact ended

theorem does_askStore {request : StoreCall} {good : request.Reply → Profile → Prop}
    (concerns : request.Concerns scene.repositoryId) (names : ∀ store, request.Names store)
    (onValue : ∀ store value after, store.profile scene.repositoryId = profile →
      Store.Revises scene.repositoryId scene.store store →
      store.perform request = (.ok value, after) → good value (after.profile scene.repositoryId))
    (onFailure : ∀ e, scene.faults e → bad e profile) :
    scene.Does (askStore request) profile good bad := by
  intro store same revises reply after answer
  rcases answer with performed | failed
  · obtain ⟨value, rfl, done⟩ := performed
    have step := store.revises_perform concerns (names store)
    rw [done] at step
    exact ⟨revises.trans step, onValue store value after same revises done⟩
  · obtain ⟨e, fault, rfl, rfl⟩ := failed
    exact ⟨revises, same.symm ▸ onFailure e fault⟩

theorem does_findFramework {id : Int} {good : Option Framework → Profile → Prop}
    (onValue : good (scene.store.framework? id) profile)
    (onFailure : ∀ e, scene.faults e → bad e profile) :
    scene.Does (askStore (.findFramework id)) profile good bad := by
  refine does_askStore trivial (fun _ => trivial) ?_ onFailure
  intro store value after same revises performed
  obtain ⟨found, rfl⟩ := Prod.mk.inj performed
  obtain rfl := Except.ok.inj found
  rw [same, revises.framework?]
  exact onValue

theorem does_listCandidates {architecture model : String}
    {good : List Candidate → Profile → Prop}
    (onValue : good (scene.store.candidates architecture model) profile)
    (onFailure : ∀ e, scene.faults e → bad e profile) :
    scene.Does (askStore (.listCandidates architecture model)) profile good bad := by
  refine does_askStore trivial (fun _ => trivial) ?_ onFailure
  intro store value after same revises performed
  obtain ⟨found, rfl⟩ := Prod.mk.inj performed
  obtain rfl := Except.ok.inj found
  rw [same, revises.candidates]
  exact onValue

theorem does_listResources {model : String} {good : List String → Profile → Prop}
    (onValue : good (scene.store.resourceNames model) profile)
    (onFailure : ∀ e, scene.faults e → bad e profile) :
    scene.Does (askStore (.listResources model)) profile good bad := by
  refine does_askStore trivial (fun _ => trivial) ?_ onFailure
  intro store value after same revises performed
  obtain ⟨found, rfl⟩ := Prod.mk.inj performed
  obtain rfl := Except.ok.inj found
  rw [same, revises.resourceNames]
  exact onValue

theorem does_listAssociations {repositoryId : Int} {good : List Association → Profile → Prop}
    (here : repositoryId = scene.repositoryId)
    (onValue : ∀ rows, (∀ row, row ∈ rows ↔ row ∈ profile.associations) →
      (∀ row ∈ rows, row.repositoryId = scene.repositoryId) → good rows profile)
    (onFailure : ∀ e, scene.faults e → bad e profile) :
    scene.Does (askStore (.listAssociations repositoryId)) profile good bad := by
  subst here
  refine does_askStore trivial (fun _ => trivial) ?_ onFailure
  intro store value after same revises performed
  obtain ⟨found, rfl⟩ := Prod.mk.inj performed
  obtain rfl := Except.ok.inj found
  subst same
  refine onValue _ (fun row => Store.mem_associationsOf) fun row member => ?_
  exact (Store.mem_associationsOf.mp member).2

theorem does_listTags {repositoryId : Int} {category : TagCategory}
    {good : List Tag → Profile → Prop}
    (here : repositoryId = scene.repositoryId)
    (onValue : ∀ tags, (∀ tag ∈ tags, tag.category = category) →
      (∀ key, (∃ tag ∈ tags, tag.key = key) ↔ key ∈ profile.tags ∧ key.category = category.name) →
        good tags profile)
    (onFailure : ∀ e, scene.faults e → bad e profile) :
    scene.Does (askStore (.listTags repositoryId (some category))) profile good bad := by
  subst here
  refine does_askStore trivial (fun _ => trivial) ?_ onFailure
  intro store value after same revises performed
  obtain ⟨listed, rfl⟩ := Prod.mk.inj performed
  obtain ⟨isOf, borne⟩ := Store.tagsOf_ok listed
  subst same
  exact onValue value isOf borne

theorem does_associate {association : Association} {good : Bool → Profile → Prop}
    (isOf : association.repositoryId = scene.repositoryId)
    (onValue : ∀ isNew, good isNew (profile.associated association))
    (onFailure : ∀ e, scene.faults e → bad e profile) :
    scene.Does (askStore (.associate association)) profile good bad := by
  refine does_askStore isOf (fun _ => trivial) ?_ onFailure
  intro store value after same revises performed
  have ended : (store.associate association).2 = after := (Prod.mk.inj performed).2
  rw [← ended, Store.profile_associate isOf, same]
  exact onValue value

theorem does_dissociate {association : Association} {good : Bool → Profile → Prop}
    (isOf : association.repositoryId = scene.repositoryId)
    (onValue : ∀ present, good present (profile.dissociated association))
    (onFailure : ∀ e, scene.faults e → bad e profile) :
    scene.Does (askStore (.dissociate association)) profile good bad := by
  refine does_askStore isOf (fun _ => trivial) ?_ onFailure
  intro store value after same revises performed
  have ended : (store.dissociate association).2 = after := (Prod.mk.inj performed).2
  rw [← ended, Store.profile_dissociate, same]
  exact onValue value

theorem does_dissociateAll {repositoryId : Int} {good : Nat → Profile → Prop}
    (here : repositoryId = scene.repositoryId)
    (onValue : ∀ count, good count profile.unassociated)
    (onFailure : ∀ e, scene.faults e → bad e profile) :
    scene.Does (askStore (.dissociateAll repositoryId)) profile good bad := by
  subst here
  refine does_askStore rfl (fun _ => trivial) ?_ onFailure
  intro store value after same revises performed
  have ended : (store.dissociateAll scene.repositoryId).2 = after := (Prod.mk.inj performed).2
  rw [← ended, Store.profile_dissociateAll, same]
  exact onValue value

theorem does_unlinkCategory {repositoryId : Int} {category : TagCategory}
    {good : Nat → Profile → Prop}
    (here : repositoryId = scene.repositoryId)
    (onValue : ∀ count, good count (profile.retagged category ∅))
    (onFailure : ∀ e, scene.faults e → bad e profile) :
    scene.Does (askStore (.unlinkCategory repositoryId category)) profile good bad := by
  subst here
  refine does_askStore rfl (fun _ => trivial) ?_ onFailure
  intro store value after same revises performed
  have ended : (store.unlinkCategory scene.repositoryId category).2 = after :=
    (Prod.mk.inj performed).2
  rw [← ended, Store.profile_unlinkCategory (revises.lawful scene.lawful), same]
  exact onValue value

theorem does_setUpdatedAt {repositoryId : Int} {instant : Instant} {good : Unit → Profile → Prop}
    (here : repositoryId = scene.repositoryId)
    (onValue : good () profile) (onFailure : ∀ e, scene.faults e → bad e profile) :
    scene.Does (askStore (.setUpdatedAt repositoryId instant)) profile good bad := by
  subst here
  refine does_askStore rfl (fun _ => trivial) ?_ onFailure
  intro store value after same revises performed
  obtain ⟨-, rfl⟩ := Prod.mk.inj performed
  rw [← same] at onValue
  exact onValue

theorem does_touchMirror {repositoryId : Int} {instant : Instant} {good : Bool → Profile → Prop}
    (here : repositoryId = scene.repositoryId)
    (onValue : ∀ present, good present profile) (onFailure : ∀ e, scene.faults e → bad e profile) :
    scene.Does (askStore (.touchMirror repositoryId instant)) profile good bad := by
  subst here
  refine does_askStore rfl (fun _ => trivial) ?_ onFailure
  intro store value after same revises performed
  obtain ⟨-, rfl⟩ := Prod.mk.inj performed
  rw [← same] at onValue
  exact onValue value

end Scene

namespace Conditions

variable {conditions : Conditions} {α : Type} {program : Program α} {value : α} {last : Course}
  {post : α → Profile → Prop} {store : Store}

def smoothScene (steady : conditions.Steady) (lawful : store.Lawful) (repositoryId : Int) :
    Scene where
  faults _ := False
  faults_ne_cancelled _ fault := fault.elim
  files := conditions.files
  files_ne_cancelled := steady.files_ne_cancelled
  repositoryId := repositoryId
  store := store
  lawful := lawful

def faultyScene (steady : conditions.Steady) (lawful : store.Lawful) (repositoryId : Int) :
    Scene where
  faults e := ∃ message, e = .database message
  faults_ne_cancelled e fault := by
    obtain ⟨message, rfl⟩ := fault
    simp
  files := conditions.files
  files_ne_cancelled := steady.files_ne_cancelled
  repositoryId := repositoryId
  store := store
  lawful := lawful

theorem ends_smoothly {steady : conditions.Steady} {lawful : store.Lawful} {repositoryId : Int}
    (does : (smoothScene steady lawful repositoryId).Runs program (store.profile repositoryId) post)
    (runs : conditions.run program store = (some value, last)) (unfailing : last.Unfailing) :
    store.Revises repositoryId last.store ∧ post value (last.store.profile repositoryId) :=
  leads_unfailing steady (does store rfl (.refl repositoryId store)) runs unfailing

theorem ends_faulty {steady : conditions.Steady} {lawful : store.Lawful} {repositoryId : Int}
    (planned : ∀ number e, conditions.storeFault number = some e → ∃ message, e = .database message)
    (does : (faultyScene steady lawful repositoryId).Runs program (store.profile repositoryId) post)
    (runs : conditions.run program store = (some value, last)) :
    store.Revises repositoryId last.store ∧ post value (last.store.profile repositoryId) :=
  leads_faulty steady planned (fun message => ⟨message, rfl⟩)
    (does store rfl (.refl repositoryId store)) runs

end Conditions

end ModelHub
