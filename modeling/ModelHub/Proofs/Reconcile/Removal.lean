import ModelHub.Proofs.Engine.Keeps
import ModelHub.Proofs.Engine.Transcript
import ModelHub.Proofs.Engine.Unfailing
import ModelHub.Proofs.Reconcile.Belongings
import ModelHub.Proofs.Reconcile.Settlement
import ModelHub.Proofs.Store.Categories
import ModelHub.Proofs.Store.WellFormed

/-! What becomes of a model whose configuration is removed: its associations and framework tags go,
all of them and nothing else, and the outcome counts them.

The tags go one by one, each by its key. A removal that breaks off leaves a store from which the rest
can still be cleared, because no step touches anything but what is to go. -/

namespace ModelHub

def Call.IsFetch : Call → Prop
  | .fetch .. => True
  | _ => False

open Work (askStore keeps_askStore keeps_bind keeps_checkpoint keeps_holding keeps_pure)

namespace Store

/-- The store without the associations and the framework tags of a repository. -/
def cleared (store : Store) (repositoryId : Int) : Store :=
  { store with
    associations := store.associations.filter fun row => !decide (row.repositoryId = repositoryId)
    links := store.links.filter fun link => !store.isLinkOf repositoryId .runtimeFramework link }

def unlinked (store : Store) (repositoryId : Int) (tags : List Tag) : Store :=
  { store with
    links := store.links.filter fun link =>
      link ∉ tags.map fun tag => { repositoryId, tagId := tag.id } }

variable {store : Store} {repositoryId : Int}

theorem cleared_dissociateAll :
    (store.dissociateAll repositoryId).2.cleared repositoryId = store.cleared repositoryId := by
  have associations : (store.dissociateAll repositoryId).2.associations.filter
        (fun row => !decide (row.repositoryId = repositoryId)) =
      store.associations.filter fun row => !decide (row.repositoryId = repositoryId) := by
    simp [dissociateAll, deleteWhere, List.filter_filter]
  exact congrArg (fun rows => { store.cleared repositoryId with associations := rows }) associations

/-- A framework tag that is unlinked first would have gone anyway. -/
theorem cleared_unlink {tagId : Int} (isFramework : store.hasCategory .runtimeFramework tagId) :
    (store.unlink repositoryId tagId).2.cleared repositoryId = store.cleared repositoryId := by
  have links : (store.unlink repositoryId tagId).2.links.filter
        (fun link => !store.isLinkOf repositoryId .runtimeFramework link) =
      store.links.filter fun link => !store.isLinkOf repositoryId .runtimeFramework link := by
    show (store.links.filter _).filter _ = _
    rw [List.filter_filter]
    refine List.filter_congr fun link _ => ?_
    by_cases isThis : link = { repositoryId, tagId }
    · simp [isThis, isLinkOf, isFramework]
    · simp [isThis]
  exact congrArg (fun rows => { store.cleared repositoryId with links := rows }) links

theorem associationsOf_cleared : (store.cleared repositoryId).associationsOf repositoryId = [] := by
  have none : (store.cleared repositoryId).associations.filter
      (fun row => row.repositoryId = repositoryId) = [] := by
    simp [cleared, List.filter_filter]
  rw [associationsOf, none, List.mergeSort_nil]

theorem tagsOf_cleared :
    (store.cleared repositoryId).tagsOf repositoryId (some .runtimeFramework) = .ok [] := by
  have none : (store.cleared repositoryId).tagRowsOf repositoryId (some .runtimeFramework) = [] := by
    refine List.eq_nil_iff_forall_not_mem.mpr fun row member => ?_
    obtain ⟨present, linked, isOf⟩ := mem_tagRowsOf.mp member
    have isFramework := hasCategory_eq_true.mpr ⟨row, present, rfl, isOf _ rfl⟩
    have kept := (List.mem_filter.mp linked).2
    simp only [isLinkOf, decide_true, Bool.true_and, Bool.not_eq_true'] at kept
    exact Bool.false_ne_true (kept.symm.trans isFramework)
  rw [tagsOf, none]
  rfl

theorem findRepository_congr {other : Store} (repositories : other.repositories = store.repositories)
    (mirrors : other.mirrors = store.mirrors) (repoType : RepoType) (owner name : String) :
    other.findRepository repoType owner name = store.findRepository repoType owner name := by
  simp only [findRepository, repositoryRow?, readRepository, mirror?, repositories, mirrors]

theorem perm_of_tagsOf (lawful : store.Lawful) {tags : List Tag}
    (listed : store.tagsOf repositoryId (some .runtimeFramework) = .ok tags) :
    (tags.map fun tag => ({ repositoryId, tagId := tag.id } : TagLink)).Perm
      (store.links.filter (store.isLinkOf repositoryId .runtimeFramework)) := by
  obtain ⟨origin, image⟩ := mapM_ok listed
  have nodup : (tags.map fun tag => ({ repositoryId, tagId := tag.id } : TagLink)).Nodup := by
    have links := (tagsOf_nodup lawful listed).map (f := TagLink.mk repositoryId) fun _ _ same =>
      congrArg TagLink.tagId same
    rwa [List.map_map] at links
  refine (List.perm_ext_iff_of_nodup nodup (lawful.links.filter _)).mpr fun link => ?_
  rw [List.mem_map, List.mem_filter]
  constructor
  · rintro ⟨tag, member, rfl⟩
    obtain ⟨row, rowMember, read⟩ := origin tag member
    obtain ⟨present, linked, isOf⟩ := mem_tagRowsOf.mp rowMember
    rw [(TagRow.read_ok read).1]
    have isFramework := (hasCategory_iff lawful present .runtimeFramework).mpr (isOf _ rfl)
    exact ⟨linked, by simp [isLinkOf, isFramework]⟩
  · rintro ⟨linked, isFramework⟩
    simp only [isLinkOf, Bool.and_eq_true, decide_eq_true_eq] at isFramework
    obtain ⟨rfl, isOf⟩ := isFramework
    obtain ⟨row, present, id, named⟩ := hasCategory_eq_true.mp isOf
    have rowMember : row ∈ store.tagRowsOf link.repositoryId (some .runtimeFramework) := by
      refine mem_tagRowsOf.mpr ⟨present, id ▸ linked, ?_⟩
      rintro category same
      obtain rfl := Option.some.inj same
      exact named
    obtain ⟨tag, member, read⟩ := image row rowMember
    exact ⟨tag, member, by rw [(TagRow.read_ok read).1, id]⟩

theorem tagsOf_lists {category : TagCategory} {tags : List Tag}
    (listed : store.tagsOf repositoryId (some category) = .ok tags) :
    ∀ tag ∈ tags, store.Lists tag ∧ tag.category = category := by
  intro tag member
  obtain ⟨row, rowMember, read⟩ := (mapM_ok listed).1 tag member
  obtain ⟨id, key, -⟩ := TagRow.read_ok read
  exact ⟨⟨row, (mem_tagRowsOf.mp rowMember).1, id.symm, key.symm⟩, (tagsOf_ok listed).1 tag member⟩

theorem Lawful.findTag?_eq (lawful : store.Lawful) {tag : Tag} (listed : store.Lists tag) :
    store.findTag? tag.scope tag.category tag.group tag.name = some tag := by
  obtain ⟨row, present, id, key⟩ := listed
  cases found : store.findTag? tag.scope tag.category tag.group tag.name with
  | none => exact absurd key (findTag?_eq_none found row present)
  | some other =>
    obtain ⟨⟨otherRow, otherPresent, otherId, otherKey⟩, isKey⟩ := findTag?_eq_some found
    obtain rfl := lawful.tag_of_key present otherPresent (key.trans (isKey.symm.trans otherKey.symm))
    obtain ⟨scope, category, group, name⟩ := Tag.parts_of_key isKey
    have sameId : other.id = tag.id := otherId.symm.trans id
    cases other
    cases tag
    simp_all

end Store

namespace Reconcile

variable {store : Store} {repositoryId : Int} {config : SyncConfig} {identity : RepoIdentity}
  {repository : Repository}

theorem sure_leads_unlinkAll (lawful : store.Lawful) {tags : List Tag}
    (distinct : (tags.map Tag.id).Nodup)
    (listed : ∀ tag ∈ tags, store.Lists tag ∧ tag.category = .runtimeFramework)
    (linked : ∀ tag ∈ tags, ({ repositoryId, tagId := tag.id } : TagLink) ∈ store.links) :
    Work.Leads Store.sureAnswers (unlinkAll repositoryId tags) store
      (fun count after => count = tags.length ∧ after = store.unlinked repositoryId tags)
      fun _ _ => False := by
  induction tags generalizing store with
  | nil =>
    refine ⟨rfl, ?_⟩
    simp [Store.unlinked]
  | cons tag rest ih =>
    obtain ⟨⟨listedFirst, isFramework⟩, listedRest⟩ := List.forall_mem_cons.mp listed
    obtain ⟨linkedFirst, linkedRest⟩ := List.forall_mem_cons.mp linked
    obtain ⟨fresh, distinctRest⟩ := List.nodup_cons.mp distinct
    have isFound := lawful.findTag?_eq listedFirst
    rw [isFramework] at isFound
    have rest := ih (lawful.unlink repositoryId tag.id) distinctRest listedRest fun other member => by
      refine mem_deleteRow.mpr ⟨fun same => fresh ?_, linkedRest other member⟩
      have sameId : other.id = tag.id := congrArg TagLink.tagId same
      exact sameId ▸ List.mem_map_of_mem member
    refine Work.leads_bind.mpr (Work.leads_bind.mpr (Work.sure_leads_storeCall ?_))
    intro found _ performed
    obtain ⟨answer, rfl⟩ := Prod.mk.inj performed
    rw [isFound] at answer
    obtain rfl := Except.ok.inj answer
    refine Work.sure_leads_storeCall ?_
    intro present _ performedUnlink
    obtain ⟨wasLinked, rfl⟩ := Prod.mk.inj performedUnlink
    obtain rfl : true = present := by
      rw [← Except.ok.inj wasLinked]
      exact (decide_eq_true linkedFirst).symm
    refine Work.leads_bind.mpr (rest.mono ?_ fun _ _ => id)
    rintro count _ ⟨rfl, rfl⟩
    refine ⟨rfl, ?_⟩
    simp only [Store.unlinked, Store.unlink, deleteRow, List.filter_filter, List.map_cons,
      List.mem_cons, not_or, Bool.decide_and, Bool.and_comm]

theorem sure_leads_clear (lawful : store.Lawful) (repository : Repository) :
    Work.Leads Store.promptAnswers (clear repository) store
      (fun outcome after =>
        outcome = .cleared (store.associations.countP fun row => row.repositoryId = repository.id)
          (store.links.countP (store.isLinkOf repository.id .runtimeFramework)) ∧
        after = store.cleared repository.id)
      fun _ _ => False := by
  refine Work.leads_bind.mpr (Work.prompt_leads_checkpoint ?_)
  refine Work.prompt_of_sure_leads ?_
  refine Work.leads_bind.mpr (Work.sure_leads_storeCall ?_)
  intro rows _ performed
  obtain ⟨counted, rfl⟩ := Prod.mk.inj performed
  obtain rfl := Except.ok.inj counted
  refine Work.leads_bind.mpr (Work.sure_leads_storeCall ?_)
  intro tags _ performedList
  obtain ⟨listed, rfl⟩ := Prod.mk.inj performedList
  have lawfulThen := lawful.dissociateAll repository.id
  have exactly := Store.perm_of_tagsOf lawfulThen listed
  have linked : ∀ tag ∈ tags, ({ repositoryId := repository.id, tagId := tag.id } : TagLink) ∈
      (store.dissociateAll repository.id).2.links :=
    fun tag member => (List.mem_filter.mp (exactly.subset (List.mem_map_of_mem member))).1
  have unlinks := sure_leads_unlinkAll lawfulThen (Store.tagsOf_nodup lawfulThen listed)
    (Store.tagsOf_lists listed) linked
  refine Work.leads_bind.mpr (unlinks.mono ?_ fun _ _ => id)
  rintro count _ ⟨rfl, rfl⟩
  have links : ∀ link ∈ store.links,
      link ∈ tags.map (fun tag => ({ repositoryId := repository.id, tagId := tag.id } : TagLink)) ↔
        store.isLinkOf repository.id .runtimeFramework link := by
    intro link member
    rw [exactly.mem_iff, List.mem_filter]
    exact and_iff_right member
  constructor
  · have many : tags.length = store.links.countP (store.isLinkOf repository.id .runtimeFramework) := by
      have same := exactly.length_eq
      rwa [List.length_map, ← List.countP_eq_length_filter] at same
    rw [many]
  · have left : store.links.filter (fun link => link ∉ tags.map fun tag =>
          ({ repositoryId := repository.id, tagId := tag.id } : TagLink)) =
        store.links.filter fun link => !store.isLinkOf repository.id .runtimeFramework link := by
      refine List.filter_congr fun link member => ?_
      simp only [links link member, Bool.not_eq_true, Bool.decide_eq_false]
    exact congrArg (fun rows => { store.cleared repository.id with links := rows }) left

/-- The reconciliation that the removal of the configuration sets off on the default reference. -/
def removal (config : SyncConfig) (identity : RepoIdentity) (repository : Repository) :
    Work Outcome :=
  reconcile config identity (expectedReference config repository) modelConfigFile .removed

theorem prompt_leads_removal (lawful : store.Lawful) (isModel : identity.repoType = some .model)
    (found : store.findRepository .model identity.owner identity.name = .ok (some repository)) :
    Work.Leads Store.promptAnswers (removal config identity repository) store
      (fun outcome after =>
        outcome = .cleared (store.associations.countP fun row => row.repositoryId = repository.id)
          (store.links.countP (store.isLinkOf repository.id .runtimeFramework)) ∧
        after = store.cleared repository.id)
      fun _ _ => False := by
  have triggered : triggers identity modelConfigFile = true := by simp [triggers, isModel]
  unfold removal reconcile
  rw [triggered]
  refine Work.leads_bind.mpr (Work.prompt_of_sure_leads (Tagging.sure_leads_findRepository ?_ ?_))
  · intro other foundThen
    obtain rfl := Option.some.inj (Except.ok.inj (found.symm.trans foundThen))
    rw [if_neg fun differs => differs rfl]
    exact Work.prompt_leads_holding (sure_leads_clear lawful repository)
  · intro absent
    cases found.symm.trans absent

/-- What a removal may leave of a store: something that can be cleared to the same state. -/
structure Remnant (start : Store) (repositoryId : Int) (store : Store) : Prop where
  lawful : store.Lawful
  cleared : store.cleared repositoryId = start.cleared repositoryId

variable {start : Store}

theorem Remnant.findRepository (remnant : Remnant start repositoryId store) (repoType : RepoType)
    (owner name : String) :
    store.findRepository repoType owner name = start.findRepository repoType owner name :=
  Store.findRepository_congr (congrArg Store.repositories remnant.cleared :)
    (congrArg Store.mirrors remnant.cleared :) repoType owner name

theorem keeps_unlinkFramework (scope : TagScope) (group name : String) :
    Work.Keeps (Remnant start repositoryId)
      (Tagging.unlink repositoryId scope .runtimeFramework group name) fun _ => True := by
  refine Work.keeps_of_leads fun store remnant => ?_
  refine Work.leads_bind.mpr (Work.leads_storeCall ?_ fun _ => remnant)
  intro found _ performed
  obtain ⟨answer, rfl⟩ := Prod.mk.inj performed
  cases found with
  | none => exact ⟨remnant, trivial⟩
  | some tag =>
    have isFound := Except.ok.inj answer
    have isFramework := (Store.findTag?_eq_some isFound).1.hasCategory
    rw [(Store.findTag?_parts isFound).2] at isFramework
    refine Work.leads_storeCall ?_ fun _ => remnant
    intro present _ unlinked
    obtain ⟨-, rfl⟩ := Prod.mk.inj unlinked
    exact ⟨⟨remnant.lawful.unlink repositoryId tag.id,
      (Store.cleared_unlink isFramework).trans remnant.cleared⟩, trivial⟩

theorem keeps_unlinkAll (tags : List Tag) :
    Work.Keeps (Remnant start repositoryId) (unlinkAll repositoryId tags) fun _ => True := by
  induction tags with
  | nil => exact keeps_pure trivial
  | cons tag rest ih =>
    exact keeps_bind (keeps_unlinkFramework _ _ _) fun _ _ => keeps_bind ih fun _ _ => keeps_pure trivial

theorem keeps_clear (repository : Repository) :
    Work.Keeps (Remnant start repository.id) (clear repository) fun _ => True := by
  refine keeps_bind keeps_checkpoint fun _ _ => keeps_bind (keeps_askStore ?_) fun _ _ => ?_
  · intro store remnant
    exact ⟨remnant.lawful.dissociateAll repository.id,
      Store.cleared_dissociateAll.trans remnant.cleared⟩
  · refine keeps_bind (keeps_askStore fun _ => id) fun tags _ => ?_
    exact keeps_bind (keeps_unlinkAll tags) fun _ _ => keeps_pure trivial

theorem leads_removal (lawful : start.Lawful)
    (found : start.findRepository .model identity.owner identity.name = .ok (some repository)) :
    Work.Leads Store.anyAnswers (removal config identity repository) start
      (fun _ after => Remnant start repository.id after)
      fun _ after => Remnant start repository.id after := by
  have initially : Remnant start repository.id start := ⟨lawful, rfl⟩
  unfold removal reconcile
  split
  · exact initially
  · refine Work.leads_bind.mpr (Work.leads_bind.mpr (Work.leads_storeCall ?_ fun _ => initially))
    intro answer _ performed
    obtain ⟨answered, rfl⟩ := Prod.mk.inj performed
    obtain rfl := Except.ok.inj (answered.symm.trans found)
    refine Work.leads_pure.mpr ?_
    rw [if_neg fun differs => differs rfl]
    have kept : Work.Keeps (Remnant start repository.id)
        (Work.holding repository.id (clear repository)) fun _ => True :=
      keeps_holding (keeps_clear repository)
    exact (Work.leads_of_keeps kept initially).mono (fun _ _ => And.left) fun _ _ => id

theorem abides_removal :
    Work.Abides (fun call _ => ¬call.IsFetch) (removal config identity repository) := by
  have found : Work.Abides (fun call _ => ¬call.IsFetch)
      (Tagging.findRepository .model identity.owner identity.name) := by
    refine Work.abides_bind (Work.abides_askStore fun _ => id) fun found => ?_
    cases found <;> exact fun _ => trivial
  unfold removal reconcile
  split
  · exact fun _ => trivial
  · refine Work.abides_bind found fun repository => ?_
    dsimp only
    split
    · exact fun _ => trivial
    · refine Work.abides_holding (fun _ => id) (fun _ => id) (fun _ => id) ?_
      refine (abides_clear repository).mono fun call _ belongs isFetch => ?_
      cases call with
      | fetch => exact belongs
      | _ => exact isFetch

theorem run_removal {surroundings : Surroundings} {outcome : Except HubError Outcome}
    {dialogue : Dialogue} (never : surroundings.NeverCancels) (lawful : store.Lawful)
    (isModel : identity.repoType = some .model)
    (found : store.findRepository .model identity.owner identity.name = .ok (some repository))
    (ran : surroundings.run (Work.attempt (removal config identity repository)) store =
      (outcome, dialogue))
    (unfailing : dialogue.Unfailing) :
    outcome = .ok (.cleared
        (store.associations.countP fun row => row.repositoryId = repository.id)
        (store.links.countP (store.isLinkOf repository.id .runtimeFramework))) ∧
      dialogue.store = store.cleared repository.id := by
  have ended := never.attempt_of_prompt_leads (prompt_leads_removal lawful isModel found) ran unfailing
  cases outcome with
  | error e => exact ended.elim
  | ok value => exact ⟨congrArg Except.ok ended.1, ended.2⟩

/-- When the configuration of a model is removed, no file is asked for, and all its associations and
framework tags go and are counted, be they in the catalogue or not. It makes no difference if the same
was begun before and broke off anywhere. -/
theorem removal_clears {surroundings : Surroundings} {outcome : Except HubError Outcome}
    {dialogue : Dialogue} (never : surroundings.NeverCancels) (lawful : store.Lawful)
    (isModel : identity.repoType = some .model)
    (found : store.findRepository .model identity.owner identity.name = .ok (some repository))
    (ran : surroundings.run (Work.attempt (removal config identity repository)) store =
      (outcome, dialogue))
    (unfailing : dialogue.Unfailing) :
    outcome = .ok (.cleared
        (store.associations.countP fun row => row.repositoryId = repository.id)
        (store.links.countP (store.isLinkOf repository.id .runtimeFramework))) ∧
      (∀ exchange ∈ dialogue.exchanges, ¬exchange.call.IsFetch) ∧
      dialogue.store = store.cleared repository.id ∧
      dialogue.store.associationsOf repository.id = [] ∧
      dialogue.store.tagsOf repository.id (some .runtimeFramework) = .ok [] ∧
      ∀ earlier later : Surroundings, later.NeverCancels → ∀ outcomeAgain again,
        later.run (Work.attempt (removal config identity repository))
          (earlier.run (Work.attempt (removal config identity repository)) store).2.store =
            (outcomeAgain, again) →
        again.Unfailing → again.store = dialogue.store := by
  obtain ⟨counted, isCleared⟩ := run_removal never lawful isModel found ran unfailing
  have noFetch := Surroundings.allowed_of_run (abides_removal store) ran
  refine ⟨counted, fun exchange member => (noFetch exchange member).choose_spec, isCleared, ?_, ?_, ?_⟩
  · rw [isCleared, Store.associationsOf_cleared]
  · rw [isCleared, Store.tagsOf_cleared]
  · intro earlier later neverAgain outcomeAgain again ranAgain unfailingAgain
    have leadsEarlier : Work.Leads Store.anyAnswers (removal config identity repository) store _ _ :=
      leads_removal lawful found
    -- Whatever the earlier removal left can be cleared to the same store.
    have remnant := earlier.run_of_leads leadsEarlier.attempt
    have isThere := (remnant.findRepository .model identity.owner identity.name).trans found
    obtain ⟨-, same⟩ := run_removal neverAgain remnant.lawful isModel isThere ranAgain unfailingAgain
    rw [same, isCleared, remnant.cleared]

def unlinkless : Surroundings :=
  { Surroundings.calm bertFiles with
    storeFault := fun _ request =>
      match request with
      | .unlink .. => some (.database "disk full")
      | _ => none }

def bertRemoval (surroundings : Surroundings) (store : Store) : Except HubError Outcome × Dialogue :=
  surroundings.run (Work.attempt (removal {} bertIdentity bert)) store

theorem calm_neverCancels : (Surroundings.calm bertFiles).NeverCancels :=
  ⟨fun _ => rfl, fun _ _ => rfl⟩

/-- A removal that fails at the first tag, and another one behind it. -/
theorem outdated_is_cleared :
    (bertRemoval (.calm bertFiles) outdated).1 = .ok (.cleared 1 1) ∧
      (bertRemoval unlinkless outdated).1 = .error (.database "disk full") ∧
      (bertRemoval (.calm bertFiles) (bertRemoval unlinkless outdated).2.store).2.store =
        (bertRemoval (.calm bertFiles) outdated).2.store := by
  have found : outdated.findRepository .model bertIdentity.owner bertIdentity.name =
      .ok (some bert) := by decide +kernel
  obtain ⟨counted, -, -, -, -, again⟩ := removal_clears calm_neverCancels outdated_lawful rfl found
    (Prod.eta (bertRemoval (.calm bertFiles) outdated)).symm (by decide +kernel)
  refine ⟨counted, by decide +kernel, ?_⟩
  exact again unlinkless _ calm_neverCancels _ _ rfl (by decide +kernel)

end Reconcile

end ModelHub
