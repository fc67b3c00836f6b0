import ModelHub.Proofs.Push.Effect
import ModelHub.Proofs.Push.Reachable
import ModelHub.Proofs.Reconcile.Settlement

/-! How the framework tags of a model match its associations after a push that reconciled it.

The tag of a framework is linked along with a new association only. So a framework whose tag name
was changed since goes untagged where its association stays: the old name is pruned, the new one is
never linked. -/

namespace ModelHub

/-- The framework tags are named as the catalogue names the associated frameworks now. -/
def Profile.Mirrors (profile : Profile) (store : Store) : Prop :=
  profile.frameworkNames = store.tagNames profile.frameworkIds

/-- Each association that stays has the present tag name of its framework among the names before, or
a new association brings that name. -/
def Store.KeepsNames (store : Store) (before after : Profile) : Prop :=
  ∀ row ∈ before.associations, row ∈ after.associations →
    ∀ framework, store.framework? row.frameworkId = some framework →
      framework.tagName ∈ before.frameworkNames ∨
        ∃ other ∈ after.associations, other ∉ before.associations ∧
          ∃ sibling, store.framework? other.frameworkId = some sibling ∧
            sibling.tagName = framework.tagName

variable {store : Store} {plan : Plan} {before after profile : Profile}

theorem Profile.mirrors_congr (agree : profile.frameworkPart = after.frameworkPart) :
    profile.Mirrors store ↔ after.Mirrors store := by
  have ids : profile.frameworkIds = after.frameworkIds := by
    unfold Profile.frameworkIds Profile.Holds
    rw [Profile.associations_congr agree]
  unfold Profile.Mirrors
  rw [Profile.frameworkNames_congr agree, ids]

namespace Plan

theorem frameworkIds_settled : (plan.settled before).frameworkIds = {id | plan.Offers id} := by
  ext id
  constructor
  · intro holds
    obtain ⟨row, member, rfl⟩ := holds
    exact settled_offered member
  · intro offers
    obtain ⟨framework, offered, rfl⟩ := offers
    exact settled_holds offered

theorem IsFrom.mem_tagNames (isFrom : plan.IsFrom store) {name : String} :
    name ∈ store.tagNames (plan.settled before).frameworkIds ↔
      ∃ framework ∈ plan.offer, framework.tagName = name := by
  rw [frameworkIds_settled]
  constructor
  · intro named
    obtain ⟨id, ⟨framework, offered, rfl⟩, other, found, same⟩ := named
    obtain rfl := isFrom.eq_of_found offered found
    exact ⟨framework, offered, same⟩
  · intro named
    obtain ⟨framework, offered, same⟩ := named
    exact ⟨framework.id, ⟨framework, offered, rfl⟩, framework, isFrom framework offered, same⟩

theorem IsFrom.settled_mirrors_iff (isFrom : plan.IsFrom store) :
    (plan.settled before).Mirrors store ↔
      ∀ framework ∈ plan.offer, before.Holds framework.id →
        framework.tagName ∈ before.frameworkNames ∨
          ∃ other, plan.Lacks before other ∧ other.tagName = framework.tagName := by
  unfold Profile.Mirrors
  rw [frameworkNames_settled]
  constructor
  · intro mirrors framework offered _
    have named : framework.tagName ∈ store.tagNames (plan.settled before).frameworkIds :=
      isFrom.mem_tagNames.mpr ⟨framework, offered, rfl⟩
    rw [← mirrors] at named
    exact named.imp And.left id
  · intro covered
    ext name
    rw [isFrom.mem_tagNames]
    constructor
    · intro named
      rcases named with old | new
      · exact old.2
      · obtain ⟨framework, lacks, same⟩ := new
        exact ⟨framework, lacks.1, same⟩
    · intro named
      obtain ⟨framework, offered, rfl⟩ := named
      by_cases holds : before.Holds framework.id
      · exact (covered framework offered holds).imp (fun old => ⟨old, framework, offered, rfl⟩) id
      · exact Or.inr ⟨framework, ⟨offered, holds⟩, rfl⟩

theorem IsFrom.settled_mirrors (isFrom : plan.IsFrom store) (mirrors : before.Mirrors store) :
    (plan.settled before).Mirrors store := by
  refine isFrom.settled_mirrors_iff.mpr fun framework offered holds => Or.inl ?_
  have named : framework.tagName ∈ store.tagNames before.frameworkIds :=
    ⟨framework.id, holds, framework, isFrom framework offered, rfl⟩
  exact mirrors.symm ▸ named

theorem IsFrom.keepsNames_iff (isFrom : plan.IsFrom store)
    (isAfter : after.associations = (plan.settled before).associations) :
    store.KeepsNames before after ↔ (plan.settled before).Mirrors store := by
  rw [isFrom.settled_mirrors_iff]
  constructor
  · intro keeps framework offered holds
    obtain ⟨row, member, same⟩ := holds
    have stays : row ∈ after.associations := by
      rw [isAfter]
      exact Or.inl ⟨member, framework, offered, same.symm⟩
    have found := isFrom framework offered
    rcases keeps row member stays framework (same ▸ found) with old | new
    · exact Or.inl old
    · obtain ⟨other, isOther, isNew, sibling, foundSibling, sameName⟩ := new
      rw [isAfter] at isOther
      rcases isOther with kept | added
      · exact absurd kept.1 isNew
      · obtain ⟨lacking, lacks, rfl⟩ := added
        obtain rfl := isFrom.eq_of_found lacks.1 foundSibling
        exact Or.inr ⟨lacking, lacks, sameName⟩
  · intro covered row member stays framework found
    rw [isAfter] at stays
    obtain ⟨offered, isOffered, same⟩ := settled_offered stays
    obtain rfl : offered = framework := isFrom.eq_of_found isOffered (same ▸ found)
    rcases covered offered isOffered ⟨row, member, same.symm⟩ with old | new
    · exact Or.inl old
    · obtain ⟨lacking, lacks, sameName⟩ := new
      refine Or.inr ⟨lacking.association plan.repositoryId, ?_, ?_, lacking,
        isFrom lacking lacks.1, sameName⟩
      · rw [isAfter]
        exact Or.inr ⟨lacking, lacks, rfl⟩
      · intro present
        exact lacks.2 ⟨_, present, rfl⟩

end Plan

namespace Change

variable {change : Change} {changes : List Change}

theorem clear_mirrors (store : Store) (profile : Profile) :
    (clear.apply profile).Mirrors store := by
  have part := frameworkPart_clear profile
  have associations : (clear.apply profile).associations = ∅ := congrArg Profile.associations part
  ext name
  rw [Profile.mem_frameworkNames, part]
  refine iff_of_false ?_ ?_
  · intro named
    obtain ⟨key, member, -⟩ := named
    exact member
  · intro named
    obtain ⟨id, ⟨row, member, -⟩, -⟩ := named
    rw [associations] at member
    exact member

theorem apply_mirrors (isFrom : ∀ plan, change = settle plan → plan.IsFrom store)
    (mirrors : profile.Mirrors store) : (change.apply profile).Mirrors store := by
  cases change with
  | settle plan => exact (isFrom plan rfl).settled_mirrors mirrors
  | clear => exact clear_mirrors store profile
  | _ => exact (Profile.mirrors_congr (frameworkPart_apply rfl profile)).mpr mirrors

theorem result_mirrors (isFrom : ∀ plan, settle plan ∈ changes → plan.IsFrom store)
    (mirrors : profile.Mirrors store) : (result changes profile).Mirrors store := by
  induction changes generalizing profile with
  | nil => exact mirrors
  | cons change rest ih =>
    refine ih (fun plan member => isFrom plan (List.mem_cons_of_mem change member)) ?_
    exact apply_mirrors (fun plan same => isFrom plan (same ▸ List.mem_cons_self)) mirrors

/-- Once everything was cleared, all tags are linked along with their associations. -/
theorem result_mirrors_of_clear (isFrom : ∀ plan, settle plan ∈ changes → plan.IsFrom store)
    (cleared : clear ∈ changes) (profile : Profile) : (result changes profile).Mirrors store := by
  induction changes generalizing profile with
  | nil => cases cleared
  | cons change rest ih =>
    have isFromRest : ∀ plan, settle plan ∈ rest → plan.IsFrom store := fun plan member =>
      isFrom plan (List.mem_cons_of_mem change member)
    rcases List.mem_cons.mp cleared with rfl | later
    · show (result rest (clear.apply profile)).Mirrors store
      exact result_mirrors isFromRest (clear_mirrors store profile)
    · exact ih isFromRest later _

end Change

namespace Push

variable {conditions : Conditions} {options : Options} {event : PushEvent}
  {place : RepositoryPlace} {action : FileAction} {content architecture : String}
  {outcome : Option PushResult} {last : Course}

/-- In every store there can be, a push that reconciles a model makes its framework tags match its
associations if and only if the push also removes the configuration, or no association that stays is
with a framework whose tag name is new to the model. -/
theorem reconciled_mirrors_iff (reachable : store.Reachable) (steady : conditions.Steady)
    (configures : event.Configures store options.config action place)
    (notRemoved : action ≠ .removed)
    (fetched : conditions.files (place.configRequest event.reference) = .ok content)
    (declared : ModelConfig.architecture content = .ok architecture)
    (runs : conditions.run (handle options event) store = (outcome, last))
    (unfailing : last.Unfailing) :
    (last.store.profile place.id).Mirrors last.store ↔
      (∃ model, event.Configures store options.config .removed model) ∨
        store.KeepsNames (store.profile place.id) (last.store.profile place.id) := by
  have lawful := reachable.lawful
  have targets : ∀ other, event.target? store = some other → other.id = place.id := by
    intro other found
    rw [Option.some.inj (configures.target.symm.trans found)]
  obtain ⟨revises, profile⟩ := profile_of_unfailing steady lawful targets runs unfailing
  -- A push leaves the catalogue alone, so its names may be read before or behind it.
  have catalogue : ∀ ids, last.store.tagNames ids = store.tagNames ids := by
    intro ids
    unfold Store.tagNames
    simp only [revises.framework?]
  have sameNames : (last.store.profile place.id).Mirrors last.store ↔
      (last.store.profile place.id).Mirrors store := by
    unfold Profile.Mirrors
    rw [catalogue]
  have isFrom : ∀ plan, .settle plan ∈
      Agenda.changes store options.config conditions.files event → plan.IsFrom store :=
    fun plan => Agenda.isFrom_of_settle lawful
  rw [sameNames, profile]
  by_cases cleared : ∃ model, event.Configures store options.config .removed model
  · exact iff_of_true
      (Change.result_mirrors_of_clear isFrom (Agenda.clear_mem_changes.mpr cleared) _)
      (Or.inl cleared)
  have settles : .settle (store.plan place architecture) ∈
      Agenda.changes store options.config conditions.files event := by
    refine Agenda.settle_mem_changes.mpr
      ⟨place, action, configures, notRemoved, architecture, ?_, rfl⟩
    rw [fetched]
    exact declared
  have uncleared : .clear ∉ Agenda.changes store options.config conditions.files event :=
    fun member => cleared (Agenda.clear_mem_changes.mp member)
  obtain ⟨-, uniform⟩ := Agenda.changes_coherent lawful _ _ event _ settles
  have part := Change.result_part_of_settle uncleared uniform settles (store.profile place.id)
  rw [← Plan.settled_frameworkPart] at part
  rw [or_iff_right cleared,
    (isFrom _ settles).keepsNames_iff (Profile.associations_congr part)]
  exact Profile.mirrors_congr part

/-- The framework of the model got another tag name after it was associated. -/
def renamed : Store :=
  ((Conditions.calm bertFiles).run (handle .plain bertPush) Store.bert).2.store.upsertFramework
    { id := 7, name := "vLLM", tagName := "vllm-next", frameworkType := 1 }

theorem renamed_reachable : renamed.Reachable :=
  .upsertFramework _ (.push _ _ _ Store.bert_reachable)

def renamedPush : Option PushResult × Course :=
  (Conditions.calm bertFiles).run (handle .plain bertPush) renamed

theorem renamed_goes_untagged :
    ¬(renamedPush.2.store.profile bertPlace.id).Mirrors renamedPush.2.store := by
  have target : bertPush.target? renamed = some bertPlace := by decide +kernel
  have touched : (FileAction.modified, modelConfigFile) ∈ bertPush.handled := by decide +kernel
  have reference : bertPush.reference = bertPlace.expectedReference Options.plain.config := by
    decide +kernel
  have unfailing : renamedPush.2.Unfailing := by decide +kernel
  intro mirrors
  have kept := (@reconciled_mirrors_iff renamed (.calm bertFiles) .plain bertPush bertPlace
    .modified bertConfig "BertModel" renamedPush.1 renamedPush.2 renamed_reachable bertFiles_steady
    ⟨target, rfl, reference, touched⟩ (by decide) rfl bertConfig_architecture
    (Prod.eta renamedPush).symm unfailing).mp mirrors
  rcases kept with ⟨model, cleared⟩ | keepsNames
  · have untouched : (FileAction.removed, modelConfigFile) ∉ bertPush.handled := by decide +kernel
    exact untouched cleared.touched
  · let row : Association := { repositoryId := 1, frameworkId := 7, associationType := 1 }
    have before : row ∈ renamed.associations := by decide +kernel
    have after : row ∈ renamedPush.2.store.associations := by decide +kernel
    have found : renamed.framework? row.frameworkId =
        some { id := 7, name := "vLLM", tagName := "vllm-next", frameworkType := 1 } := by
      decide +kernel
    have otherNames : ∀ tag ∈ renamed.tags, tag.name ≠ "vllm-next" := by decide +kernel
    have nothingNew : renamedPush.2.store.associations = renamed.associations := by decide +kernel
    rcases keepsNames row ⟨before, rfl⟩ ⟨after, rfl⟩ _ found with named | shared
    · obtain ⟨_, ⟨tag, member, rfl, -⟩, -, name⟩ := named
      exact otherNames tag member name
    · obtain ⟨other, member, absent, -⟩ := shared
      exact absent ⟨nothingNew ▸ member.1, member.2⟩

end Push

end ModelHub
