import ModelHub.Proofs.Reconcile.Desired

/-! What the phases of a reconciliation do to a profile: the resources, the removals, the additions
and the pruning of tags. Each of them keeps within what the plan asks for, whatever fails, and each
of them is complete if nothing fails. -/

namespace ModelHub

open Work (attemptEach)

namespace Scene

variable {scene : Scene} {profile first : Profile} {bad : HubError → Profile → Prop}

def Smooth (scene : Scene) : Prop := ∀ e, ¬scene.faults e

theorem failures_nil {failures : List HubError} (excused : ∀ e ∈ failures, scene.faults e)
    (smooth : scene.Smooth) : failures = [] := by
  apply List.eq_nil_iff_forall_not_mem.mpr
  intro e member
  exact smooth e (excused e member)

theorem does_linkResources {repositoryId : Int} (here : repositoryId = scene.repositoryId)
    (resources : List String) {good : Work.Attempts String → Profile → Prop}
    (onValue : ∀ attempts after, (∀ e ∈ attempts.failures, scene.faults e) →
      (Change.equip resources).Outcome scene.faults profile after → good attempts after) :
    scene.Does (attemptEach (Reconcile.linkResource repositoryId) resources) profile good bad := by
  refine does_attemptEach (fun rest after =>
    (∀ resource ∈ rest, resource ∈ resources) ∧
      Profile.AgreeBut (Change.equip resources).Decides profile after ∧
      (scene.Smooth → ∀ resource ∈ resources, resource ∈ rest ∨ resourceKey resource ∈ after.tags))
    ⟨fun _ member => member, .refl _ _, fun _ _ member => Or.inl member⟩ ?_ ?_
  · intro resource rest middle held
    obtain ⟨listed, agree, linked⟩ := held
    have listedRest := fun other member => listed other (List.mem_cons_of_mem resource member)
    have decides : (Change.equip resources).Decides (resourceKey resource) :=
      ⟨resource, listed resource List.mem_cons_self, rfl⟩
    have agreeTagged := agree.trans (.tagged decides middle)
    refine does_bind (does_link here ?_ ?_)
    · intro isNew
      refine does_pure ⟨listedRest, agreeTagged, ?_⟩
      intro smooth other otherListed
      rcases linked smooth other otherListed with waiting | done
      · rcases List.mem_cons.mp waiting with same | later
        · exact Or.inr (Or.inl (congrArg resourceKey same))
        · exact Or.inl later
      · exact Or.inr (Or.inr done)
    · intro e fault
      exact ⟨⟨fault, listedRest, agree, fun smooth => absurd fault (smooth e)⟩,
        fault, listedRest, agreeTagged, fun smooth => absurd fault (smooth e)⟩
  · intro attempts after excused held
    obtain ⟨-, agree, linked⟩ := held
    refine onValue attempts after excused ⟨Change.approaches_of_tags rfl agree, fun smooth => ?_⟩
    refine Profile.ext agree.1 ?_
    ext key
    constructor
    · intro member
      by_cases decides : (Change.equip resources).Decides key
      · exact Or.inr decides
      · exact Or.inl ((agree.2 key decides).mp member)
    · intro member
      by_cases decides : (Change.equip resources).Decides key
      · obtain ⟨resource, listed, rfl⟩ := decides
        exact (linked smooth resource listed).resolve_left List.not_mem_nil
      · exact (agree.2 key decides).mpr (member.resolve_right decides)

variable {plan : Plan} {desired : Reconcile.Desired}

theorem lapses_of_unnamed (names : desired.Names {framework | framework ∈ plan.offer})
    {key : TagKey} (isFramework : key.IsFramework) (unnamed : key.name ∉ desired.tagNames) :
    plan.Lapses key := by
  refine ⟨isFramework, fun framework offered same => unnamed ?_⟩
  exact List.mem_map.mpr ⟨framework, (names.frameworks framework).mpr offered, same⟩

theorem does_removeAssociation {repositoryId : Int} (here : repositoryId = scene.repositoryId)
    (names : desired.Names {framework | framework ∈ plan.offer}) {row : Association}
    (isOf : row.repositoryId = scene.repositoryId) (unoffered : ¬plan.Offers row.frameworkId) :
    scene.Does (Reconcile.removeAssociation repositoryId desired row) profile
      (fun _ after => plan.Approaches profile after ∧
        after.associations = profile.associations \ {row})
      fun e after => scene.faults e ∧ plan.Approaches profile after ∧
        after.associations ⊆ profile.associations := by
  have whole : { row with repositoryId := repositoryId } = row := by
    rw [here, ← isOf]
  have removed := Plan.approaches_dissociated unoffered profile
  have fewer : (profile.dissociated row).associations ⊆ profile.associations := fun _ => And.left
  unfold Reconcile.removeAssociation
  rw [whole]
  refine does_bind (does_dissociate isOf (fun present => ?_) fun e fault =>
    ⟨fault, .refl plan profile, fun _ => id⟩)
  refine does_bind (does_findFramework ?_ fun e fault => ⟨fault, removed, fewer⟩)
  cases scene.store.framework? row.frameworkId with
  | none => exact does_pure ⟨removed, rfl⟩
  | some framework =>
    by_cases shared : desired.tagNames.contains framework.tagName = true
    · simp only [shared, if_true]
      exact does_pure ⟨removed, rfl⟩
    · simp only [shared]
      have lapses : plan.Lapses framework.tagKey :=
        lapses_of_unnamed names framework.tagKey_isFramework fun member =>
          shared (List.contains_iff_mem.mpr member)
      refine does_bind (does_unlink here (fun present => ?_) fun e fault => ⟨fault, removed, fewer⟩)
      refine does_pure ⟨?_, rfl⟩
      exact removed.trans (Plan.approaches_untagged lapses (profile.dissociated row))

theorem mem_toRemove_iff (names : desired.Names {framework | framework ∈ plan.offer})
    {stored : List Association} {row : Association} :
    row ∈ (Difference.between stored desired.candidates).toRemove ↔
      row ∈ stored ∧ ¬plan.Offers row.frameworkId := by
  simp only [Difference.between, List.mem_filter, Bool.not_eq_true', Bool.eq_false_iff, ne_eq,
    names.isDesired]
  exact Iff.rfl

/-- How far the removals have come, with `rest` ahead of them. -/
structure Removing (scene : Scene) (plan : Plan) (profile : Profile) (rest : List Association)
    (middle : Profile) : Prop where
  toRemove : ∀ row ∈ rest, row.repositoryId = scene.repositoryId ∧ ¬plan.Offers row.frameworkId
  approaches : plan.Approaches profile middle
  fewer : middle.associations ⊆ profile.associations
  left : scene.Smooth → ∀ row ∈ middle.associations, plan.Offers row.frameworkId ∨ row ∈ rest

theorem Removing.removed {row : Association} {rest : List Association} {middle after : Profile}
    (removing : Removing scene plan profile (row :: rest) middle)
    (step : plan.Approaches middle after) (gone : after.associations = middle.associations \ {row}) :
    Removing scene plan profile rest after where
  toRemove := (List.forall_mem_cons.mp removing.toRemove).2
  approaches := removing.approaches.trans step
  fewer := gone ▸ Set.sdiff_subset.trans removing.fewer
  left smooth other member := by
    rw [gone] at member
    refine (removing.left smooth other member.1).imp_right fun waiting => ?_
    exact (List.mem_cons.mp waiting).resolve_left member.2

/-- The rows of frameworks that are not offered go one by one. -/
theorem does_removeAssociations {repositoryId : Int} (here : repositoryId = scene.repositoryId)
    (names : desired.Names {framework | framework ∈ plan.offer}) {stored : List Association}
    (listed : ∀ row, row ∈ stored ↔ row ∈ profile.associations)
    (isOf : ∀ row ∈ stored, row.repositoryId = scene.repositoryId)
    {good : Work.Attempts Association → Profile → Prop}
    (onValue : ∀ attempts after, (∀ e ∈ attempts.failures, scene.faults e) →
      plan.Approaches profile after → after.associations ⊆ profile.associations →
      (scene.Smooth → ∀ row ∈ after.associations, plan.Offers row.frameworkId) →
        good attempts after) :
    scene.Does (attemptEach (Reconcile.removeAssociation repositoryId desired)
      (Difference.between stored desired.candidates).toRemove) profile good bad := by
  refine does_attemptEach (Removing scene plan profile)
    ⟨fun row member => ?_, .refl plan profile, fun _ => id, fun _ row member => ?_⟩ ?_ ?_
  · obtain ⟨present, unoffered⟩ := (mem_toRemove_iff names).mp member
    exact ⟨isOf row present, unoffered⟩
  · by_cases offered : plan.Offers row.frameworkId
    · exact Or.inl offered
    · exact Or.inr ((mem_toRemove_iff names).mpr ⟨(listed row).mpr member, offered⟩)
  · intro row rest middle removing
    obtain ⟨rowIsOf, unoffered⟩ := removing.toRemove row List.mem_cons_self
    refine (does_removeAssociation here names rowIsOf unoffered).mono ?_ ?_
    · intro _ after ended
      exact removing.removed ended.1 ended.2
    · intro e after ended
      obtain ⟨fault, step, fewer⟩ := ended
      exact ⟨fault, (List.forall_mem_cons.mp removing.toRemove).2, removing.approaches.trans step,
        fewer.trans removing.fewer, fun smooth => absurd fault (smooth e)⟩
  · intro attempts after excused removing
    refine onValue attempts after excused removing.approaches removing.fewer fun smooth row member => ?_
    exact (removing.left smooth row member).resolve_right List.not_mem_nil

theorem does_addAssociation {repositoryId : Int} (here : repositoryId = scene.repositoryId)
    (owned : plan.repositoryId = scene.repositoryId) (distinct : plan.Distinct)
    (names : desired.Names {framework | framework ∈ plan.offer}) {framework : Framework}
    (lacks : plan.Lacks profile framework) :
    scene.Does (Reconcile.addAssociation repositoryId desired framework.candidate) profile
      (fun _ after => after = (profile.associated (framework.association plan.repositoryId)).tagged
        framework.tagKey)
      fun e after => scene.faults e ∧ plan.Approaches profile after ∧
        after.associations ⊆
          insert (framework.association plan.repositoryId) profile.associations := by
  have found : desired.framework? framework.candidate.frameworkId = some framework :=
    names.framework? distinct lacks.1
  have associated := Plan.approaches_associated lacks
  unfold Reconcile.addAssociation
  rw [found, here, ← owned]
  refine does_bind (does_associate owned (fun isNew => ?_) fun e fault =>
    ⟨fault, .refl plan profile, Set.subset_insert _ _⟩)
  refine does_bind (does_link owned (fun isNew => ?_) fun e fault => ⟨⟨fault, associated, ?_⟩,
    fault, Plan.approaches_tagged lacks associated, ?_⟩)
  · exact does_pure rfl
  · exact fun _ => id
  · exact fun _ => id

/-- Storing the association of one framework takes nothing from the candidates behind it. -/
theorem lacking_behind {framework : Framework} {middle after : Profile} {rest : List Candidate}
    (absent : framework.candidate.frameworkId ∉ rest.map Candidate.frameworkId)
    (waiting : ∀ other ∈ framework.candidate :: rest, ∃ framework, plan.Lacks middle framework ∧
      framework.candidate = other)
    (bounded : after.associations ⊆
      insert (framework.association plan.repositoryId) middle.associations) :
    ∀ other ∈ rest, ∃ framework, plan.Lacks after framework ∧ framework.candidate = other := by
  intro other member
  obtain ⟨otherFramework, otherLacks, rfl⟩ := waiting other (List.mem_cons_of_mem _ member)
  refine ⟨otherFramework, ⟨otherLacks.1, ?_⟩, rfl⟩
  intro holds
  obtain ⟨row, present, isOf⟩ := holds
  rcases bounded present with rfl | old
  · exact absent (List.mem_map.mpr ⟨otherFramework.candidate, member, isOf.symm⟩)
  · exact otherLacks.2 ⟨row, old, isOf⟩

theorem mem_toAdd_iff (names : desired.Names {framework | framework ∈ plan.offer})
    {stored : List Association} (listed : ∀ row, row ∈ stored ↔ row ∈ first.associations)
    (candidate : Candidate) :
    candidate ∈ (Difference.between stored desired.candidates).toAdd ↔
      ∃ framework, plan.Lacks first framework ∧ framework.candidate = candidate := by
  have stored_iff : ∀ id, Difference.isStored stored id = true ↔ first.Holds id := by
    intro id
    simp only [Reconcile.isStored_iff, Profile.Holds, listed]
  simp only [Difference.between, List.mem_filter, names.candidates, Bool.not_eq_true',
    Bool.eq_false_iff, ne_eq, stored_iff]
  constructor
  · intro member
    obtain ⟨⟨framework, offered, rfl⟩, missing⟩ := member
    exact ⟨framework, ⟨offered, missing⟩, rfl⟩
  · intro member
    obtain ⟨framework, lacks, rfl⟩ := member
    exact ⟨⟨framework, lacks.1, rfl⟩, lacks.2⟩

/-- How far the additions have come, with `rest` ahead of them. They start at `profile`, and what they
have to add was found lacking in `first`. -/
structure Adding (scene : Scene) (plan : Plan) (first profile : Profile) (rest : List Candidate)
    (middle : Profile) : Prop where
  different : (rest.map Candidate.frameworkId).Nodup
  waiting : ∀ candidate ∈ rest, ∃ framework, plan.Lacks middle framework ∧
    framework.candidate = candidate
  approaches : plan.Approaches profile middle
  offered : ∀ row ∈ middle.associations,
    row ∈ profile.associations ∨ plan.Offers row.frameworkId
  complete : scene.Smooth → ∀ framework, plan.Lacks first framework → framework.candidate ∈ rest ∨
    framework.association plan.repositoryId ∈ middle.associations ∧ framework.tagKey ∈ middle.tags

theorem adding_start (names : desired.Names {framework | framework ∈ plan.offer})
    {stored : List Association} (listed : ∀ row, row ∈ stored ↔ row ∈ first.associations)
    (fewer : profile.associations ⊆ first.associations) :
    Adding scene plan first profile (Difference.between stored desired.candidates).toAdd
      profile where
  different := names.distinct.sublist (List.filter_sublist.map _)
  waiting candidate member := by
    obtain ⟨framework, lacks, same⟩ := (mem_toAdd_iff names listed candidate).mp member
    refine ⟨framework, ⟨lacks.1, fun holds => ?_⟩, same⟩
    obtain ⟨row, present, isOf⟩ := holds
    exact lacks.2 ⟨row, fewer present, isOf⟩
  approaches := .refl plan profile
  offered _ := Or.inl
  complete _ framework lacks := Or.inl ((mem_toAdd_iff names listed _).mpr ⟨framework, lacks, rfl⟩)

namespace Adding

variable {middle after : Profile} {framework : Framework} {rest : List Candidate}

/-- An attempt that stores the association of its framework at most. -/
theorem attempted (adding : Adding scene plan first profile (framework.candidate :: rest) middle)
    (lacks : plan.Lacks middle framework) (step : plan.Approaches middle after)
    (bounded : after.associations ⊆
      insert (framework.association plan.repositoryId) middle.associations)
    (complete : scene.Smooth → ∀ other, plan.Lacks first other → other.candidate ∈ rest ∨
      other.association plan.repositoryId ∈ after.associations ∧ other.tagKey ∈ after.tags) :
    Adding scene plan first profile rest after where
  different := (List.nodup_cons.mp adding.different).2
  waiting := lacking_behind (List.nodup_cons.mp adding.different).1 adding.waiting bounded
  approaches := adding.approaches.trans step
  offered row member := by
    rcases bounded member with rfl | old
    · exact Or.inr (Plan.offers_of_lacks lacks)
    · exact adding.offered row old
  complete := complete

theorem added (adding : Adding scene plan first profile (framework.candidate :: rest) middle)
    (distinct : plan.Distinct) (lacks : plan.Lacks middle framework) :
    Adding scene plan first profile rest
      ((middle.associated (framework.association plan.repositoryId)).tagged framework.tagKey) := by
  refine adding.attempted lacks (Plan.approaches_tagged lacks (Plan.approaches_associated lacks))
    (fun _ => id) fun smooth other otherLacks => ?_
  rcases adding.complete smooth other otherLacks with member | done
  · rcases List.mem_cons.mp member with same | later
    · obtain rfl : other = framework :=
        distinct other otherLacks.1 framework lacks.1 (congrArg Candidate.frameworkId same)
      exact Or.inr ⟨Or.inl rfl, Or.inl rfl⟩
    · exact Or.inl later
  · exact Or.inr ⟨Or.inr done.1, Or.inr done.2⟩

end Adding

theorem does_addAssociations {repositoryId : Int} (here : repositoryId = scene.repositoryId)
    (owned : plan.repositoryId = scene.repositoryId) (distinct : plan.Distinct)
    (names : desired.Names {framework | framework ∈ plan.offer}) {stored : List Association}
    (listed : ∀ row, row ∈ stored ↔ row ∈ first.associations)
    (fewer : profile.associations ⊆ first.associations)
    {good : Work.Attempts Candidate → Profile → Prop}
    (onValue : ∀ attempts after, (∀ e ∈ attempts.failures, scene.faults e) →
      plan.Approaches profile after →
      (∀ row ∈ after.associations, row ∈ profile.associations ∨ plan.Offers row.frameworkId) →
      (scene.Smooth → ∀ framework, plan.Lacks first framework →
        framework.association plan.repositoryId ∈ after.associations ∧
          framework.tagKey ∈ after.tags) → good attempts after) :
    scene.Does (attemptEach (Reconcile.addAssociation repositoryId desired)
      (Difference.between stored desired.candidates).toAdd) profile good bad := by
  refine does_attemptEach (Adding scene plan first profile) (adding_start names listed fewer) ?_ ?_
  · intro candidate rest middle adding
    obtain ⟨framework, lacks, rfl⟩ := adding.waiting candidate List.mem_cons_self
    refine (does_addAssociation here owned distinct names lacks).mono ?_ ?_
    · rintro _ after rfl
      exact adding.added distinct lacks
    · intro e after ended
      obtain ⟨fault, step, bounded⟩ := ended
      exact ⟨fault, adding.attempted lacks step bounded fun smooth => absurd fault (smooth e)⟩
  · intro attempts after excused adding
    refine onValue attempts after excused adding.approaches adding.offered
      fun smooth framework lacks => ?_
    exact (adding.complete smooth framework lacks).resolve_left List.not_mem_nil

theorem does_tagNamesOf {good : List String → Profile → Prop}
    (onFailure : ∀ e, scene.faults e → bad e profile) (stored : List Association)
    (onValue : ∀ names, (∀ name ∈ names, ∃ row ∈ stored, ∃ framework,
      scene.store.framework? row.frameworkId = some framework ∧ framework.tagName = name) →
        good names profile) :
    scene.Does (Reconcile.tagNamesOf stored) profile good bad := by
  induction stored generalizing good with
  | nil => exact does_pure (onValue [] (by simp))
  | cons row rest ih =>
    refine does_bind (does_findFramework ?_ onFailure)
    refine does_bind (ih fun later laterNames => ?_)
    refine does_pure (onValue _ ?_)
    intro name member
    rcases List.mem_append.mp member with own | other
    · obtain ⟨framework, found, same⟩ := Option.map_eq_some_iff.mp (Option.mem_toList.mp own)
      exact ⟨row, List.mem_cons_self, framework, found, same⟩
    · obtain ⟨stored, storedMember, framework, found⟩ := laterNames name other
      exact ⟨stored, List.mem_cons_of_mem row storedMember, framework, found⟩

/-- The keys of some tags are left only if their names are backed. -/
def Spared (backed : List String) (tags : List Tag) (key : TagKey) : Prop :=
  (∃ tag ∈ tags, tag.key = key) → key.name ∈ backed

theorem spared_cons {backed : List String} {tag : Tag} {rest : List Tag} {key : TagKey} :
    Spared backed (tag :: rest) key ↔
      (tag.key = key → tag.name ∈ backed) ∧ Spared backed rest key := by
  unfold Spared
  simp only [List.mem_cons, exists_eq_or_imp, or_imp]
  refine and_congr_left fun _ => forall_congr' fun same => ?_
  rw [← same]
  exact Iff.rfl

/-- The framework tags that nothing backs go one by one, until a call fails. -/
theorem does_unlinkUnbacked {repositoryId : Int} (here : repositoryId = scene.repositoryId)
    (backed : List String) (tags : List Tag)
    (isOf : ∀ tag ∈ tags, tag.category = .runtimeFramework) :
    scene.Does (Reconcile.unlinkUnbacked repositoryId backed tags) profile
      (fun _ after => after.associations = profile.associations ∧
        ∀ key, key ∈ after.tags ↔ key ∈ profile.tags ∧ Spared backed tags key)
      fun e after => scene.faults e ∧ after.associations = profile.associations ∧
        ∀ key, (key ∈ after.tags → key ∈ profile.tags) ∧
          (key ∈ profile.tags → (key.IsFramework → key.name ∈ backed) → key ∈ after.tags) := by
  induction tags generalizing profile with
  | nil => exact does_pure ⟨rfl, by simp [Spared]⟩
  | cons tag rest ih =>
    have isOfRest := fun other member => isOf other (List.mem_cons_of_mem tag member)
    have tagKey : tag.key = .of tag.scope .runtimeFramework tag.group tag.name := by
      rw [← isOf tag List.mem_cons_self]
      rfl
    unfold Reconcile.unlinkUnbacked
    by_cases isBacked : tag.name ∈ backed
    · rw [if_pos (List.contains_iff_mem.mpr isBacked)]
      refine (ih isOfRest).mono ?_ fun _ _ => id
      intro _ after ended
      refine ⟨ended.1, fun key => (ended.2 key).trans (and_congr_right fun _ => ?_)⟩
      rw [spared_cons, and_iff_right fun _ => isBacked]
    · rw [if_neg fun contained => isBacked (List.contains_iff_mem.mp contained)]
      refine does_bind (does_unlink here (fun present => ?_) fun e fault =>
        ⟨fault, rfl, fun key => ⟨id, fun member _ => member⟩⟩)
      rw [← tagKey]
      refine does_bind ((ih isOfRest).mono ?_ ?_)
      · intro later after ended
        refine does_pure ⟨ended.1, fun key => (ended.2 key).trans ?_⟩
        have differing : (tag.key = key → tag.name ∈ backed) ↔ key ∉ ({tag.key} : Set TagKey) :=
          ⟨fun rule same => isBacked (rule same.symm), fun differs same => absurd same.symm differs⟩
        rw [spared_cons, differing, ← and_assoc]
        exact Iff.rfl
      · intro e after ended
        obtain ⟨fault, associations, between⟩ := ended
        refine ⟨fault, associations, fun key => ⟨fun member => ((between key).1 member).1, ?_⟩⟩
        intro present rule
        refine (between key).2 ⟨present, ?_⟩ rule
        rintro rfl
        exact isBacked (rule (tagKey ▸ rfl))

/-- The last phase unlinks what has lapsed. It goes by the stored associations, so what they need
stays as long as they are there. -/
theorem does_pruneTags {repositoryId : Int} (here : repositoryId = scene.repositoryId)
    (isFrom : plan.IsFrom scene.store)
    (names : desired.Names {framework | framework ∈ plan.offer}) :
    scene.Does (Reconcile.pruneTags repositoryId desired) profile
      (fun _ after => plan.Approaches profile after ∧ after.associations = profile.associations ∧
        ((∀ row ∈ profile.associations, plan.Offers row.frameworkId) →
          ∀ key ∈ after.tags, ¬plan.Lapses key))
      fun e after => scene.faults e ∧ plan.Approaches profile after ∧
        after.associations = profile.associations := by
  have unchanged : ∀ e, scene.faults e → scene.faults e ∧ plan.Approaches profile profile ∧
      profile.associations = profile.associations := fun e fault => ⟨fault, .refl plan profile, rfl⟩
  have within : ∀ {after : Profile}, after.associations = profile.associations →
      (∀ key ∈ after.tags, key ∈ profile.tags) →
      (∀ key ∈ profile.tags, ¬plan.Lapses key → key ∈ after.tags) →
        plan.Approaches profile after := by
    intro after associations fewer kept
    exact { kept := fun row member _ => associations ▸ member
            added := fun row member => Or.inl (associations ▸ member)
            keptTags := kept
            addedTags := fun key member => Or.inl (fewer key member) }
  refine does_bind (does_listAssociations here (fun stored listed _ => ?_) unchanged)
  refine does_bind (does_tagNamesOf unchanged stored fun stillNamed namedBy => ?_)
  refine does_bind (does_listTags here (fun tags isOf borne => ?_) unchanged)
  have desired_backed : ∀ framework ∈ plan.offer,
      framework.tagName ∈ desired.tagNames ++ stillNamed := by
    intro framework offered
    refine List.mem_append_left _ (List.mem_map.mpr ⟨framework, ?_, rfl⟩)
    exact (names.frameworks framework).mpr offered
  have backed_of_current : ∀ key : TagKey, ¬plan.Lapses key → key.IsFramework →
      key.name ∈ desired.tagNames ++ stillNamed := by
    intro key current isFramework
    by_contra unbacked
    refine current ⟨isFramework, fun framework offered same => unbacked ?_⟩
    exact same ▸ desired_backed framework offered
  refine (does_unlinkUnbacked here (desired.tagNames ++ stillNamed) tags isOf).mono ?_ ?_
  · intro _ after ended
    obtain ⟨associations, kept⟩ := ended
    refine ⟨within associations (fun key member => ((kept key).mp member).1) ?_, associations, ?_⟩
    · intro key member current
      refine (kept key).mpr ⟨member, fun present => backed_of_current key current ?_⟩
      exact ((borne key).mp present).2
    · intro allOffered key member lapses
      obtain ⟨present, rule⟩ := (kept key).mp member
      rcases List.mem_append.mp (rule ((borne key).mpr ⟨present, lapses.1⟩)) with own | other
      · obtain ⟨framework, named, same⟩ := List.mem_map.mp own
        exact lapses.2 framework ((names.frameworks framework).mp named) same
      · obtain ⟨row, storedRow, framework, found, same⟩ := namedBy key.name other
        obtain ⟨offered, isOffered, sameId⟩ := allOffered row ((listed row).mp storedRow)
        obtain rfl : offered = framework := isFrom.eq_of_found isOffered (sameId ▸ found)
        exact lapses.2 offered isOffered same
  · intro e after ended
    obtain ⟨fault, associations, between⟩ := ended
    refine ⟨fault, within associations (fun key => (between key).1) ?_, associations⟩
    intro key member current
    exact (between key).2 member (backed_of_current key current)

end Scene

end ModelHub
