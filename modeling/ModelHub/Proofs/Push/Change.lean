import ModelHub.Proofs.Reconcile.Plan

/-! The changes that the files of a push ask for, one after another, and what becomes of a profile
if some of them are carried out only in part.

Every change either decides on a tag whatever was before or does not touch it. So a push that is
delivered again decides on the same tags, and only the tags of frameworks need a closer look. -/

namespace ModelHub

def resourceKey (resource : String) : TagKey := .of .model .resource "" resource

def libraryKey (scope : TagScope) (name : String) : TagKey := .of scope .library "" name

def DeclaredTag.key (scope : TagScope) (declared : DeclaredTag) : TagKey :=
  .of scope .declared declared.group declared.name

/-- The profiles differ at most in tags on which there is a decision. -/
def Profile.AgreeBut (decided : TagKey → Prop) (before after : Profile) : Prop :=
  after.associations = before.associations ∧
    ∀ key, ¬decided key → (key ∈ after.tags ↔ key ∈ before.tags)

theorem Profile.AgreeBut.refl (decided : TagKey → Prop) (profile : Profile) :
    Profile.AgreeBut decided profile profile := ⟨rfl, fun _ _ => Iff.rfl⟩

theorem Profile.AgreeBut.trans {decided : TagKey → Prop} {before middle after : Profile}
    (first : Profile.AgreeBut decided before middle)
    (second : Profile.AgreeBut decided middle after) :
    Profile.AgreeBut decided before after :=
  ⟨second.1.trans first.1, fun key undecided =>
    (second.2 key undecided).trans (first.2 key undecided)⟩

theorem Profile.AgreeBut.tagged {decided : TagKey → Prop} {key : TagKey} (decides : decided key)
    (profile : Profile) : Profile.AgreeBut decided profile (profile.tagged key) := by
  refine ⟨rfl, fun other undecided => ?_⟩
  exact or_iff_right fun same => undecided (same ▸ decides)

inductive Change where
  | equip (resources : List String)
  | settle (plan : Plan)
  | clear
  | declare (scope : TagScope) (declared : List DeclaredTag)
  | add (scope : TagScope) (name : String)
  | drop (scope : TagScope) (name : String)

namespace Change

def apply : Change → Profile → Profile
  | equip resources, profile =>
    { profile with
      tags := profile.tags ∪ {key | ∃ resource ∈ resources, key = resourceKey resource} }
  | settle plan, profile => plan.settled profile
  | clear, profile => profile.unassociated.retagged .runtimeFramework ∅
  | declare scope declared, profile =>
    profile.retagged .declared {key | ∃ tag ∈ declared, tag.key scope = key}
  | add scope name, profile => profile.tagged (libraryKey scope name)
  | drop scope name, profile => profile.untagged (libraryKey scope name)

/-- The change decides on the tag, which is not one of a framework. -/
def Decides : Change → TagKey → Prop
  | equip resources, key => ∃ resource ∈ resources, key = resourceKey resource
  | settle _, _ => False
  | clear, _ => False
  | declare _ _, key => key.category = TagCategory.declared.name
  | add scope name, key => key = libraryKey scope name
  | drop scope name, key => key = libraryKey scope name

/-- How far a change may come, seen on associations and framework tags only. -/
def ApproachesPart : Change → Profile → Profile → Prop
  | settle plan, before, after => plan.Approaches before after
  | clear, _, _ => True
  | _, before, after => after = before

/-- The change is carried out at least in part, and nothing else is. -/
structure Approaches (change : Change) (before after : Profile) : Prop where
  tags : ∀ key, ¬key.IsFramework → ¬change.Decides key → (key ∈ after.tags ↔ key ∈ before.tags)
  part : change.ApproachesPart before.frameworkPart after.frameworkPart

variable {change : Change} {before after other : Profile} {key : TagKey}

theorem not_isFramework (category : TagCategory) (differs : category ≠ .runtimeFramework)
    (isOf : key.category = category.name) : ¬key.IsFramework := by
  intro isFramework
  exact differs (TagCategory.name_injective (isOf.symm.trans isFramework))

theorem decides_not_isFramework (decides : change.Decides key) : ¬key.IsFramework := by
  cases change with
  | equip resources =>
    obtain ⟨resource, -, rfl⟩ := decides
    exact not_isFramework .resource (by decide) rfl
  | settle plan => exact decides.elim
  | clear => exact decides.elim
  | declare scope declared => exact not_isFramework .declared (by decide) decides
  | add scope name =>
    obtain rfl : key = libraryKey scope name := decides
    exact not_isFramework .library (by decide) rfl
  | drop scope name =>
    obtain rfl : key = libraryKey scope name := decides
    exact not_isFramework .library (by decide) rfl

theorem frameworkPart_congr (associations : after.associations = before.associations)
    (tags : ∀ key, key.IsFramework → (key ∈ after.tags ↔ key ∈ before.tags)) :
    after.frameworkPart = before.frameworkPart := by
  refine Profile.ext associations ?_
  ext key
  exact and_congr_left fun isFramework => tags key isFramework

theorem approaches_of_tags (part : change.ApproachesPart = fun before after => after = before)
    (agree : Profile.AgreeBut change.Decides before after) : change.Approaches before after where
  tags key _ undecided := agree.2 key undecided
  part := by
    rw [part]
    refine frameworkPart_congr agree.1 fun key isFramework => agree.2 key ?_
    intro decides
    exact decides_not_isFramework decides isFramework

theorem settle_approaches {plan : Plan} (approaches : plan.Approaches before after) :
    (settle plan).Approaches before after where
  tags _ other _ := approaches.tag_iff other
  part := approaches.frameworkPart

theorem clear_approaches
    (tags : ∀ key, ¬key.IsFramework → (key ∈ after.tags ↔ key ∈ before.tags)) :
    clear.Approaches before after where
  tags key other _ := tags key other
  part := trivial

theorem Approaches.refl (change : Change) (profile : Profile) :
    change.Approaches profile profile where
  tags _ _ _ := Iff.rfl
  part := by
    cases change with
    | settle plan => exact Plan.Approaches.refl plan profile.frameworkPart
    | clear => trivial
    | _ => rfl

theorem approaches_apply (change : Change) (profile : Profile) :
    change.Approaches profile (change.apply profile) := by
  cases change with
  | settle plan => exact settle_approaches (plan.approaches_settled profile)
  | clear =>
    refine clear_approaches fun key other => ?_
    simp only [apply, Profile.retagged, Profile.unassociated, Set.union_empty, Set.mem_ofPred_eq]
    exact and_iff_left other
  | equip resources =>
    refine approaches_of_tags rfl ⟨rfl, fun key undecided => ?_⟩
    exact or_iff_left undecided
  | declare scope declared =>
    refine approaches_of_tags rfl ⟨rfl, fun key undecided => ?_⟩
    constructor
    · intro member
      rcases member with old | new
      · exact old.1
      · obtain ⟨tag, -, rfl⟩ := new
        exact absurd rfl undecided
    · intro member
      exact Or.inl ⟨member, undecided⟩
  | add scope name =>
    refine approaches_of_tags rfl ⟨rfl, fun key undecided => ?_⟩
    exact or_iff_right undecided
  | drop scope name =>
    refine approaches_of_tags rfl ⟨rfl, fun key undecided => ?_⟩
    exact and_iff_left undecided

theorem apply_of_decides (decides : change.Decides key) (before other : Profile) :
    key ∈ (change.apply before).tags ↔ key ∈ (change.apply other).tags := by
  cases change with
  | settle plan => exact decides.elim
  | clear => exact decides.elim
  | equip resources => exact iff_of_true (Or.inr decides) (Or.inr decides)
  | declare scope declared =>
    have decided : ∀ profile : Profile, key ∈ ((declare scope declared).apply profile).tags ↔
        ∃ tag ∈ declared, tag.key scope = key := by
      intro profile
      exact or_iff_right fun old => old.2 decides
    rw [decided, decided]
  | add scope name => exact iff_of_true (Or.inl decides) (Or.inl decides)
  | drop scope name => exact iff_of_false (fun kept => kept.2 decides) fun kept => kept.2 decides

theorem apply_congr (notFramework : ¬key.IsFramework)
    (agree : key ∈ before.tags ↔ key ∈ other.tags) :
    key ∈ (change.apply before).tags ↔ key ∈ (change.apply other).tags := by
  by_cases decides : change.Decides key
  · exact apply_of_decides decides before other
  · rw [(approaches_apply change before).tags key notFramework decides,
      (approaches_apply change other).tags key notFramework decides]
    exact agree

theorem frameworkPart_clear (profile : Profile) :
    (clear.apply profile).frameworkPart = { associations := ∅, tags := ∅ } := by
  refine Profile.ext rfl ?_
  ext key
  refine iff_of_false ?_ id
  intro member
  rcases member.1 with old | new
  · exact old.2 member.2
  · exact new

theorem frameworkPart_apply (part : change.ApproachesPart = fun before after => after = before)
    (profile : Profile) : (change.apply profile).frameworkPart = profile.frameworkPart := by
  have approaches := (approaches_apply change profile).part
  rwa [part] at approaches

theorem frameworkPart_apply_congr (agree : before.frameworkPart = other.frameworkPart) :
    (change.apply before).frameworkPart = (change.apply other).frameworkPart := by
  cases change with
  | settle plan =>
    show (plan.settled before).frameworkPart = (plan.settled other).frameworkPart
    rw [plan.settled_frameworkPart, plan.settled_frameworkPart, agree]
  | clear => rw [frameworkPart_clear, frameworkPart_clear]
  | _ => rw [frameworkPart_apply rfl, frameworkPart_apply rfl, agree]

def result (changes : List Change) (profile : Profile) : Profile :=
  changes.foldl (fun profile change => change.apply profile) profile

/-- A change is carried out at least in part, and entirely unless there are faults. -/
def Outcome (faults : HubError → Prop) (change : Change) (before after : Profile) : Prop :=
  change.Approaches before after ∧ ((∀ e, ¬faults e) → after = change.apply before)

def Outcomes (faults : HubError → Prop) : List Change → Profile → Profile → Prop
  | [], before, after => after = before
  | change :: rest, before, after =>
    ∃ middle, change.Outcome faults before middle ∧ Outcomes faults rest middle after

variable {faults : HubError → Prop} {changes : List Change} {plan : Plan}

theorem outcomes_append {earlier later : List Change} :
    Outcomes faults (earlier ++ later) before after ↔
      ∃ middle, Outcomes faults earlier before middle ∧ Outcomes faults later middle after := by
  induction earlier generalizing before with
  | nil =>
    constructor
    · intro outcomes
      exact ⟨before, rfl, outcomes⟩
    · intro split
      obtain ⟨middle, rfl, outcomes⟩ := split
      exact outcomes
  | cons change rest ih =>
    constructor
    · intro outcomes
      obtain ⟨next, first, others⟩ := outcomes
      obtain ⟨middle, earlier, later⟩ := ih.mp others
      exact ⟨middle, ⟨next, first, earlier⟩, later⟩
    · intro split
      obtain ⟨middle, ⟨next, first, earlier⟩, later⟩ := split
      exact ⟨next, first, ih.mpr ⟨middle, earlier, later⟩⟩

theorem outcomes_result (faults : HubError → Prop) (changes : List Change) (profile : Profile) :
    Outcomes faults changes profile (result changes profile) := by
  induction changes generalizing profile with
  | nil => rfl
  | cons change rest ih =>
    exact ⟨change.apply profile, ⟨approaches_apply change profile, fun _ => rfl⟩, ih _⟩

namespace Outcomes

theorem eq_result (outcomes : Outcomes faults changes before after) (unfailing : ∀ e, ¬faults e) :
    after = result changes before := by
  induction changes generalizing before with
  | nil => exact outcomes
  | cons change rest ih =>
    obtain ⟨middle, ⟨-, exactly⟩, later⟩ := outcomes
    rw [ih later, exactly unfailing]
    rfl

theorem tag_iff (outcomes : Outcomes faults changes before after) (notFramework : ¬key.IsFramework)
    (undecided : ∀ change ∈ changes, ¬change.Decides key) :
    key ∈ after.tags ↔ key ∈ before.tags := by
  induction changes generalizing before with
  | nil => rw [show after = before from outcomes]
  | cons change rest ih =>
    obtain ⟨middle, ⟨approaches, -⟩, later⟩ := outcomes
    have first := approaches.tags key notFramework (undecided change List.mem_cons_self)
    have others := ih later fun other member => undecided other (List.mem_cons_of_mem change member)
    exact others.trans first

/-- As long as nothing is cleared, the framework part only moves towards the plan. -/
theorem approaches (outcomes : Outcomes faults changes before after) (uncleared : clear ∉ changes)
    (uniform : ∀ other, settle other ∈ changes → other = plan) :
    plan.Approaches before.frameworkPart after.frameworkPart := by
  induction changes generalizing before with
  | nil =>
    rw [show after = before from outcomes]
    exact Plan.Approaches.refl plan before.frameworkPart
  | cons change rest ih =>
    obtain ⟨middle, ⟨approaches, -⟩, later⟩ := outcomes
    have others := ih later (fun member => uncleared (List.mem_cons_of_mem change member))
      fun other member => uniform other (List.mem_cons_of_mem change member)
    have first := approaches.part
    cases change with
    | settle other =>
      obtain rfl := uniform other List.mem_cons_self
      exact first.trans others
    | clear => exact absurd List.mem_cons_self uncleared
    | _ =>
      have same : middle.frameworkPart = before.frameworkPart := first
      exact same ▸ others

theorem frameworkPart_eq (outcomes : Outcomes faults changes before after)
    (uncleared : clear ∉ changes) (unsettled : ∀ plan, settle plan ∉ changes) :
    after.frameworkPart = before.frameworkPart := by
  induction changes generalizing before with
  | nil => rw [show after = before from outcomes]
  | cons change rest ih =>
    obtain ⟨middle, ⟨approaches, -⟩, later⟩ := outcomes
    have others := ih later (fun member => uncleared (List.mem_cons_of_mem change member))
      fun plan member => unsettled plan (List.mem_cons_of_mem change member)
    have first := approaches.part
    cases change with
    | settle plan => exact absurd List.mem_cons_self (unsettled plan)
    | clear => exact absurd List.mem_cons_self uncleared
    | _ => exact others.trans first

end Outcomes

theorem result_tag_congr (notFramework : ¬key.IsFramework)
    (agree : key ∈ before.tags ↔ key ∈ other.tags) :
    key ∈ (result changes before).tags ↔ key ∈ (result changes other).tags := by
  induction changes generalizing before other with
  | nil => exact agree
  | cons change rest ih => exact ih (apply_congr notFramework agree)

theorem result_of_decides (decided : ∃ change ∈ changes, change.Decides key)
    (before other : Profile) :
    key ∈ (result changes before).tags ↔ key ∈ (result changes other).tags := by
  induction changes generalizing before other with
  | nil => simp at decided
  | cons change rest ih =>
    by_cases decides : change.Decides key
    · show key ∈ (result rest (change.apply before)).tags ↔
        key ∈ (result rest (change.apply other)).tags
      exact result_tag_congr (decides_not_isFramework decides)
        (apply_of_decides decides before other)
    · refine ih ?_ _ _
      obtain ⟨found, member, decidesFound⟩ := decided
      rcases List.mem_cons.mp member with rfl | later
      · exact absurd decidesFound decides
      · exact ⟨found, later, decidesFound⟩

/-- However far the changes came, a second pass decides on the same tags. -/
theorem result_tag_iff (outcomes : Outcomes faults changes before after)
    (notFramework : ¬key.IsFramework) :
    key ∈ (result changes after).tags ↔ key ∈ (result changes before).tags := by
  by_cases decided : ∃ change ∈ changes, change.Decides key
  · exact result_of_decides decided after before
  · refine result_tag_congr notFramework (outcomes.tag_iff notFramework ?_)
    intro change member decides
    exact decided ⟨change, member, decides⟩

theorem result_part_congr (agree : before.frameworkPart = other.frameworkPart) :
    (result changes before).frameworkPart = (result changes other).frameworkPart := by
  induction changes generalizing before other with
  | nil => exact agree
  | cons change rest ih => exact ih (frameworkPart_apply_congr agree)

theorem associations_apply_congr (change : Change)
    (agree : before.associations = other.associations) :
    (change.apply before).associations = (change.apply other).associations := by
  cases change with
  | settle plan => simp only [apply, Plan.settled, Plan.Lacks, Profile.Holds, agree]
  | clear => rfl
  | _ => exact agree

theorem associations_result_congr (changes : List Change)
    (agree : before.associations = other.associations) :
    (result changes before).associations = (result changes other).associations := by
  induction changes generalizing before other with
  | nil => exact agree
  | cons change rest ih => exact ih (associations_apply_congr change agree)

theorem result_part_of_clear (cleared : clear ∈ changes) (before other : Profile) :
    (result changes before).frameworkPart = (result changes other).frameworkPart := by
  induction changes generalizing before other with
  | nil => cases cleared
  | cons change rest ih =>
    rcases List.mem_cons.mp cleared with rfl | later
    · show (result rest (clear.apply before)).frameworkPart =
        (result rest (clear.apply other)).frameworkPart
      refine result_part_congr ?_
      rw [frameworkPart_clear, frameworkPart_clear]
    · exact ih later _ _

theorem result_part_of_settled (uncleared : clear ∉ changes)
    (uniform : ∀ other, settle other ∈ changes → other = plan)
    (already : plan.settled before.frameworkPart = before.frameworkPart) :
    (result changes before).frameworkPart = before.frameworkPart := by
  induction changes generalizing before with
  | nil => rfl
  | cons change rest ih =>
    have kept : (change.apply before).frameworkPart = before.frameworkPart := by
      cases change with
      | settle other =>
        obtain rfl := uniform other List.mem_cons_self
        exact (other.settled_frameworkPart before).trans already
      | clear => exact absurd List.mem_cons_self uncleared
      | _ => exact frameworkPart_apply rfl before
    have others : (result rest (change.apply before)).frameworkPart =
        (change.apply before).frameworkPart :=
      ih (fun member => uncleared (List.mem_cons_of_mem change member))
        (fun other member => uniform other (List.mem_cons_of_mem change member))
        (kept.symm ▸ already)
    exact others.trans kept

/-- Reconciling several times is as good as once. -/
theorem result_part_of_settle (uncleared : clear ∉ changes)
    (uniform : ∀ other, settle other ∈ changes → other = plan) (settles : settle plan ∈ changes)
    (profile : Profile) :
    (result changes profile).frameworkPart = plan.settled profile.frameworkPart := by
  induction changes generalizing profile with
  | nil => cases settles
  | cons change rest ih =>
    have unclearedRest : clear ∉ rest :=
      fun member => uncleared (List.mem_cons_of_mem change member)
    have uniformRest : ∀ other, settle other ∈ rest → other = plan := by
      intro other member
      exact uniform other (List.mem_cons_of_mem change member)
    rcases List.mem_cons.mp settles with rfl | later
    · have first : (plan.settled profile).frameworkPart = plan.settled profile.frameworkPart :=
        plan.settled_frameworkPart profile
      refine (result_part_of_settled unclearedRest uniformRest ?_).trans first
      show plan.settled (plan.settled profile).frameworkPart = (plan.settled profile).frameworkPart
      rw [first, plan.settled_settled]
    · show (result rest (change.apply profile)).frameworkPart = plan.settled profile.frameworkPart
      rw [ih unclearedRest uniformRest later]
      cases change with
      | settle other =>
        obtain rfl := uniform other List.mem_cons_self
        show other.settled (other.settled profile).frameworkPart = _
        rw [other.settled_frameworkPart, other.settled_settled]
      | clear => exact absurd List.mem_cons_self uncleared
      | _ => rw [frameworkPart_apply rfl profile]

theorem eq_of_parts (tags : ∀ key, ¬key.IsFramework → (key ∈ after.tags ↔ key ∈ before.tags))
    (part : after.frameworkPart = before.frameworkPart) : after = before := by
  refine Profile.ext (show after.frameworkPart.associations = _ by rw [part]; rfl) ?_
  ext key
  by_cases isFramework : key.IsFramework
  · have same := Set.ext_iff.mp (congrArg Profile.tags part) key
    exact (and_iff_left isFramework).symm.trans (same.trans (and_iff_left isFramework))
  · exact tags key isFramework

def Coherent (changes : List Change) : Prop :=
  ∀ plan, settle plan ∈ changes → plan.Distinct ∧ ∀ other, settle other ∈ changes → other = plan

/-- A second pass repairs what the first one left half done, except for associations that it left
without their tags. -/
theorem result_eq_iff (coherent : Coherent changes)
    (outcomes : Outcomes faults changes before after) :
    result changes after = result changes before ↔
      clear ∈ changes ∨ ∀ plan, settle plan ∈ changes → plan.Backed before after := by
  have others : ∀ key, ¬key.IsFramework →
      (key ∈ (result changes after).tags ↔ key ∈ (result changes before).tags) :=
    fun key notFramework => result_tag_iff outcomes notFramework
  by_cases cleared : clear ∈ changes
  · exact iff_of_true (eq_of_parts others (result_part_of_clear cleared after before))
      (Or.inl cleared)
  by_cases settles : ∃ plan, settle plan ∈ changes
  · obtain ⟨plan, settles⟩ := settles
    obtain ⟨distinct, uniform⟩ := coherent plan settles
    have approaches := outcomes.approaches cleared uniform
    have repaired : (result changes after).frameworkPart = (result changes before).frameworkPart ↔
        plan.Backed before after := by
      rw [result_part_of_settle cleared uniform settles after,
        result_part_of_settle cleared uniform settles before,
        Plan.settled_iff_backed distinct approaches, Plan.backed_frameworkPart]
    constructor
    · intro same
      refine Or.inr fun other otherSettles => ?_
      rw [uniform other otherSettles]
      exact repaired.mp (congrArg Profile.frameworkPart same)
    · intro reason
      exact eq_of_parts others (repaired.mpr (reason.resolve_left cleared plan settles))
  · have unsettled : ∀ plan, settle plan ∉ changes := fun plan member => settles ⟨plan, member⟩
    refine iff_of_true (eq_of_parts others ?_)
      (Or.inr fun plan member => absurd member (unsettled plan))
    exact result_part_congr (outcomes.frameworkPart_eq cleared unsettled)

theorem result_result (coherent : Coherent changes) (profile : Profile) :
    result changes (result changes profile) = result changes profile := by
  refine (result_eq_iff coherent (outcomes_result (fun _ => False) changes profile)).mpr ?_
  by_cases cleared : clear ∈ changes
  · exact Or.inl cleared
  · refine Or.inr fun plan settles => Plan.backed_frameworkPart.mp ?_
    rw [result_part_of_settle cleared (coherent plan settles).2 settles profile]
    intro framework lacks _
    exact Or.inl (Or.inr ⟨framework, lacks, rfl⟩)

end Change

end ModelHub
