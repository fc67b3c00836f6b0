import ModelHub.Proofs.Store.Profile

/-! What the catalogue asks of a model, the profile it leads to, and how far a reconciliation may
come that does not succeed in every step.

Stored rows of offered frameworks are never touched, so neither are the tags of these frameworks. -/

namespace ModelHub

def TagKey.IsFramework (key : TagKey) : Prop := key.category = TagCategory.runtimeFramework.name

def Framework.tagKey (framework : Framework) : TagKey :=
  .of .model .runtimeFramework "" framework.tagName

def Framework.association (framework : Framework) (repositoryId : Int) : Association :=
  { repositoryId := repositoryId, frameworkId := framework.id
    associationType := framework.frameworkType }

theorem Framework.tagKey_isFramework (framework : Framework) : framework.tagKey.IsFramework := rfl

/-- There is an association with the framework, of whatever type. -/
def Profile.Holds (profile : Profile) (frameworkId : Int) : Prop :=
  ∃ row ∈ profile.associations, row.frameworkId = frameworkId

def Profile.frameworkNames (profile : Profile) : Set String :=
  {name | ∃ key ∈ profile.tags, key.IsFramework ∧ key.name = name}

/-- What a reconciliation is about: the associations and the framework tags. -/
def Profile.frameworkPart (profile : Profile) : Profile :=
  { profile with tags := {key | key ∈ profile.tags ∧ key.IsFramework} }

theorem Profile.mem_frameworkNames {profile : Profile} {name : String} :
    name ∈ profile.frameworkNames ↔ ∃ key ∈ profile.frameworkPart.tags, key.name = name := by
  constructor
  · intro named
    obtain ⟨key, member, isFramework, same⟩ := named
    exact ⟨key, ⟨member, isFramework⟩, same⟩
  · intro named
    obtain ⟨key, member, same⟩ := named
    exact ⟨key, member.1, member.2, same⟩

theorem Profile.frameworkNames_congr {profile other : Profile}
    (agree : profile.frameworkPart = other.frameworkPart) :
    profile.frameworkNames = other.frameworkNames := by
  ext name
  rw [mem_frameworkNames, mem_frameworkNames, agree]

theorem Profile.associations_congr {profile other : Profile}
    (agree : profile.frameworkPart = other.frameworkPart) :
    profile.associations = other.associations :=
  show profile.frameworkPart.associations = other.frameworkPart.associations by rw [agree]

structure Plan where
  repositoryId : Int
  offer : List Framework

namespace Plan

def Offers (plan : Plan) (frameworkId : Int) : Prop :=
  ∃ framework ∈ plan.offer, framework.id = frameworkId

def Distinct (plan : Plan) : Prop :=
  ∀ framework ∈ plan.offer, ∀ other ∈ plan.offer, framework.id = other.id → framework = other

/-- A tag of frameworks, none of which is offered. -/
def Lapses (plan : Plan) (key : TagKey) : Prop :=
  key.IsFramework ∧ ∀ framework ∈ plan.offer, framework.tagName ≠ key.name

def Lacks (plan : Plan) (profile : Profile) (framework : Framework) : Prop :=
  framework ∈ plan.offer ∧ ¬profile.Holds framework.id

/-- The profile that is asked for. A retained association brings no tag with it. -/
def settled (plan : Plan) (profile : Profile) : Profile where
  associations :=
    {row | row ∈ profile.associations ∧ plan.Offers row.frameworkId ∨
      ∃ framework, plan.Lacks profile framework ∧ row = framework.association plan.repositoryId}
  tags :=
    {key | key ∈ profile.tags ∧ ¬plan.Lapses key ∨
      ∃ framework, plan.Lacks profile framework ∧ key = framework.tagKey}

/-- Some of the steps towards the settled profile are done. -/
structure Approaches (plan : Plan) (before after : Profile) : Prop where
  kept : ∀ row ∈ before.associations, plan.Offers row.frameworkId → row ∈ after.associations
  added : ∀ row ∈ after.associations, row ∈ before.associations ∨
    ∃ framework, plan.Lacks before framework ∧ row = framework.association plan.repositoryId
  keptTags : ∀ key ∈ before.tags, ¬plan.Lapses key → key ∈ after.tags
  addedTags : ∀ key ∈ after.tags, key ∈ before.tags ∨
    ∃ framework, plan.Lacks before framework ∧ key = framework.tagKey

variable {plan : Plan} {before middle after : Profile}

theorem tagKey_not_lapses {framework : Framework} (offered : framework ∈ plan.offer) :
    ¬plan.Lapses framework.tagKey := by
  intro lapses
  exact lapses.2 framework offered rfl

theorem offers_of_lacks {framework : Framework} (lacks : plan.Lacks before framework) :
    plan.Offers framework.id := ⟨framework, lacks.1, rfl⟩

namespace Approaches

theorem refl (plan : Plan) (profile : Profile) : plan.Approaches profile profile where
  kept _ member _ := member
  added _ member := Or.inl member
  keptTags _ member _ := member
  addedTags _ member := Or.inl member

theorem lacks (approaches : plan.Approaches before after) {framework : Framework}
    (isLacking : plan.Lacks after framework) : plan.Lacks before framework := by
  refine ⟨isLacking.1, ?_⟩
  intro holds
  obtain ⟨row, member, same⟩ := holds
  have offered : plan.Offers row.frameworkId := ⟨framework, isLacking.1, same.symm⟩
  exact isLacking.2 ⟨row, approaches.kept row member offered, same⟩

theorem trans (first : plan.Approaches before middle) (second : plan.Approaches middle after) :
    plan.Approaches before after where
  kept row member offered := second.kept row (first.kept row member offered) offered
  added row member := by
    rcases second.added row member with old | new
    · exact first.added row old
    · obtain ⟨framework, isLacking, same⟩ := new
      exact Or.inr ⟨framework, first.lacks isLacking, same⟩
  keptTags key member current := second.keptTags key (first.keptTags key member current) current
  addedTags key member := by
    rcases second.addedTags key member with old | new
    · exact first.addedTags key old
    · obtain ⟨framework, isLacking, same⟩ := new
      exact Or.inr ⟨framework, first.lacks isLacking, same⟩

theorem settled (approaches : plan.Approaches before after)
    (offered : ∀ row ∈ after.associations, plan.Offers row.frameworkId)
    (associated : ∀ framework, plan.Lacks before framework →
      framework.association plan.repositoryId ∈ after.associations ∧ framework.tagKey ∈ after.tags)
    (current : ∀ key ∈ after.tags, ¬plan.Lapses key) : after = plan.settled before := by
  apply Profile.ext
  · ext row
    constructor
    · intro member
      rcases approaches.added row member with old | new
      · exact Or.inl ⟨old, offered row member⟩
      · exact Or.inr new
    · intro member
      rcases member with old | new
      · exact approaches.kept row old.1 old.2
      · obtain ⟨framework, lacks, rfl⟩ := new
        exact (associated framework lacks).1
  · ext key
    constructor
    · intro member
      rcases approaches.addedTags key member with old | new
      · exact Or.inl ⟨old, current key member⟩
      · exact Or.inr new
    · intro member
      rcases member with old | new
      · exact approaches.keptTags key old.1 old.2
      · obtain ⟨framework, lacks, rfl⟩ := new
        exact (associated framework lacks).2

end Approaches

theorem approaches_settled (plan : Plan) (profile : Profile) :
    plan.Approaches profile (plan.settled profile) where
  kept _ member offered := Or.inl ⟨member, offered⟩
  added _ member := member.imp And.left id
  keptTags _ member current := Or.inl ⟨member, current⟩
  addedTags _ member := member.imp And.left id

theorem approaches_dissociated {row : Association} (unoffered : ¬plan.Offers row.frameworkId)
    (profile : Profile) : plan.Approaches profile (profile.dissociated row) where
  kept other member offered := by
    refine ⟨member, ?_⟩
    intro same
    exact unoffered (same ▸ offered)
  added _ member := Or.inl member.1
  keptTags _ member _ := member
  addedTags _ member := Or.inl member

theorem approaches_untagged {key : TagKey} (lapses : plan.Lapses key) (profile : Profile) :
    plan.Approaches profile (profile.untagged key) where
  kept _ member _ := member
  added _ member := Or.inl member
  keptTags other member current := by
    refine ⟨member, ?_⟩
    intro same
    exact current (same ▸ lapses)
  addedTags _ member := Or.inl member.1

theorem approaches_associated {framework : Framework} (lacks : plan.Lacks before framework) :
    plan.Approaches before (before.associated (framework.association plan.repositoryId)) where
  kept _ member _ := Or.inr member
  added row member := by
    rcases member with rfl | old
    · exact Or.inr ⟨framework, lacks, rfl⟩
    · exact Or.inl old
  keptTags _ member _ := member
  addedTags _ member := Or.inl member

theorem approaches_tagged {framework : Framework} (lacks : plan.Lacks before framework)
    (approaches : plan.Approaches before after) :
    plan.Approaches before (after.tagged framework.tagKey) where
  kept := approaches.kept
  added := approaches.added
  keptTags key member current := Or.inr (approaches.keptTags key member current)
  addedTags key member := by
    rcases member with rfl | old
    · exact Or.inr ⟨framework, lacks, rfl⟩
    · exact approaches.addedTags key old

theorem settled_offered {row : Association}
    (member : row ∈ (plan.settled before).associations) : plan.Offers row.frameworkId := by
  rcases member with old | new
  · exact old.2
  · obtain ⟨framework, lacks, rfl⟩ := new
    exact offers_of_lacks lacks

theorem settled_holds {framework : Framework} (offered : framework ∈ plan.offer) :
    (plan.settled before).Holds framework.id := by
  by_cases holds : before.Holds framework.id
  · obtain ⟨row, member, same⟩ := holds
    exact ⟨row, Or.inl ⟨member, ⟨framework, offered, same.symm⟩⟩, same⟩
  · exact ⟨framework.association plan.repositoryId, Or.inr ⟨framework, ⟨offered, holds⟩, rfl⟩, rfl⟩

theorem settled_current {key : TagKey} (member : key ∈ (plan.settled before).tags) :
    ¬plan.Lapses key := by
  rcases member with old | new
  · exact old.2
  · obtain ⟨framework, lacks, rfl⟩ := new
    exact tagKey_not_lapses lacks.1

theorem settled_settled (plan : Plan) (profile : Profile) :
    plan.settled (plan.settled profile) = plan.settled profile := by
  refine ((Approaches.refl plan (plan.settled profile)).settled ?_ ?_ ?_).symm
  · intro row member
    exact settled_offered member
  · intro framework lacks
    exact absurd (settled_holds lacks.1) lacks.2
  · intro key member
    exact settled_current member

/-- An association is new exactly if its framework was lacking before. -/
theorem new_association (distinct : plan.Distinct) (approaches : plan.Approaches before after)
    {framework : Framework} (lacks : plan.Lacks before framework) :
    framework.association plan.repositoryId ∈ after.associations ↔ ¬plan.Lacks after framework := by
  constructor
  · intro member isLacking
    exact isLacking.2 ⟨_, member, rfl⟩
  · intro present
    have holds : after.Holds framework.id := by
      by_contra missing
      exact present ⟨lacks.1, missing⟩
    obtain ⟨row, member, same⟩ := holds
    rcases approaches.added row member with old | new
    · exact absurd ⟨row, old, same⟩ lacks.2
    · obtain ⟨other, otherLacks, rfl⟩ := new
      rwa [← distinct other otherLacks.1 framework lacks.1 same]

/-- However far a reconciliation came, the next one arrives at the same associations. -/
theorem settled_associations (distinct : plan.Distinct)
    (approaches : plan.Approaches before after) :
    (plan.settled after).associations = (plan.settled before).associations := by
  ext row
  constructor
  · intro member
    rcases member with old | new
    · exact (approaches.added row old.1).imp (fun present => ⟨present, old.2⟩) id
    · obtain ⟨framework, lacks, same⟩ := new
      exact Or.inr ⟨framework, approaches.lacks lacks, same⟩
  · intro member
    rcases member with old | new
    · exact Or.inl ⟨approaches.kept row old.1 old.2, old.2⟩
    · obtain ⟨framework, lacks, rfl⟩ := new
      by_cases isLacking : plan.Lacks after framework
      · exact Or.inr ⟨framework, isLacking, rfl⟩
      · exact Or.inl
          ⟨(new_association distinct approaches lacks).mpr isLacking, offers_of_lacks lacks⟩

/-- The tag of an association that was stored on the way is in place, or the tag of one that is
still to be stored stands in for it. -/
def Backed (plan : Plan) (before after : Profile) : Prop :=
  ∀ framework, plan.Lacks before framework → ¬plan.Lacks after framework →
    framework.tagKey ∈ after.tags ∨
      ∃ other, plan.Lacks after other ∧ other.tagName = framework.tagName

/-- The next reconciliation arrives at the same tags exactly if all new associations are backed:
tags are only ever linked along with their associations. -/
theorem settled_iff_backed (distinct : plan.Distinct) (approaches : plan.Approaches before after) :
    plan.settled after = plan.settled before ↔ plan.Backed before after := by
  constructor
  · intro same framework lacks stored
    have member : framework.tagKey ∈ (plan.settled after).tags := by
      rw [same]
      exact Or.inr ⟨framework, lacks, rfl⟩
    rcases member with old | new
    · exact Or.inl old.1
    · obtain ⟨other, isLacking, key⟩ := new
      exact Or.inr ⟨other, isLacking, (congrArg TagKey.name key).symm⟩
  · intro backed
    apply Profile.ext (settled_associations distinct approaches)
    ext key
    constructor
    · intro member
      rcases member with old | new
      · exact (approaches.addedTags key old.1).imp (fun present => ⟨present, old.2⟩) id
      · obtain ⟨framework, isLacking, same⟩ := new
        exact Or.inr ⟨framework, approaches.lacks isLacking, same⟩
    · intro member
      rcases member with old | new
      · exact Or.inl ⟨approaches.keptTags key old.1 old.2, old.2⟩
      · obtain ⟨framework, lacks, rfl⟩ := new
        by_cases isLacking : plan.Lacks after framework
        · exact Or.inr ⟨framework, isLacking, rfl⟩
        · rcases backed framework lacks isLacking with present | shared
          · exact Or.inl ⟨present, tagKey_not_lapses lacks.1⟩
          · obtain ⟨other, otherLacks, same⟩ := shared
            refine Or.inr ⟨other, otherLacks, ?_⟩
            simp only [Framework.tagKey, same]

theorem Approaches.tag_iff (approaches : plan.Approaches before after) {key : TagKey}
    (other : ¬key.IsFramework) : key ∈ after.tags ↔ key ∈ before.tags := by
  constructor
  · intro member
    rcases approaches.addedTags key member with old | new
    · exact old
    · obtain ⟨framework, -, rfl⟩ := new
      exact absurd framework.tagKey_isFramework other
  · intro member
    exact approaches.keptTags key member fun lapses => other lapses.1

theorem Approaches.frameworkPart (approaches : plan.Approaches before after) :
    plan.Approaches before.frameworkPart after.frameworkPart where
  kept := approaches.kept
  added := approaches.added
  keptTags key member current := ⟨approaches.keptTags key member.1 current, member.2⟩
  addedTags key member := (approaches.addedTags key member.1).imp (fun old => ⟨old, member.2⟩) id

theorem settled_frameworkPart (plan : Plan) (profile : Profile) :
    (plan.settled profile).frameworkPart = plan.settled profile.frameworkPart := by
  apply Profile.ext
  · rfl
  · ext key
    constructor
    · intro member
      rcases member.1 with old | new
      · exact Or.inl ⟨⟨old.1, member.2⟩, old.2⟩
      · exact Or.inr new
    · intro member
      rcases member with old | new
      · exact ⟨Or.inl ⟨old.1.1, old.2⟩, old.1.2⟩
      · obtain ⟨framework, lacks, rfl⟩ := new
        exact ⟨Or.inr ⟨framework, lacks, rfl⟩, framework.tagKey_isFramework⟩

theorem backed_frameworkPart :
    plan.Backed before.frameworkPart after.frameworkPart ↔ plan.Backed before after := by
  constructor
  · intro backed framework lacks stored
    exact (backed framework lacks stored).imp And.left id
  · intro backed framework lacks stored
    exact (backed framework lacks stored).imp
      (fun member => ⟨member, framework.tagKey_isFramework⟩) id

theorem frameworkNames_settled (plan : Plan) (profile : Profile) :
    (plan.settled profile).frameworkNames =
      {name | name ∈ profile.frameworkNames ∧ (∃ framework ∈ plan.offer, framework.tagName = name) ∨
        ∃ framework, plan.Lacks profile framework ∧ framework.tagName = name} := by
  ext name
  constructor
  · intro member
    obtain ⟨key, present, isFramework, rfl⟩ := member
    rcases present with old | new
    · refine Or.inl ⟨⟨key, old.1, isFramework, rfl⟩, ?_⟩
      by_contra unnamed
      refine old.2 ⟨isFramework, fun framework offered same => ?_⟩
      exact unnamed ⟨framework, offered, same⟩
    · obtain ⟨framework, lacks, rfl⟩ := new
      exact Or.inr ⟨framework, lacks, rfl⟩
  · intro member
    rcases member with old | new
    · obtain ⟨⟨key, present, isFramework, rfl⟩, framework, offered, same⟩ := old
      refine ⟨key, Or.inl ⟨present, ?_⟩, isFramework, rfl⟩
      intro lapses
      exact lapses.2 framework offered same
    · obtain ⟨framework, lacks, rfl⟩ := new
      exact ⟨framework.tagKey, Or.inr ⟨framework, lacks, rfl⟩, rfl, rfl⟩

end Plan

end ModelHub
