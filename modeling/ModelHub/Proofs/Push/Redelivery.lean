import ModelHub.Proofs.Push.Effect
import ModelHub.Proofs.Push.Reachable

/-! A push that is delivered again after some of its store calls failed.

An association is stored before its tag is linked, and a stored association is never looked at
again. So what a failure between the two leaves behind is not made up for, and this is all that is
not. -/

namespace ModelHub

/-- Each association that was stored by the interrupted push bears its tag, or the tag of an
association that the repeated push stores. -/
def Store.Accompanied (store : Store) (before half repaired : Profile) : Prop :=
  ∀ row ∈ half.associations, row ∉ before.associations →
    ∀ framework, store.framework? row.frameworkId = some framework →
      framework.tagKey ∈ half.tags ∨
        ∃ other ∈ repaired.associations, other ∉ half.associations ∧
          ∃ sibling, store.framework? other.frameworkId = some sibling ∧
            sibling.tagName = framework.tagName

theorem Store.accompanied_frameworkPart {store : Store} {before half repaired : Profile} :
    store.Accompanied before.frameworkPart half.frameworkPart repaired.frameworkPart ↔
      store.Accompanied before half repaired := by
  constructor
  · intro accompanied row member isNew framework found
    exact (accompanied row member isNew framework found).imp And.left id
  · intro accompanied row member isNew framework found
    exact (accompanied row member isNew framework found).imp
      (fun tagged => ⟨tagged, framework.tagKey_isFramework⟩) id

theorem Plan.accompanied_iff {store : Store} {plan : Plan} {before half repaired : Profile}
    (distinct : plan.Distinct) (isFrom : plan.IsFrom store)
    (approaches : plan.Approaches before half)
    (isRepaired : repaired.associations = (plan.settled half).associations) :
    store.Accompanied before half repaired ↔ plan.Backed before half := by
  constructor
  · intro accompanied framework lacks stored
    have present : framework.association plan.repositoryId ∈ half.associations :=
      (Plan.new_association distinct approaches lacks).mpr stored
    have isNew : framework.association plan.repositoryId ∉ before.associations :=
      fun old => lacks.2 ⟨_, old, rfl⟩
    rcases accompanied _ present isNew framework (isFrom framework lacks.1) with tagged | shared
    · exact Or.inl tagged
    · obtain ⟨row, member, absent, sibling, found, same⟩ := shared
      rw [isRepaired] at member
      rcases member with old | new
      · exact absurd old.1 absent
      · obtain ⟨other, otherLacks, rfl⟩ := new
        obtain rfl := isFrom.eq_of_found otherLacks.1 found
        exact Or.inr ⟨other, otherLacks, same⟩
  · intro backed row member isNew framework found
    rcases approaches.added row member with old | new
    · exact absurd old isNew
    · obtain ⟨other, lacks, rfl⟩ := new
      obtain rfl := isFrom.eq_of_found lacks.1 found
      have stored := (Plan.new_association distinct approaches lacks).mp member
      rcases backed other lacks stored with tagged | shared
      · exact Or.inl tagged
      · obtain ⟨sibling, isLacking, same⟩ := shared
        refine Or.inr ⟨sibling.association plan.repositoryId, ?_, ?_, sibling,
          isFrom sibling isLacking.1, same⟩
        · rw [isRepaired]
          exact Or.inr ⟨sibling, isLacking, rfl⟩
        · intro old
          exact isLacking.2 ⟨_, old, rfl⟩

namespace Push

variable {options : Options} {event : PushEvent} {store : Store} {place : RepositoryPlace}
  {interrupted repeating clean : Conditions}
  {interruptedResult repeatedResult cleanResult : Option PushResult} {half repaired whole : Course}

/-- Whatever store calls failed during the first delivery, a second one without failures brings the
repository to the tags and associations of a single clean delivery if and only if the configuration
was removed along the way, or no association was left behind without its tag. -/
theorem redelivery_converges_iff (interruptedSteady : interrupted.Steady)
    (repeatingSteady : repeating.Steady) (cleanSteady : clean.Steady)
    (repeatingFiles : repeating.files = interrupted.files)
    (cleanFiles : clean.files = interrupted.files) (lawful : store.Lawful)
    (planned : ∀ number e, interrupted.storeFault number = some e →
      ∃ message, e = .database message)
    (target : event.target? store = some place)
    (interruptedRuns : interrupted.run (handle options event) store = (interruptedResult, half))
    (repeatedRuns : repeating.run (handle options event) half.store = (repeatedResult, repaired))
    (repeatedUnfailing : repaired.Unfailing)
    (cleanRuns : clean.run (handle options event) store = (cleanResult, whole))
    (cleanUnfailing : whole.Unfailing) :
    repaired.store.profile place.id = whole.store.profile place.id ↔
      (∃ model, event.Configures store options.config .removed model) ∨
        store.Accompanied (store.profile place.id) (half.store.profile place.id)
          (repaired.store.profile place.id) := by
  have targets : ∀ other, event.target? store = some other → other.id = place.id := by
    intro other found
    rw [Option.some.inj (target.symm.trans found)]
  obtain ⟨revises, outcomes⟩ :=
    profile_of_faulty interruptedSteady lawful planned targets interruptedRuns
  have targetsHalf : ∀ other, event.target? half.store = some other → other.id = place.id := by
    intro other found
    exact targets other (revises.target? event ▸ found)
  obtain ⟨-, repairedProfile⟩ := profile_of_unfailing repeatingSteady (revises.lawful lawful)
    targetsHalf repeatedRuns repeatedUnfailing
  obtain ⟨-, wholeProfile⟩ :=
    profile_of_unfailing cleanSteady lawful targets cleanRuns cleanUnfailing
  rw [repeatingFiles, revises.changes] at repairedProfile
  rw [cleanFiles] at wholeProfile
  have coherent := Agenda.changes_coherent lawful options.config interrupted.files event
  rw [repairedProfile, wholeProfile, Change.result_eq_iff coherent outcomes,
    Agenda.clear_mem_changes]
  -- Once the configuration was removed on the way, both deliveries build up everything anew.
  by_cases cleared : ∃ model, event.Configures store options.config .removed model
  · exact iff_of_true (Or.inl cleared) (Or.inl cleared)
  rw [or_iff_right cleared, or_iff_right cleared]
  have uncleared : .clear ∉ Agenda.changes store options.config interrupted.files event :=
    fun member => cleared (Agenda.clear_mem_changes.mp member)
  by_cases settles : ∃ plan, Change.settle plan ∈
      Agenda.changes store options.config interrupted.files event
  · obtain ⟨plan, settles⟩ := settles
    obtain ⟨distinct, uniform⟩ := coherent plan settles
    have part := Change.result_part_of_settle uncleared uniform settles
      (half.store.profile place.id)
    have accompanied := Plan.accompanied_iff distinct (Agenda.isFrom_of_settle lawful settles)
      (outcomes.approaches uncleared uniform) (congrArg Profile.associations part)
    rw [Store.accompanied_frameworkPart, Plan.backed_frameworkPart] at accompanied
    rw [accompanied]
    constructor
    · intro backed
      exact backed plan settles
    · intro backed other otherSettles
      rw [uniform other otherSettles]
      exact backed
  · have unsettled : ∀ plan, .settle plan ∉
        Agenda.changes store options.config interrupted.files event :=
      fun plan member => settles ⟨plan, member⟩
    -- Without a reconciliation the interrupted push stores no association.
    have same := congrArg Profile.associations (outcomes.frameworkPart_eq uncleared unsettled)
    refine iff_of_true (fun plan member => absurd member (unsettled plan)) ?_
    intro row member isNew
    exact absurd ((Set.ext_iff.mp same row).mp member) isNew

/-- The call that is to make the tag fails, after the association was stored. -/
def untagging : Conditions :=
  { Conditions.calm bertFiles with
    storeFault := fun number => if number = 15 then some (.database "disk I/O error") else none }

theorem untagging_steady : untagging.Steady where
  __ := bertFiles_steady

def interruptedPush : Option PushResult × Course :=
  untagging.run (handle .plain bertPush) Store.bert

def repeatedPush : Option PushResult × Course :=
  (Conditions.calm bertFiles).run (handle .plain bertPush) interruptedPush.2.store

def cleanPush : Option PushResult × Course :=
  (Conditions.calm bertFiles).run (handle .plain bertPush) Store.bert

theorem redelivery_leaves_untagged :
    repeatedPush.2.store.profile bertPlace.id ≠ cleanPush.2.store.profile bertPlace.id := by
  have planned : ∀ number e, untagging.storeFault number = some e →
      ∃ message, e = .database message := by
    intro number e fault
    simp only [untagging] at fault
    split at fault
    · exact ⟨_, (Option.some.inj fault).symm⟩
    · cases fault
  have target : bertPush.target? Store.bert = some bertPlace := by decide +kernel
  have repeatedUnfailing : repeatedPush.2.Unfailing := by decide +kernel
  have cleanUnfailing : cleanPush.2.Unfailing := by decide +kernel
  intro same
  have converges := (@redelivery_converges_iff .plain bertPush Store.bert bertPlace untagging
    (.calm bertFiles) (.calm bertFiles) interruptedPush.1 repeatedPush.1 cleanPush.1
    interruptedPush.2 repeatedPush.2 cleanPush.2 untagging_steady bertFiles_steady bertFiles_steady
    rfl rfl Store.bert_reachable.lawful planned target (Prod.eta interruptedPush).symm
    (Prod.eta repeatedPush).symm repeatedUnfailing (Prod.eta cleanPush).symm cleanUnfailing).mp same
  rcases converges with ⟨model, cleared⟩ | accompanied
  · have kept : (FileAction.removed, modelConfigFile) ∉ bertPush.handled := by decide +kernel
    exact kept cleared.touched
  · let row : Association := { repositoryId := 1, frameworkId := 7, associationType := 1 }
    have stored : row ∈ interruptedPush.2.store.associations := by decide +kernel
    have isNew : row ∉ Store.bert.associations := by decide +kernel
    have found : Store.bert.framework? row.frameworkId =
        some { id := 7, name := "vLLM", tagName := "vllm", frameworkType := 1 } := by decide +kernel
    have tagless : interruptedPush.2.store.tags = [] := by decide +kernel
    have nothingNew : repeatedPush.2.store.associations = interruptedPush.2.store.associations := by
      decide +kernel
    rcases accompanied row ⟨stored, rfl⟩ (fun old => isNew old.1) _ found with tagged | shared
    · obtain ⟨tag, member, -⟩ := tagged
      rw [tagless] at member
      cases member
    · obtain ⟨other, member, absent, -⟩ := shared
      exact absent ⟨nothingNew ▸ member.1, member.2⟩

end Push

end ModelHub
