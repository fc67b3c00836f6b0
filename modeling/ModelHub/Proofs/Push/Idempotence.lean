import ModelHub.Proofs.Push.Effect
import ModelHub.Proofs.Push.Reachable

/-! A push that is processed twice without failing store calls leaves every repository with the tags
and associations that it had after the first time, as far as the store shows them.

The second time may add tags to the catalogue, which the first had no need of. So a link that names
a number not given out yet would come to mean something: no such link may be there. -/

namespace ModelHub

namespace Association

theorem le_trans {a b c : Association} (ab : a.le b = true) (bc : b.le c = true) :
    a.le c = true := by
  unfold Association.le at *
  grind

theorem le_total (a b : Association) : (a.le b || b.le a) = true := by
  unfold Association.le
  grind

theorem le_antisymm {a b : Association} (sameRepository : a.repositoryId = b.repositoryId)
    (ab : a.le b = true) (ba : b.le a = true) : a = b := by
  obtain ⟨_, _, _⟩ := a
  obtain ⟨_, _, _⟩ := b
  simp only [Association.le] at *
  grind

end Association

namespace Store

variable {before after : Store} {repositoryId pushed : Int}

theorem associationsOf_congr (lawful : before.Lawful) (lawfulAfter : after.Lawful)
    (same : (after.profile repositoryId).associations =
      (before.profile repositoryId).associations) :
    after.associationsOf repositoryId = before.associationsOf repositoryId := by
  have sorted : ∀ store : Store, (store.associationsOf repositoryId).Pairwise
      fun a b => Association.le a b = true := fun store =>
    List.pairwise_mergeSort (fun a b c => @Association.le_trans a b c) Association.le_total _
  have unique : ∀ store : Store, store.Lawful → (store.associationsOf repositoryId).Nodup :=
    fun store isLawful => (List.mergeSort_perm _ _).nodup_iff.mpr (isLawful.associations.filter _)
  have perm : (after.associationsOf repositoryId).Perm (before.associationsOf repositoryId) := by
    refine (List.perm_ext_iff_of_nodup (unique after lawfulAfter) (unique before lawful)).mpr ?_
    intro row
    rw [mem_associationsOf, mem_associationsOf, same]
  refine perm.eq_of_pairwise ?_ (sorted after) (sorted before)
  intro a b aMember bMember ab ba
  have aIsOf := (mem_associationsOf.mp aMember).2
  have bIsOf := (mem_associationsOf.mp bMember).2
  exact Association.le_antisymm (aIsOf.trans bIsOf.symm) ab ba

theorem tagRowsOf_none (store : Store) (repositoryId : Int) :
    store.tagRowsOf repositoryId none =
      (store.tags.filter fun row => store.isLinked repositoryId row.id).mergeSort TagRow.le := by
  simp [tagRowsOf]

/-- The listed tags stay if the links to the tags there were stay, and no new tag is linked. -/
theorem tagRowsOf_congr (revises : Store.Revises pushed before after) (lawfulAfter : after.Lawful)
    (kept : ∀ row ∈ before.tags,
      after.isLinked repositoryId row.id = before.isLinked repositoryId row.id)
    (unlinked : ∀ row ∈ after.tags, before.lastTagId < row.id →
      after.isLinked repositoryId row.id = false) :
    after.tagRowsOf repositoryId none = before.tagRowsOf repositoryId none := by
  obtain ⟨extra, appended⟩ := revises.tags
  have nothing : (extra.filter fun row => after.isLinked repositoryId row.id) = [] := by
    refine List.filter_eq_nil_iff.mpr ?_
    intro row member linked
    have present : row ∈ after.tags := appended ▸ List.mem_append_right _ member
    rcases revises.newTags row present with old | isNew
    · have unique := lawfulAfter.tagIds
      rw [← appended, List.map_append, List.nodup_append] at unique
      exact unique.2.2 _ (List.mem_map_of_mem old) _ (List.mem_map_of_mem member) rfl
    · rw [unlinked row present isNew] at linked
      cases linked
  rw [tagRowsOf_none, tagRowsOf_none, ← appended, List.filter_append, nothing, List.append_nil]
  congr 1
  refine List.filter_congr ?_
  intro row member
  exact kept row member

/-- Links name only tag numbers that were given out. -/
def Issued (store : Store) : Prop := ∀ link ∈ store.links, link.tagId ≤ store.lastTagId

theorem Revises.issued (revises : Store.Revises pushed before after) (lawfulAfter : after.Lawful)
    (issued : before.Issued) : after.Issued := by
  intro link member
  by_cases present : after.HasTag link.tagId
  · obtain ⟨row, rowMember, same⟩ := present
    have bound := lawfulAfter.tagNumbers row rowMember
    omega
  · have old := (revises.strays link present).mp member
    exact Int.le_trans (issued link old) revises.tagNumbers

theorem Lawful.mem_links {store : Store} (lawful : store.Lawful) {row : TagRow}
    (member : row ∈ store.tags) :
    ({ repositoryId, tagId := row.id } : TagLink) ∈ store.links ↔
      row.key ∈ (store.profile repositoryId).tags := by
  constructor
  · intro linked
    exact ⟨row, member, rfl, linked⟩
  · intro bears
    obtain ⟨other, otherMember, sameKey, linked⟩ := bears
    obtain rfl := lawful.tag_of_key otherMember member sameKey
    exact linked

theorem Revises.links_of_profile (revises : Store.Revises pushed before after)
    (lawful : before.Lawful) (issued : before.Issued)
    (same : (after.profile pushed).tags = (before.profile pushed).tags) (link : TagLink) :
    link ∈ after.links ↔ link ∈ before.links := by
  have lawfulAfter := revises.lawful lawful
  by_cases other : link.repositoryId ≠ pushed
  · exact revises.links link other
  obtain ⟨repositoryId, tagId⟩ := link
  obtain rfl : repositoryId = pushed := not_not.mp other
  by_cases absent : ¬after.HasTag tagId
  · exact revises.strays _ absent
  obtain ⟨row, member, rfl⟩ := not_not.mp absent
  rw [lawfulAfter.mem_links member, same]
  rcases revises.newTags row member with old | isNew
  · exact (lawful.mem_links old).symm
  · refine iff_of_false ?_ ?_
    · intro bears
      obtain ⟨old, oldMember, sameKey, -⟩ := bears
      obtain rfl := lawfulAfter.tag_of_key (revises.tags.mem oldMember) member sameKey
      have bound := lawful.tagNumbers old oldMember
      omega
    · intro linked
      have bound : row.id ≤ before.lastTagId := issued _ linked
      omega

theorem Revises.tagRowsOf_of_links (revises : Store.Revises pushed before after)
    (lawful : before.Lawful) (issued : before.Issued)
    (links : ∀ link, link ∈ after.links ↔ link ∈ before.links) (repositoryId : Int) :
    after.tagRowsOf repositoryId none = before.tagRowsOf repositoryId none := by
  refine tagRowsOf_congr revises (revises.lawful lawful) ?_ ?_
  · intro row _
    unfold isLinked
    rw [decide_eq_decide, links]
  · intro row _ isNew
    unfold isLinked
    rw [decide_eq_false_iff_not, links]
    intro linked
    have bound : row.id ≤ before.lastTagId := issued _ linked
    omega

end Store

namespace Push

variable {options : Options} {event : PushEvent} {store : Store} {first second : Conditions}
  {firstResult secondResult : Option PushResult} {once twice : Course}

theorem profile_twice (steadyFirst : first.Steady) (steadySecond : second.Steady)
    (sameFiles : second.files = first.files) (lawful : store.Lawful) {pushed : Int}
    (targets : ∀ place, event.target? store = some place → place.id = pushed)
    (firstRuns : first.run (handle options event) store = (firstResult, once))
    (firstUnfailing : once.Unfailing)
    (secondRuns : second.run (handle options event) once.store = (secondResult, twice))
    (secondUnfailing : twice.Unfailing) :
    twice.store.profile pushed = once.store.profile pushed := by
  obtain ⟨revises, onceProfile⟩ :=
    profile_of_unfailing steadyFirst lawful targets firstRuns firstUnfailing
  have targetsOnce : ∀ place, event.target? once.store = some place → place.id = pushed := by
    intro place found
    exact targets place (revises.target? event ▸ found)
  obtain ⟨-, twiceProfile⟩ := profile_of_unfailing steadySecond (revises.lawful lawful) targetsOnce
    secondRuns secondUnfailing
  rw [twiceProfile, onceProfile, sameFiles, revises.changes]
  exact Change.result_result (Agenda.changes_coherent lawful _ _ event) _

/-- All links stay, and every repository keeps the tags and associations that are listed for it,
whatever the event and the stored rows are, as long as no link names a tag number still to be given
out. -/
theorem push_twice (steadyFirst : first.Steady) (steadySecond : second.Steady)
    (sameFiles : second.files = first.files) (lawful : store.Lawful) (issued : store.Issued)
    (firstRuns : first.run (handle options event) store = (firstResult, once))
    (firstUnfailing : once.Unfailing)
    (secondRuns : second.run (handle options event) once.store = (secondResult, twice))
    (secondUnfailing : twice.Unfailing) :
    (∀ link, link ∈ twice.store.links ↔ link ∈ once.store.links) ∧
      ∀ repositoryId,
        twice.store.tagRowsOf repositoryId none = once.store.tagRowsOf repositoryId none ∧
        twice.store.associationsOf repositoryId = once.store.associationsOf repositoryId := by
  obtain ⟨pushed, targets⟩ : ∃ pushed, ∀ place, event.target? store = some place →
      place.id = pushed := by
    cases event.target? store with
    | none => exact ⟨0, fun place none => by cases none⟩
    | some place => exact ⟨place.id, fun other same => congrArg _ (Option.some.inj same).symm⟩
  obtain ⟨revises, -⟩ := profile_of_unfailing steadyFirst lawful targets firstRuns firstUnfailing
  have lawfulOnce := revises.lawful lawful
  have targetsOnce : ∀ place, event.target? once.store = some place → place.id = pushed := by
    intro place found
    exact targets place (revises.target? event ▸ found)
  obtain ⟨revisesAgain, -⟩ :=
    profile_of_unfailing steadySecond lawfulOnce targetsOnce secondRuns secondUnfailing
  have same : twice.store.profile pushed = once.store.profile pushed :=
    profile_twice steadyFirst steadySecond sameFiles lawful targets firstRuns firstUnfailing
      secondRuns secondUnfailing
  -- No link waits for a number, so a tag that the second run adds shows nowhere.
  have issuedOnce := revises.issued lawfulOnce issued
  have links := revisesAgain.links_of_profile lawfulOnce issuedOnce (congrArg Profile.tags same)
  refine ⟨links, fun repositoryId => ⟨?_, ?_⟩⟩
  · exact revisesAgain.tagRowsOf_of_links lawfulOnce issuedOnce links repositoryId
  · refine Store.associationsOf_congr lawfulOnce (revisesAgain.lawful lawfulOnce) ?_
    by_cases isPushed : repositoryId = pushed
    · rw [isPushed, same]
    · ext row
      exact and_congr_left fun isOf => revisesAgain.associations row (isOf ▸ isPushed)

def bertOnce : Option PushResult × Course :=
  (Conditions.calm bertFiles).run (handle .plain bertPush) Store.bert

def bertTwice : Option PushResult × Course :=
  (Conditions.calm bertFiles).run (handle .plain bertPush) bertOnce.2.store

theorem bert_pushed_twice :
    bertTwice.2.store.tagRowsOf 1 none = bertOnce.2.store.tagRowsOf 1 none ∧
      bertTwice.2.store.associationsOf 1 = bertOnce.2.store.associationsOf 1 := by
  have issued : ∀ link ∈ Store.bert.links, link.tagId ≤ Store.bert.lastTagId := by decide +kernel
  have onceUnfailing : bertOnce.2.Unfailing := by decide +kernel
  have twiceUnfailing : bertTwice.2.Unfailing := by decide +kernel
  exact (@push_twice .plain bertPush Store.bert (.calm bertFiles) (.calm bertFiles) bertOnce.1
    bertTwice.1 bertOnce.2 bertTwice.2 bertFiles_steady bertFiles_steady rfl
    Store.bert_reachable.lawful issued (Prod.eta bertOnce).symm onceUnfailing
    (Prod.eta bertTwice).symm twiceUnfailing).2 1

/-- A dataset and a model that are linked to a tag number not given out yet. -/
def dangling : Store where
  repositories :=
    [{ id := 1, repoType := .dataset, owner := "acme", name := "corpus", defaultBranch := "main" },
      { id := 2, repoType := .model, owner := "acme", name := "bert", defaultBranch := "main" }]
  links := [{ repositoryId := 1, tagId := 1 }, { repositoryId := 2, tagId := 1 }]
  frameworks := [{ id := 7, name := "vLLM", tagName := "vllm", frameworkType := 1 }]
  compatibilities := [{ frameworkId := 7, architecture := "BertModel", model := "" }]
  associations := [{ repositoryId := 2, frameworkId := 7, associationType := 1 }]
  lastRepositoryId := 2

def bertRemoval : PushEvent :=
  { bertPush with commits := [{ modified := [modelConfigFile], removed := [modelConfigFile] }] }

def danglingOnce : Option PushResult × Course :=
  (Conditions.calm bertFiles).run (handle .plain bertRemoval) dangling

def danglingTwice : Option PushResult × Course :=
  (Conditions.calm bertFiles).run (handle .plain bertRemoval) danglingOnce.2.store

/-- The tag that only the second push makes gets the number of the links: it shows on the dataset,
and the model loses its link along with its framework tags. -/
theorem dangling_links_change :
    (Conditions.calm bertFiles).Steady ∧ dangling.Lawful ∧
      danglingOnce.2.Unfailing ∧ danglingTwice.2.Unfailing ∧
      danglingOnce.2.store.tagRowsOf 1 none = [] ∧
      danglingTwice.2.store.tagRowsOf 1 none =
        [{ id := 1, scope := "model", category := "runtime_framework", group := ""
           name := "vllm" }] ∧
      ({ repositoryId := 2, tagId := 1 } : TagLink) ∈ danglingOnce.2.store.links ∧
      ({ repositoryId := 2, tagId := 1 } : TagLink) ∉ danglingTwice.2.store.links := by
  refine ⟨bertFiles_steady, ?_, by decide +kernel, by decide +kernel, by decide +kernel,
    by decide +kernel, by decide +kernel, by decide +kernel⟩
  constructor <;> decide +kernel

end Push

end ModelHub
