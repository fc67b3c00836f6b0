import ModelHub.Proofs.Tagging.Service

namespace ModelHub

open Work (askStore)

namespace ModelConfig

variable {content : String} {e : HubError}

theorem architecture_error (failed : architecture content = .error e) :
    e = unreadable ∨ e = undeclared := by
  unfold architecture at failed
  split at failed
  · exact .inl (Except.error.inj failed).symm
  · split at failed
    · exact .inr (Except.error.inj failed).symm
    · cases failed

theorem isSkippable_of_architecture (failed : architecture content = .error e) : e.isSkippable := by
  rcases architecture_error failed with rfl | rfl <;> rfl

end ModelConfig

namespace Reconcile

/-- The desired state names the given frameworks, and each of them once. -/
structure Desired.Names (desired : Desired) (frameworks : Set Framework) : Prop where
  candidates : ∀ candidate, candidate ∈ desired.candidates ↔
    ∃ framework ∈ frameworks, framework.candidate = candidate
  frameworks : ∀ framework, framework ∈ desired.frameworks ↔ framework ∈ frameworks
  distinct : (desired.candidates.map Candidate.frameworkId).Nodup

theorem isDesired_iff {candidates : List Candidate} {id : Int} :
    Difference.isDesired candidates id = true ↔
      ∃ candidate ∈ candidates, candidate.frameworkId = id := by
  simp only [Difference.isDesired, List.any_eq_true, decide_eq_true_eq]

theorem isStored_iff {stored : List Association} {id : Int} :
    Difference.isStored stored id = true ↔ ∃ row ∈ stored, row.frameworkId = id := by
  simp only [Difference.isStored, List.any_eq_true, decide_eq_true_eq]

theorem insertCandidate_perm {candidate : Candidate} {candidates : List Candidate}
    (absent : ∀ other ∈ candidates, other.frameworkId ≠ candidate.frameworkId) :
    (Difference.insertCandidate candidate candidates).Perm (candidate :: candidates) := by
  induction candidates with
  | nil => exact List.Perm.refl _
  | cons head tail ih =>
    have headDiffers := absent head List.mem_cons_self
    have tailDiffers := fun other member => absent other (List.mem_cons_of_mem head member)
    unfold Difference.insertCandidate
    split
    · exact List.Perm.refl _
    · split
      · next same => exact absurd same.symm headDiffers
      · exact ((ih tailDiffers).cons head).trans (List.Perm.swap candidate head tail)

namespace Desired

variable {desired : Desired} {frameworks : Set Framework}

theorem names_empty : ({} : Desired).Names ∅ where
  candidates candidate := by simp
  frameworks framework := by simp
  distinct := List.nodup_nil

theorem Names.isDesired (names : desired.Names frameworks) {id : Int} :
    Difference.isDesired desired.candidates id = true ↔
      ∃ framework ∈ frameworks, framework.id = id := by
  rw [isDesired_iff]
  constructor
  · intro present
    obtain ⟨candidate, member, same⟩ := present
    obtain ⟨framework, named, rfl⟩ := (names.candidates candidate).mp member
    exact ⟨framework, named, same⟩
  · intro present
    obtain ⟨framework, named, same⟩ := present
    exact ⟨framework.candidate, (names.candidates _).mpr ⟨framework, named, rfl⟩, same⟩

theorem Names.add (names : desired.Names frameworks) {framework : Framework}
    (absent : ∀ other ∈ frameworks, other.id ≠ framework.id) :
    (desired.add framework.candidate framework).Names (insert framework frameworks) := by
  have new : ∀ candidate ∈ desired.candidates,
      candidate.frameworkId ≠ framework.candidate.frameworkId := by
    intro candidate member
    obtain ⟨other, named, rfl⟩ := (names.candidates candidate).mp member
    exact absent other named
  have perm := insertCandidate_perm new
  refine ⟨?_, ?_, ?_⟩
  · intro candidate
    show candidate ∈ Difference.insertCandidate framework.candidate desired.candidates ↔ _
    rw [perm.mem_iff, List.mem_cons, names.candidates]
    simp only [Set.mem_insert_iff, exists_eq_or_imp, eq_comm (a := candidate)]
  · intro other
    simp only [Desired.add, List.mem_cons, List.mem_filter, decide_eq_true_eq, names.frameworks,
      Set.mem_insert_iff]
    constructor
    · intro member
      exact member.imp id And.left
    · intro member
      exact member.imp id fun named => ⟨named, absent other named⟩
  · show ((Difference.insertCandidate framework.candidate desired.candidates).map _).Nodup
    rw [(perm.map Candidate.frameworkId).nodup_iff, List.map_cons, List.nodup_cons]
    refine ⟨?_, names.distinct⟩
    intro member
    obtain ⟨candidate, candidateMember, same⟩ := List.mem_map.mp member
    exact new candidate candidateMember same

theorem Names.framework? (names : desired.Names frameworks)
    (distinct : ∀ framework ∈ frameworks, ∀ other ∈ frameworks,
      framework.id = other.id → framework = other)
    {framework : Framework} (named : framework ∈ frameworks) :
    desired.framework? framework.id = some framework := by
  unfold Desired.framework?
  cases found : desired.frameworks.find? fun other => other.id = framework.id with
  | none =>
    have absent := List.find?_eq_none.mp found framework ((names.frameworks framework).mpr named)
    simp at absent
  | some other =>
    have same : other.id = framework.id := by simpa using List.find?_some found
    have otherNamed := (names.frameworks other).mp (List.mem_of_find?_eq_some found)
    rw [distinct other otherNamed framework named same]

end Desired

end Reconcile

namespace Scene

open Reconcile (Desired)

variable {scene : Scene} {profile : Profile} {bad : HubError → Profile → Prop}

/-- A candidate stands for one framework of the catalogue only. -/
theorem insert_backed {framework : Framework} (present : framework ∈ scene.store.frameworks)
    (frameworks : Set Framework) (rest : List Candidate) :
    insert framework frameworks ∪
        {other | other ∈ scene.store.frameworks ∧ other.candidate ∈ rest} =
      frameworks ∪ {other | other ∈ scene.store.frameworks ∧
        other.candidate ∈ framework.candidate :: rest} := by
  ext other
  constructor
  · intro member
    rcases member with (rfl | old) | listed
    · exact Or.inr ⟨present, List.mem_cons_self⟩
    · exact Or.inl old
    · exact Or.inr ⟨listed.1, List.mem_cons_of_mem _ listed.2⟩
  · intro member
    rcases member with old | ⟨otherPresent, otherMember⟩
    · exact Or.inl (Or.inr old)
    · rcases List.mem_cons.mp otherMember with first | later
      · have same := scene.lawful.framework_of_id otherPresent present
          (congrArg Candidate.frameworkId first)
        exact Or.inl (Or.inl same)
      · exact Or.inr ⟨otherPresent, later⟩

theorem does_resolve {good : Desired → Profile → Prop}
    (onFailure : ∀ e, scene.faults e → bad e profile) (rest : List Candidate) (desired : Desired)
    (frameworks : Set Framework) (names : desired.Names frameworks)
    (known : ∀ framework ∈ frameworks, framework ∈ scene.store.frameworks)
    (backed : ∀ candidate ∈ rest, ∃ framework ∈ scene.store.frameworks,
      framework.candidate = candidate)
    (onValue : ∀ last : Desired, last.Names (frameworks ∪
      {framework | framework ∈ scene.store.frameworks ∧ framework.candidate ∈ rest}) →
        good last profile) :
    scene.Does (Reconcile.resolve rest desired) profile good bad := by
  induction rest generalizing desired frameworks with
  | nil =>
    refine does_pure (onValue desired ?_)
    simpa using names
  | cons candidate rest ih =>
    have backedRest := fun other member => backed other (List.mem_cons_of_mem candidate member)
    obtain ⟨framework, present, rfl⟩ := backed candidate List.mem_cons_self
    rw [← insert_backed present] at onValue
    unfold Reconcile.resolve
    split
    · next isDesired =>
      obtain ⟨other, named, same⟩ := names.isDesired.mp isDesired
      obtain rfl : other = framework :=
        scene.lawful.framework_of_id (known other named) present same
      rw [Set.insert_eq_of_mem named] at onValue
      exact ih desired frameworks names known backedRest onValue
    · next isNew =>
      refine does_bind (does_findFramework ?_ onFailure)
      have found : scene.store.framework? framework.candidate.frameworkId = some framework :=
        scene.lawful.framework?_eq present
      rw [found]
      have absent : ∀ other ∈ frameworks, other.id ≠ framework.id := by
        intro other named same
        exact isNew (names.isDesired.mpr ⟨other, named, same⟩)
      refine ih _ (insert framework frameworks) (names.add absent) ?_ backedRest onValue
      intro other member
      rcases member with rfl | old
      · exact present
      · exact known other old

theorem does_desiredFor {architecture model : String} {good : Desired → Profile → Prop}
    (onValue : ∀ desired : Desired,
      desired.Names {framework | framework ∈ scene.store.offer architecture model} →
        good desired profile)
    (onFailure : ∀ e, scene.faults e → bad e profile) :
    scene.Does (Reconcile.desiredFor architecture model) profile good bad := by
  refine does_bind (does_listCandidates ?_ onFailure)
  refine does_resolve onFailure _ {} ∅ Desired.names_empty (fun _ member => member.elim) ?_ ?_
  · intro candidate member
    obtain ⟨framework, offered, same⟩ := Store.mem_candidates.mp member
    exact ⟨framework, (List.mem_filter.mp offered).1, same⟩
  · intro desired names
    refine onValue desired ?_
    have offered : (∅ : Set Framework) ∪ {framework | framework ∈ scene.store.frameworks ∧
        framework.candidate ∈ scene.store.candidates architecture model} =
          {framework | framework ∈ scene.store.offer architecture model} := by
      ext framework
      simp only [Set.empty_union, Set.mem_ofPred_eq, Store.mem_candidates]
      constructor
      · intro listed
        obtain ⟨present, other, otherOffered, same⟩ := listed
        have otherPresent := (List.mem_filter.mp otherOffered).1
        rwa [← scene.lawful.framework_of_id otherPresent present
          (congrArg Candidate.frameworkId same)]
      · intro isOffered
        exact ⟨(List.mem_filter.mp isOffered).1, framework, isOffered, rfl⟩
    rw [← offered]
    exact names

end Scene

end ModelHub
