import ModelHub.Proofs.Push.Agenda
import ModelHub.Proofs.Store.Lawful
import ModelHub.Proofs.Text.Case

namespace ModelHub

/-- The row is for the architecture or for the model; an empty name is for none. -/
def CompatibilityRow.IsFor (row : CompatibilityRow) (architecture model : String) : Prop :=
  row.architecture ≠ "" ∧ row.architecture.toList.Forall₂ Text.SameLetter architecture.toList ∨
    row.model ≠ "" ∧ row.model = model

theorem CompatibilityRow.covers_iff {row : CompatibilityRow} {architecture model : String} :
    row.covers architecture model = true ↔ row.IsFor architecture model := by
  simp only [covers, IsFor, Bool.or_eq_true, Bool.and_eq_true, decide_eq_true_eq, Text.fold_eq_iff]

def Candidate.Before (a b : Candidate) : Prop := a.frameworkId < b.frameworkId

namespace Store

variable {store : Store} {architecture model : String}

def Runs (store : Store) (architecture model : String) (framework : Framework) : Prop :=
  framework ∈ store.frameworks ∧
    ∃ row ∈ store.compatibilities, row.frameworkId = framework.id ∧ row.IsFor architecture model

theorem mem_offer_iff_runs {framework : Framework} :
    framework ∈ store.offer architecture model ↔ store.Runs architecture model framework := by
  simp only [mem_offer_iff, mem_joined_iff, CompatibilityRow.covers_iff, Runs]
  constructor
  · rintro ⟨row, ⟨listed, present, same⟩, isFor⟩
    exact ⟨present, row, listed, same.symm, isFor⟩
  · rintro ⟨present, row, listed, same, isFor⟩
    exact ⟨row, ⟨listed, present, same.symm⟩, isFor⟩

theorem mem_candidates_iff {candidate : Candidate} :
    candidate ∈ store.candidates architecture model ↔
      ∃ framework, store.Runs architecture model framework ∧ framework.candidate = candidate := by
  simp only [mem_candidates, mem_offer_iff_runs]

theorem candidates_sorted (store : Store) (architecture model : String) :
    (store.candidates architecture model).Pairwise fun a b => a.frameworkId ≤ b.frameworkId := by
  refine (List.pairwise_mergeSort ?_ ?_ _).imp of_decide_eq_true
  · intro a b c first second
    simp only [decide_eq_true_eq] at *
    omega
  · intro a b
    simp only [Bool.or_eq_true, decide_eq_true_eq]
    omega

theorem candidates_nodup (store : Store) (architecture model : String) :
    (store.candidates architecture model).Nodup :=
  (List.mergeSort_perm _ _).nodup_iff.mpr (nodup_insertAll List.nodup_nil)

/-- Where the numbers of frameworks are keys, candidates of one number are one candidate. -/
theorem Lawful.candidates_ascending (lawful : store.Lawful) :
    (store.candidates architecture model).Pairwise Candidate.Before := by
  have apart := (candidates_sorted store architecture model).and
    (candidates_nodup store architecture model)
  refine apart.imp_of_mem ?_
  rintro a b inList alsoInList ⟨ordered, differ⟩
  refine lt_of_le_of_ne ordered fun same => differ ?_
  obtain ⟨framework, offered, rfl⟩ := mem_candidates_iff.mp inList
  obtain ⟨other, otherOffered, rfl⟩ := mem_candidates_iff.mp alsoInList
  rw [lawful.framework_of_id offered.1 otherOffered.1 same]

structure SameCatalogue (store after : Store) : Prop where
  frameworks : after.frameworks = store.frameworks
  compatibilities : after.compatibilities = store.compatibilities

namespace SameCatalogue

theorem rfl {store : Store} : store.SameCatalogue store := ⟨Eq.refl _, Eq.refl _⟩

theorem trans {middle after : Store} (first : store.SameCatalogue middle)
    (second : middle.SameCatalogue after) : store.SameCatalogue after :=
  ⟨second.frameworks.trans first.frameworks, second.compatibilities.trans first.compatibilities⟩

theorem candidates {after : Store} (same : store.SameCatalogue after) :
    after.candidates architecture model = store.candidates architecture model := by
  simp only [Store.candidates, Store.joined, same.frameworks, same.compatibilities]

end SameCatalogue

theorem linkAll_sameCatalogue (repositoryId : Int) (tags : List Tag) (store : Store) :
    store.SameCatalogue (store.linkAll repositoryId tags) := by
  induction tags generalizing store with
  | nil => exact .rfl
  | cons tag rest ih =>
    have linked : store.SameCatalogue (store.link repositoryId tag.id).2 := ⟨rfl, rfl⟩
    exact linked.trans (ih _)

theorem perform_sameCatalogue (call : StoreCall) (store : Store) :
    store.SameCatalogue (store.perform call).2 := by
  cases call with
  | ensureTag scope category group name =>
    simp only [perform, ensureTag]
    split <;> exact ⟨rfl, rfl⟩
  | replaceTags repositoryId category tags =>
    simp only [perform, replaceTags]
    split
    · next after replaced =>
      split at replaced
      · cases replaced
      · obtain rfl := Except.ok.inj replaced
        have cleared : store.SameCatalogue (store.unlinkCategory repositoryId category).2 :=
          ⟨rfl, rfl⟩
        exact cleared.trans (linkAll_sameCatalogue repositoryId tags _)
    · exact .rfl
  | _ => exact ⟨rfl, rfl⟩

end Store

end ModelHub
