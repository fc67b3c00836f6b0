import ModelHub.Proofs.Engine.Keeps
import ModelHub.Proofs.Store.Revision

/-! Programs that change nothing in the store but one repository and the catalogue of tags, whatever
they are answered. By definition they keep the revision of the store at the beginning, so the rules
for what is kept are theirs too. -/

namespace ModelHub

/-- A store at the beginning, and the repository that may be written to. -/
structure Precinct where
  store : Store
  repositoryId : Int

namespace Precinct

variable {precinct : Precinct} {α : Type}

def Confines (precinct : Precinct) (program : Program α) (post : α → Prop) : Prop :=
  ∀ store, precinct.store.Revises precinct.repositoryId store →
    Program.Leads Store.anyAnswers program store fun value after =>
      precinct.store.Revises precinct.repositoryId after ∧ post value

def Encloses (precinct : Precinct) (work : Work α) (good : α → Prop) : Prop :=
  precinct.Confines work.run fun outcome => ∀ value, outcome = .ok value → good value

theorem revises_askStore {request : StoreCall} {store after : Store} {value : request.Reply}
    (performed : store.perform request = (.ok value, after))
    (revises : precinct.store.Revises precinct.repositoryId store)
    (concerns : request.Concerns precinct.repositoryId) (names : request.Names store) :
    precinct.store.Revises precinct.repositoryId after := by
  have step : store.Revises precinct.repositoryId (store.perform request).2 :=
    Store.revises_perform concerns names
  rw [performed] at step
  exact revises.trans step

theorem encloses_askStore {request : StoreCall} (concerns : request.Concerns precinct.repositoryId)
    (names : ∀ store, request.Names store) :
    precinct.Encloses (Work.askStore request) fun _ => True :=
  Work.keeps_askStore fun store revises =>
    revises.trans (Store.revises_perform concerns (names store))

theorem encloses_of_abides {allowed : Call → Store → Prop} {work : Work α}
    (revises : ∀ call store reply after, allowed call store →
      Store.anyAnswers call store reply after → store.Revises precinct.repositoryId after)
    (abides : Work.Abides allowed work) : precinct.Encloses work fun _ => True :=
  Work.keeps_of_abides (fun call before reply after isAllowed earlier answered =>
    earlier.trans (revises call before reply after isAllowed answered)) abides

end Precinct

end ModelHub
