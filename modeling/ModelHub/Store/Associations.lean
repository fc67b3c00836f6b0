import ModelHub.Store.Table

/-!
The stored links between models and the frameworks that run them. One framework may be linked
several times, under different types.
-/

namespace ModelHub

def Association.le (a b : Association) : Bool :=
  if a.frameworkId = b.frameworkId then a.associationType ≤ b.associationType
  else a.frameworkId ≤ b.frameworkId

namespace Store

def associationsOf (store : Store) (repositoryId : Int) : List Association :=
  (store.associations.filter fun row => row.repositoryId = repositoryId).mergeSort Association.le

def associate (store : Store) (association : Association) : Bool × Store :=
  (decide (association ∉ store.associations),
    { store with associations := insertNew association store.associations })

def dissociate (store : Store) (association : Association) : Bool × Store :=
  let (present, associations) := deleteRow association store.associations
  (present, { store with associations := associations })

def dissociateAll (store : Store) (repositoryId : Int) : Nat × Store :=
  let (count, associations) := deleteWhere (fun row => row.repositoryId = repositoryId)
    store.associations
  (count, { store with associations := associations })

end Store

end ModelHub
