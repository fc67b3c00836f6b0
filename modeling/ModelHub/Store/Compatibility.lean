import ModelHub.Store.Table
import ModelHub.Text.Case

namespace ModelHub

/-- Architectures are compared without regard to the case of ASCII letters. -/
def CompatibilityRow.covers (row : CompatibilityRow) (architecture model : String) : Bool :=
  (row.architecture ≠ "" && Text.fold row.architecture = Text.fold architecture)
    || (row.model ≠ "" && row.model = model)

namespace Store

def framework? (store : Store) (id : Int) : Option Framework :=
  store.frameworks.find? fun framework => framework.id = id

def upsertFramework (store : Store) (framework : Framework) : Store :=
  match store.framework? framework.id with
  | some _ =>
    { store with frameworks := store.frameworks.map fun row =>
        if row.id = framework.id then framework else row }
  | none => { store with frameworks := store.frameworks ++ [framework] }

/-- Removes a framework with its compatibility rows, and tells whether there was one. Associations
with it stay. -/
def removeFramework (store : Store) (id : Int) : Bool × Store :=
  ((store.framework? id).isSome,
    { store with
      frameworks := store.frameworks.filter fun framework => framework.id ≠ id
      compatibilities := store.compatibilities.filter fun row => row.frameworkId ≠ id })

def addCompatibility (store : Store) (row : CompatibilityRow) : Store :=
  { store with compatibilities := insertNew row store.compatibilities }

def addArchitecture (store : Store) (frameworkId : Int) (architecture : String) : Store :=
  store.addCompatibility { frameworkId, architecture, model := "" }

def addModel (store : Store) (frameworkId : Int) (model : String) : Store :=
  store.addCompatibility { frameworkId, architecture := "", model }

def addResource (store : Store) (resource model : String) : Store :=
  { store with resources := insertNew { resource, model } store.resources }

/-- Each compatibility row beside the framework that it names; a row for none is left out. -/
def joined (store : Store) : List (CompatibilityRow × Framework) :=
  store.compatibilities.flatMap fun row =>
    (store.frameworks.filter fun framework => framework.id = row.frameworkId).map (row, ·)

/-- The frameworks for an architecture or a model, ascending. Several rows may call for one. -/
def candidates (store : Store) (architecture model : String) : List Candidate :=
  let called := store.joined.filter fun pair => pair.1.covers architecture model
  let selected := called.map fun pair =>
    { frameworkId := pair.1.frameworkId, associationType := pair.2.frameworkType }
  (insertAll selected []).mergeSort fun a b => a.frameworkId ≤ b.frameworkId

def resourceNames (store : Store) (model : String) : List String :=
  ((store.resources.filter fun row => row.model = model).map ResourceRow.resource).mergeSort
    fun a b => a ≤ b

end Store

end ModelHub
