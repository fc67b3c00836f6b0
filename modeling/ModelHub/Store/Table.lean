import ModelHub.Domain.Record

/-!
The tables of the hub, each a list of rows in the order of their insertion.

Times, scopes and categories are kept as the text that was written, which need not be readable.
-/

namespace ModelHub

structure RepositoryRow where
  id : Int
  repoType : RepoType
  owner : String
  name : String
  defaultBranch : String
  updatedAt : Option String := none
  deriving DecidableEq, Repr

structure MirrorRow where
  repositoryId : Int
  source : String
  updatedAt : Option String := none
  deriving DecidableEq, Repr

structure TagRow where
  id : Int
  scope : String
  category : String
  group : String
  name : String
  deriving DecidableEq, Repr

structure TagLink where
  repositoryId : Int
  tagId : Int
  deriving DecidableEq, Repr

/-- A framework runs an architecture, or a model of one name; the other field is empty. -/
structure CompatibilityRow where
  frameworkId : Int
  architecture : String
  model : String
  deriving DecidableEq, Repr

structure ResourceRow where
  resource : String
  model : String
  deriving DecidableEq, Repr

structure Store where
  repositories : List RepositoryRow := []
  mirrors : List MirrorRow := []
  tags : List TagRow := []
  links : List TagLink := []
  frameworks : List Framework := []
  compatibilities : List CompatibilityRow := []
  resources : List ResourceRow := []
  associations : List Association := []
  /-- The numbers used up so far; none is given out twice. -/
  lastRepositoryId : Int := 0
  lastTagId : Int := 0
  deriving DecidableEq, Repr, Inhabited

def insertNew {α : Type} [DecidableEq α] (row : α) (table : List α) : List α :=
  if row ∈ table then table else table ++ [row]

theorem mem_insertNew {α : Type} [DecidableEq α] {row a : α} {table : List α} :
    a ∈ insertNew row table ↔ a = row ∨ a ∈ table := by
  unfold insertNew
  split
  · next present => exact ⟨Or.inr, fun h => h.elim (fun e => e ▸ present) id⟩
  · simp [or_comm]

def insertAll {α : Type} [DecidableEq α] (rows table : List α) : List α :=
  rows.foldl (fun table row => insertNew row table) table

theorem mem_insertAll {α : Type} [DecidableEq α] {rows table : List α} {a : α} :
    a ∈ insertAll rows table ↔ a ∈ rows ∨ a ∈ table := by
  induction rows generalizing table with
  | nil => simp [insertAll]
  | cons row rest ih =>
    show a ∈ insertAll rest (insertNew row table) ↔ _
    rw [ih, mem_insertNew, List.mem_cons, or_left_comm, or_assoc]

def deleteRow {α : Type} [DecidableEq α] (row : α) (table : List α) : Bool × List α :=
  (decide (row ∈ table), table.filter (· ≠ row))

theorem mem_deleteRow {α : Type} [DecidableEq α] {row a : α} {table : List α} :
    a ∈ (deleteRow row table).2 ↔ a ≠ row ∧ a ∈ table := by
  simp [deleteRow, and_comm]

def deleteWhere {α : Type} (test : α → Bool) (table : List α) : Nat × List α :=
  (table.countP test, table.filter fun row => !test row)

end ModelHub
