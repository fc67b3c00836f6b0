/-!
One lock for each repository, granted in the order of the requests. The table tracks a lock only as
long as somebody has a use for it.
-/

namespace ModelHub

structure LockEntry (P : Type) where
  repositoryId : Int
  holder : Option P
  waiting : List P
  deriving DecidableEq, Repr

namespace LockEntry

variable {P : Type}

def isUsed (entry : LockEntry P) : Bool := entry.holder.isSome || !entry.waiting.isEmpty

def enter (party : P) (entry : LockEntry P) : LockEntry P :=
  match entry.holder with
  | none => { entry with holder := some party }
  | some _ => { entry with waiting := entry.waiting ++ [party] }

def passOn (entry : LockEntry P) : LockEntry P :=
  { entry with holder := entry.waiting.head?, waiting := entry.waiting.tail }

def leave [DecidableEq P] (party : P) (entry : LockEntry P) : LockEntry P :=
  if entry.holder = some party then entry.passOn
  else { entry with waiting := entry.waiting.filter (· ≠ party) }

end LockEntry

abbrev LockTable (P : Type) := List (LockEntry P)

namespace LockTable

variable {P : Type}

def tracked (table : LockTable P) : List Int := table.map LockEntry.repositoryId

/-- Drops the locks nobody uses, but not the one that is asked for. -/
def prune (repositoryId : Int) (table : LockTable P) : LockTable P :=
  table.filter fun entry => entry.repositoryId = repositoryId || entry.isUsed

def ensure (repositoryId : Int) (table : LockTable P) : LockTable P :=
  if table.any fun entry => entry.repositoryId = repositoryId then table
  else table ++ [{ repositoryId, holder := none, waiting := [] }]

def request (repositoryId : Int) (party : P) (table : LockTable P) : LockTable P :=
  (ensure repositoryId (prune repositoryId table)).map fun entry =>
    if entry.repositoryId = repositoryId then entry.enter party else entry

def leave [DecidableEq P] (party : P) (table : LockTable P) : LockTable P :=
  table.map (LockEntry.leave party)

def holds [DecidableEq P] (party : P) (table : LockTable P) : Bool :=
  table.any fun entry => entry.holder = some party

def awaits [DecidableEq P] (party : P) (table : LockTable P) : Bool :=
  table.any fun entry => entry.waiting.contains party

def holder? (repositoryId : Int) (table : LockTable P) : Option P :=
  (table.find? fun entry => entry.repositoryId = repositoryId).bind LockEntry.holder

end LockTable

end ModelHub
