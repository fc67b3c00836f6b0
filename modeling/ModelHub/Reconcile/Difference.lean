import ModelHub.Domain.Record

/-!
What separates the stored associations of a repository from the desired ones. Both sides are
compared by framework only: a stored row whose type differs from the desired one is left alone.
-/

namespace ModelHub

structure Difference where
  toRemove : List Association
  toAdd : List Candidate
  unchanged : List Int
  deriving DecidableEq, Repr

namespace Difference

def isEmpty (difference : Difference) : Bool :=
  difference.toRemove.isEmpty && difference.toAdd.isEmpty

def insertCandidate (candidate : Candidate) : List Candidate → List Candidate
  | [] => [candidate]
  | head :: tail =>
    if candidate.frameworkId < head.frameworkId then candidate :: head :: tail
    else if candidate.frameworkId = head.frameworkId then candidate :: tail
    else head :: insertCandidate candidate tail

/-- Ascending by framework, one candidate each; of several the last one counts. -/
def byFramework (candidates : List Candidate) : List Candidate :=
  candidates.foldl (fun sorted candidate => insertCandidate candidate sorted) []

def insertId (id : Int) : List Int → List Int
  | [] => [id]
  | head :: tail =>
    if id < head then id :: head :: tail
    else if id = head then head :: tail
    else head :: insertId id tail

def sortedIds (ids : List Int) : List Int := ids.foldr insertId []

def isDesired (desired : List Candidate) (frameworkId : Int) : Bool :=
  desired.any fun candidate => candidate.frameworkId = frameworkId

def isStored (stored : List Association) (frameworkId : Int) : Bool :=
  stored.any fun association => association.frameworkId = frameworkId

/-- The desired candidates are in ascending order, one for each framework. -/
def between (stored : List Association) (desired : List Candidate) : Difference :=
  { toRemove := stored.filter fun row => !isDesired desired row.frameworkId
    toAdd := desired.filter fun candidate => !isStored stored candidate.frameworkId
    unchanged := (sortedIds (stored.map Association.frameworkId)).filter (isDesired desired) }

end Difference

end ModelHub
