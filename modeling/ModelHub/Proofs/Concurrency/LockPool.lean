import ModelHub.Concurrency.LockDesk
import ModelHub.Proofs.Concurrency.LockLine

/-! The table of locks over any course of requests, releases and abandonments.

Whoever holds a lock or waits for it refers to the lock itself, so a lock that the table has dropped
lives on as long as somebody refers to it, and another one could be made for the same repository. The
pool keeps sight of the locks that were dropped: none of them is of use to anybody. -/

namespace ModelHub

/-- The table, the holder and everybody in the line refer to a lock. -/
def LockEntry.references {P : Type} (entry : LockEntry P) : Nat :=
  1 + entry.holder.toList.length + entry.waiting.length

theorem LockEntry.isUsed_eq {P : Type} (entry : LockEntry P) :
    entry.isUsed = decide (1 < entry.references) := by
  obtain ⟨repositoryId, holder, waiting⟩ := entry
  cases holder <;> cases waiting <;> simp [isUsed, references]
  omega

inductive LockMove where
  | request (repositoryId : Int)
  /-- Releases the lock that a request was granted, or abandons the request. -/
  | leave (number : Nat)
  deriving DecidableEq, Repr

structure LockQueue where
  requests : List (Int × Nat) := []
  nextNumber : Nat := 0
  deriving DecidableEq, Repr

namespace LockQueue

def step (queue : LockQueue) : LockMove → LockQueue
  | .request repositoryId =>
    { requests := queue.requests ++ [(repositoryId, queue.nextNumber)]
      nextNumber := queue.nextNumber + 1 }
  | .leave number =>
    { queue with requests := queue.requests.filter fun request => request.2 ≠ number }

def run (moves : List LockMove) : LockQueue := moves.foldl step {}

def requestsFor (queue : LockQueue) (repositoryId : Int) : List Nat :=
  (queue.requests.filter fun request => request.1 = repositoryId).map Prod.snd

end LockQueue

def LockDesk.move (desk : LockDesk) : LockMove → LockDesk
  | .request repositoryId => desk.draw repositoryId
  | .leave number => { desk with table := desk.table.leave number }

structure LockPool where
  table : LockTable Nat := []
  dropped : List (LockEntry Nat) := []
  nextNumber : Nat := 0
  deriving DecidableEq, Repr

namespace LockPool

/-- A lock stays if it is asked for, or if the table is not alone in referring to it. -/
def isKept (repositoryId : Int) (entry : LockEntry Nat) : Bool :=
  entry.repositoryId = repositoryId || 1 < entry.references

def step (pool : LockPool) : LockMove → LockPool
  | .request repositoryId =>
    { table := LockTable.enlist repositoryId pool.nextNumber
        (LockTable.ensure repositoryId (pool.table.filter (isKept repositoryId)))
      dropped := pool.dropped ++ pool.table.filter fun entry => !isKept repositoryId entry
      nextNumber := pool.nextNumber + 1 }
  | .leave number =>
    { pool with
      table := pool.table.leave number
      dropped := pool.dropped.map (LockEntry.leave number) }

def run (moves : List LockMove) : LockPool := moves.foldl step {}

def holders (pool : LockPool) (repositoryId : Int) : List Nat :=
  ((pool.table ++ pool.dropped).filter fun entry => entry.repositoryId = repositoryId).flatMap
    fun entry => entry.holder.toList

structure Serves (pool : LockPool) (queue : LockQueue) : Prop where
  nextNumber : pool.nextNumber = queue.nextNumber
  numbers : ∀ request ∈ queue.requests, request.2 < queue.nextNumber
  ordered : (queue.requests.map Prod.snd).Pairwise (· < ·)
  sound : pool.table.Sound
  lines : ∀ repositoryId, pool.table.line repositoryId = queue.requestsFor repositoryId
  unused : ∀ entry ∈ pool.dropped, entry.isUsed = false

variable {pool : LockPool} {queue : LockQueue}

theorem serves_start : Serves {} {} where
  nextNumber := rfl
  numbers _ member := absurd member List.not_mem_nil
  ordered := List.Pairwise.nil
  sound := LockTable.sound_nil
  lines _ := rfl
  unused _ member := absurd member List.not_mem_nil

/-- Counting references comes down to asking for use. -/
theorem request_table (repositoryId : Int) :
    (pool.step (.request repositoryId)).table =
      pool.table.request repositoryId pool.nextNumber := by
  have sameTest : isKept repositoryId =
      fun entry : LockEntry Nat => entry.repositoryId = repositoryId || entry.isUsed := by
    funext entry
    rw [isKept, LockEntry.isUsed_eq]
  rw [LockTable.request_eq, LockTable.prune, ← sameTest]
  rfl

theorem Serves.fresh (serves : Serves pool queue) (repositoryId : Int) :
    pool.nextNumber ∉ pool.table.line repositoryId := by
  rw [serves.lines, serves.nextNumber]
  intro member
  obtain ⟨request, present, same⟩ := List.mem_map.mp member
  have bound := serves.numbers request (List.mem_of_mem_filter present)
  omega

theorem serves_request (serves : Serves pool queue) (repositoryId : Int) :
    Serves (pool.step (.request repositoryId)) (queue.step (.request repositoryId)) where
  nextNumber := congrArg (· + 1) serves.nextNumber
  numbers request member := by
    rcases List.mem_append.mp member with old | new
    · exact Nat.lt_succ_of_lt (serves.numbers request old)
    · rw [List.mem_singleton.mp new]
      exact Nat.lt_succ_self _
  ordered := by
    rw [LockQueue.step, List.map_append, List.pairwise_append]
    refine ⟨serves.ordered, List.pairwise_singleton _ _, ?_⟩
    intro number member next single
    obtain ⟨request, present, rfl⟩ := List.mem_map.mp member
    rw [List.mem_singleton.mp single]
    exact serves.numbers request present
  sound := by
    rw [request_table]
    exact serves.sound.request (serves.fresh repositoryId)
  lines other := by
    rw [request_table, LockTable.line_request serves.sound (serves.fresh repositoryId),
      serves.lines, serves.nextNumber]
    unfold LockQueue.requestsFor
    rw [LockQueue.step, List.filter_append, List.map_append]
    split
    · next same => simp [same]
    · next differs => simp [Ne.symm differs]
  unused entry member := by
    rcases List.mem_append.mp member with old | new
    · exact serves.unused entry old
    · have isPruned := (List.mem_filter.mp new).2
      rw [isKept, Bool.not_or, Bool.and_eq_true, ← LockEntry.isUsed_eq] at isPruned
      simpa using isPruned.2

theorem serves_leave (serves : Serves pool queue) (number : Nat) :
    Serves (pool.step (.leave number)) (queue.step (.leave number)) where
  nextNumber := serves.nextNumber
  numbers request member := serves.numbers request (List.mem_of_mem_filter member)
  ordered := serves.ordered.sublist (List.filter_sublist.map _)
  sound := serves.sound.leave
  lines repositoryId := by
    rw [step, LockTable.line_leave serves.sound, serves.lines, LockQueue.step]
    unfold LockQueue.requestsFor
    rw [List.filter_map, List.filter_filter, List.filter_filter]
    simp only [Function.comp_def, Bool.and_comm]
  unused entry member := by
    obtain ⟨old, present, rfl⟩ := List.mem_map.mp member
    have nobody := LockEntry.line_eq_nil.mpr (serves.unused old present)
    rw [← LockEntry.line_eq_nil, LockEntry.line_leave (nobody ▸ List.nodup_nil), nobody]
    rfl

theorem serves_step (serves : Serves pool queue) (move : LockMove) :
    Serves (pool.step move) (queue.step move) := by
  cases move with
  | request repositoryId => exact serves_request serves repositoryId
  | leave number => exact serves_leave serves number

theorem serves_run (moves : List LockMove) : Serves (run moves) (LockQueue.run moves) := by
  suffices onward : ∀ pool queue, Serves pool queue →
      Serves (moves.foldl step pool) (moves.foldl LockQueue.step queue) from
    onward {} {} serves_start
  induction moves with
  | nil => exact fun _ _ => id
  | cons move rest ih => exact fun pool queue serves => ih _ _ (serves_step serves move)

theorem table_run (moves : List LockMove) :
    (run moves).table = (moves.foldl LockDesk.move {}).table := by
  suffices onward : ∀ (pool : LockPool) (desk : LockDesk), pool.table = desk.table →
      pool.nextNumber = desk.nextNumber →
        (moves.foldl step pool).table = (moves.foldl LockDesk.move desk).table from
    onward {} {} rfl rfl
  induction moves with
  | nil => exact fun _ _ same _ => same
  | cons move rest ih =>
    intro pool desk sameTable sameNumber
    cases move with
    | request repositoryId =>
      refine ih _ _ ?_ (congrArg (· + 1) sameNumber)
      rw [request_table, sameTable, sameNumber]
      rfl
    | leave number => exact ih _ _ (congrArg (LockTable.leave number) sameTable) sameNumber

theorem Serves.holders_length (serves : Serves pool queue) (repositoryId : Int) :
    (pool.holders repositoryId).length ≤ 1 := by
  have free : ((pool.dropped.filter fun entry => entry.repositoryId = repositoryId).flatMap
      fun entry => entry.holder.toList) = [] := by
    refine List.flatMap_eq_nil_iff.mpr fun entry member => ?_
    have nobody := LockEntry.line_eq_nil.mpr (serves.unused entry (List.mem_of_mem_filter member))
    exact (List.append_eq_nil_iff.mp nobody).1
  unfold holders
  rw [List.filter_append, List.flatMap_append, free, List.append_nil]
  by_cases isTracked : repositoryId ∈ pool.table.tracked
  · obtain ⟨entry, member, rfl⟩ := List.mem_map.mp isTracked
    rw [serves.sound.filter_eq member, List.flatMap_singleton]
    cases entry.holder <;> simp
  · rw [LockTable.filter_of_untracked isTracked]
    exact Nat.zero_le 1

theorem Serves.mem_tracked (serves : Serves pool queue) (repositoryId other : Int) :
    other ∈ (pool.step (.request repositoryId)).table.tracked ↔
      other = repositoryId ∨ ∃ entry ∈ (pool.step (.request repositoryId)).table,
        entry.repositoryId = other ∧ (entry.holder ≠ none ∨ entry.waiting ≠ []) := by
  have absent := serves.fresh repositoryId
  rw [request_table]
  constructor
  · intro isTracked
    have someone := (LockTable.mem_tracked_request serves.sound absent other).mp isTracked
    obtain ⟨entry, member, rfl⟩ := List.mem_map.mp isTracked
    refine Or.inr ⟨entry, member, rfl, ?_⟩
    rw [(serves.sound.request absent).line_eq member, LockEntry.line] at someone
    by_contra idle
    rw [not_or, not_not, not_not] at idle
    exact someone (by rw [idle.1, idle.2]; rfl)
  · rintro (rfl | ⟨entry, member, rfl, -⟩)
    · rw [LockTable.mem_tracked_request serves.sound absent,
        LockTable.line_request serves.sound absent, if_pos rfl]
      simp
    · exact List.mem_map_of_mem member

/-- At every point of every course at most one request holds a lock of a repository, and a lock that
was dropped is held by none and awaited by none. So all requests for a repository meet at its one
tracked lock: the first that stands holds it, and the others wait in their order. -/
theorem lock_table_orderly (moves : List LockMove) :
    let pool := run moves
    let queue := LockQueue.run moves
    pool.table = (moves.foldl LockDesk.move {}).table ∧
    (∀ repositoryId, (pool.holders repositoryId).length ≤ 1) ∧
    (∀ entry ∈ pool.dropped, entry.holder = none ∧ entry.waiting = []) ∧
    pool.table.tracked.Nodup ∧
    (∀ entry ∈ pool.table, entry.holder = none → entry.waiting = []) ∧
    (∀ repositoryId, pool.table.holder? repositoryId = (queue.requestsFor repositoryId).head?) ∧
    (∀ entry ∈ pool.table, entry.waiting = (queue.requestsFor entry.repositoryId).tail) ∧
    (queue.requests.map Prod.snd).Pairwise (· < ·) ∧
    ∀ repositoryId other, other ∈ (pool.step (.request repositoryId)).table.tracked ↔
      other = repositoryId ∨ ∃ entry ∈ (pool.step (.request repositoryId)).table,
        entry.repositoryId = other ∧ (entry.holder ≠ none ∨ entry.waiting ≠ []) := by
  intro pool queue
  have serves : Serves pool queue := serves_run moves
  refine ⟨table_run moves, serves.holders_length, ?_, serves.sound.distinct, serves.sound.served, ?_,
    ?_, serves.ordered, serves.mem_tracked⟩
  · intro entry member
    have nobody := LockEntry.line_eq_nil.mpr (serves.unused entry member)
    rw [LockEntry.line, List.append_eq_nil_iff, Option.toList_eq_nil_iff] at nobody
    exact nobody
  · intro repositoryId
    rw [serves.sound.holder?_eq, serves.lines]
  · intro entry member
    rw [← serves.lines, serves.sound.line_eq member,
      LockEntry.tail_line (serves.sound.served entry member)]

end LockPool

end ModelHub
