import ModelHub.Proofs.Reconcile.Proceedings
import ModelHub.Proofs.Store.Loading

namespace ModelHub

def deleteAll {α : Type} [DecidableEq α] (rows table : List α) : List α :=
  rows.foldl (fun table row => (deleteRow row table).2) table

section Tables

variable {α : Type} [DecidableEq α] {rows table : List α} {row : α}

theorem mem_deleteAll : row ∈ deleteAll rows table ↔ row ∈ table ∧ row ∉ rows := by
  induction rows generalizing table with
  | nil => simp [deleteAll]
  | cons first rest ih =>
    have step : deleteAll (first :: rest) table = deleteAll rest (deleteRow first table).2 := rfl
    rw [step, ih, mem_deleteRow, List.mem_cons, not_or]
    tauto

theorem deleteAll_eq_filter : deleteAll rows table = table.filter fun row => row ∉ rows := by
  induction rows generalizing table with
  | nil => simp [deleteAll]
  | cons first rest ih =>
    have step : deleteAll (first :: rest) table = deleteAll rest (table.filter (· ≠ first)) := rfl
    rw [step, ih, List.filter_filter]
    refine List.filter_congr fun row _ => ?_
    simp only [List.mem_cons, not_or, ← Bool.decide_and, decide_eq_decide]
    exact and_comm

theorem insertAll_eq_append (distinct : rows.Nodup) (new : ∀ row ∈ rows, row ∉ table) :
    insertAll rows table = table ++ rows := by
  induction rows generalizing table with
  | nil => simp [insertAll]
  | cons first rest ih =>
    obtain ⟨absent, distinctRest⟩ := List.nodup_cons.mp distinct
    obtain ⟨firstNew, restNew⟩ := List.forall_mem_cons.mp new
    have appended : insertNew first table = table ++ [first] := if_neg firstNew
    have step : insertAll (first :: rest) table = insertAll rest (insertNew first table) := rfl
    rw [step, appended, ih distinctRest, List.append_assoc, List.singleton_append]
    intro row member inTable
    rcases List.mem_append.mp inTable with old | isFirst
    · exact restNew row member old
    · exact absent (List.mem_singleton.mp isFirst ▸ member)

end Tables

namespace Difference

theorem mem_insertId {id other : Int} {ids : List Int} :
    other ∈ insertId id ids ↔ other = id ∨ other ∈ ids := by
  induction ids with
  | nil => simp [insertId]
  | cons head tail ih =>
    unfold insertId
    split
    · exact List.mem_cons
    · split
      · next same =>
        subst same
        simp
      · rw [List.mem_cons, ih, List.mem_cons]
        exact or_left_comm

theorem pairwise_insertId {id : Int} {ids : List Int} (ascending : ids.Pairwise (· < ·)) :
    (insertId id ids).Pairwise (· < ·) := by
  induction ids with
  | nil => exact List.pairwise_singleton _ id
  | cons head tail ih =>
    obtain ⟨first, rest⟩ := List.pairwise_cons.mp ascending
    unfold insertId
    split
    · next less =>
      refine List.pairwise_cons.mpr ⟨List.forall_mem_cons.mpr ⟨less, ?_⟩, ascending⟩
      exact fun other member => less.trans (first other member)
    · next notLess =>
      split
      · exact ascending
      · next differs =>
        refine List.pairwise_cons.mpr ⟨fun other member => ?_, ih rest⟩
        rcases mem_insertId.mp member with rfl | old
        · exact lt_of_le_of_ne (not_lt.mp notLess) (Ne.symm differs)
        · exact first other old

theorem mem_sortedIds {id : Int} {ids : List Int} : id ∈ sortedIds ids ↔ id ∈ ids := by
  induction ids with
  | nil => exact Iff.rfl
  | cons head tail ih =>
    have step : sortedIds (head :: tail) = insertId head (sortedIds tail) := rfl
    rw [step, mem_insertId, ih, List.mem_cons]

theorem pairwise_sortedIds (ids : List Int) : (sortedIds ids).Pairwise (· < ·) := by
  induction ids with
  | nil => exact List.Pairwise.nil
  | cons head tail ih => exact pairwise_insertId ih

theorem eq_of_ascending {first second : List Int} (ascending : first.Pairwise (· < ·))
    (ascendingToo : second.Pairwise (· < ·)) (same : ∀ id, id ∈ first ↔ id ∈ second) :
    first = second := by
  have perm := (List.perm_ext_iff_of_nodup (ascending.imp ne_of_lt) (ascendingToo.imp ne_of_lt)).mpr
    same
  exact perm.eq_of_pairwise (fun a b _ _ less more => absurd more less.asymm) ascending ascendingToo

theorem mem_insertCandidate {candidate other : Candidate} {candidates : List Candidate}
    (member : other ∈ insertCandidate candidate candidates) :
    other = candidate ∨ other ∈ candidates := by
  induction candidates with
  | nil => exact .inl (List.mem_singleton.mp member)
  | cons head tail ih =>
    unfold insertCandidate at member
    split at member
    · exact List.mem_cons.mp member
    · split at member
      · exact (List.mem_cons.mp member).imp_right (List.mem_cons_of_mem head)
      · rcases List.mem_cons.mp member with rfl | later
        · exact .inr List.mem_cons_self
        · exact (ih later).imp_right (List.mem_cons_of_mem head)

theorem ascending_insertCandidate {candidate : Candidate} {candidates : List Candidate}
    (ascending : candidates.Pairwise Candidate.Before) :
    (insertCandidate candidate candidates).Pairwise Candidate.Before := by
  induction candidates with
  | nil => exact List.pairwise_singleton _ candidate
  | cons head tail ih =>
    obtain ⟨first, rest⟩ := List.pairwise_cons.mp ascending
    unfold insertCandidate
    split
    · next less =>
      refine List.pairwise_cons.mpr ⟨List.forall_mem_cons.mpr ⟨less, ?_⟩, ascending⟩
      exact fun other member => lt_trans less (first other member)
    · next notLess =>
      split
      · next same =>
        refine List.pairwise_cons.mpr ⟨fun other member => ?_, rest⟩
        exact lt_of_eq_of_lt same (first other member)
      · next differs =>
        refine List.pairwise_cons.mpr ⟨fun other member => ?_, ih rest⟩
        rcases mem_insertCandidate member with rfl | old
        · exact lt_of_le_of_ne (not_lt.mp notLess) (Ne.symm differs)
        · exact first other old

theorem ascending_byFramework (candidates : List Candidate) :
    (byFramework candidates).Pairwise Candidate.Before := by
  have fold : ∀ sorted : List Candidate, sorted.Pairwise Candidate.Before →
      (candidates.foldl (fun sorted candidate => insertCandidate candidate sorted) sorted).Pairwise
        Candidate.Before := by
    induction candidates with
    | nil => exact fun _ ascending => ascending
    | cons head tail ih => exact fun _ ascending => ih _ (ascending_insertCandidate ascending)
  exact fold [] List.Pairwise.nil

def kept (stored : List Association) (desired : List Candidate) : List Association :=
  stored.filter fun row => row.frameworkId ∈ desired.map Candidate.frameworkId

def applied (difference : Difference) (repositoryId : Int) (stored : List Association) :
    List Association :=
  insertAll (difference.toAdd.map (Reconcile.rowOf repositoryId))
    (deleteAll difference.toRemove stored)

variable {stored : List Association} {desired : List Candidate} {repositoryId id : Int}
  {row : Association} {candidate : Candidate}

theorem mem_kept : row ∈ kept stored desired ↔
    row ∈ stored ∧ row.frameworkId ∈ desired.map Candidate.frameworkId := by
  rw [kept, List.mem_filter, decide_eq_true_eq]

theorem isDesired_eq : isDesired desired id = decide (id ∈ desired.map Candidate.frameworkId) := by
  rw [Bool.eq_iff_iff, Reconcile.isDesired_iff, decide_eq_true_eq, List.mem_map]

theorem isStored_eq : isStored stored id = decide (id ∈ stored.map Association.frameworkId) := by
  rw [Bool.eq_iff_iff, Reconcile.isStored_iff, decide_eq_true_eq, List.mem_map]

theorem mem_toRemove : row ∈ (between stored desired).toRemove ↔
    row ∈ stored ∧ row.frameworkId ∉ desired.map Candidate.frameworkId := by
  rw [between, List.mem_filter, isDesired_eq, Bool.not_eq_true', decide_eq_false_iff_not]

theorem mem_toAdd : candidate ∈ (between stored desired).toAdd ↔
    candidate ∈ desired ∧ candidate.frameworkId ∉ stored.map Association.frameworkId := by
  rw [between, List.mem_filter, isStored_eq, Bool.not_eq_true', decide_eq_false_iff_not]

theorem mem_unchanged : id ∈ (between stored desired).unchanged ↔
    id ∈ stored.map Association.frameworkId ∧ id ∈ desired.map Candidate.frameworkId := by
  rw [between, List.mem_filter, mem_sortedIds, isDesired_eq, decide_eq_true_eq]

theorem deleteAll_toRemove :
    deleteAll (between stored desired).toRemove stored = kept stored desired := by
  rw [deleteAll_eq_filter]
  refine List.filter_congr fun row member => ?_
  rw [decide_eq_decide, mem_toRemove, not_and, not_not]
  exact ⟨fun stays => stays member, fun isDesired _ => isDesired⟩

/-- The edit deletes what must go, and stores what must come behind the rows that stay. -/
theorem applied_between (ascending : desired.Pairwise Candidate.Before) :
    (between stored desired).applied repositoryId stored =
      kept stored desired ++ (between stored desired).toAdd.map (Reconcile.rowOf repositoryId) := by
  rw [applied, deleteAll_toRemove]
  refine insertAll_eq_append ?_ ?_
  · have sorted : (between stored desired).toAdd.Pairwise Candidate.Before :=
      ascending.sublist List.filter_sublist
    refine List.pairwise_map.mpr (sorted.imp fun before same => ?_)
    exact ne_of_lt before (congrArg Association.frameworkId same)
  · rintro _ added present
    obtain ⟨candidate, member, rfl⟩ := List.mem_map.mp added
    exact (mem_toAdd.mp member).2 (List.mem_map.mpr ⟨_, (mem_kept.mp present).1, rfl⟩)

theorem mem_ids_applied (ascending : desired.Pairwise Candidate.Before) :
    id ∈ ((between stored desired).applied repositoryId stored).map Association.frameworkId ↔
      id ∈ desired.map Candidate.frameworkId := by
  have ofAdded : ((between stored desired).toAdd.map (Reconcile.rowOf repositoryId)).map
      Association.frameworkId = (between stored desired).toAdd.map Candidate.frameworkId := by
    rw [List.map_map]
    rfl
  rw [applied_between ascending, List.map_append, List.mem_append, ofAdded]
  constructor
  · rintro (isKept | isAdded)
    · obtain ⟨row, member, rfl⟩ := List.mem_map.mp isKept
      exact (mem_kept.mp member).2
    · obtain ⟨candidate, member, rfl⟩ := List.mem_map.mp isAdded
      exact List.mem_map_of_mem (mem_toAdd.mp member).1
  · intro isDesired
    by_cases isStored : id ∈ stored.map Association.frameworkId
    · obtain ⟨row, member, rfl⟩ := List.mem_map.mp isStored
      exact .inl (List.mem_map_of_mem (mem_kept.mpr ⟨member, isDesired⟩))
    · obtain ⟨candidate, member, rfl⟩ := List.mem_map.mp isDesired
      exact .inr (List.mem_map_of_mem (mem_toAdd.mpr ⟨member, isStored⟩))

theorem between_of_same_ids (ascending : desired.Pairwise Candidate.Before)
    (same : ∀ id, id ∈ stored.map Association.frameworkId ↔ id ∈ desired.map Candidate.frameworkId) :
    between stored desired =
      { toRemove := [], toAdd := [], unchanged := desired.map Candidate.frameworkId } := by
  have nothingGoes : (between stored desired).toRemove = [] := by
    refine List.eq_nil_iff_forall_not_mem.mpr fun row member => ?_
    obtain ⟨present, undesired⟩ := mem_toRemove.mp member
    exact undesired ((same _).mp (List.mem_map_of_mem present))
  have nothingComes : (between stored desired).toAdd = [] := by
    refine List.eq_nil_iff_forall_not_mem.mpr fun candidate member => ?_
    obtain ⟨isDesired, missing⟩ := mem_toAdd.mp member
    exact missing ((same _).mpr (List.mem_map_of_mem isDesired))
  have all : (between stored desired).unchanged = desired.map Candidate.frameworkId := by
    refine eq_of_ascending ((pairwise_sortedIds _).filter _) (List.pairwise_map.mpr ascending) ?_
    intro id
    rw [mem_unchanged, same, and_self]
  rw [← nothingGoes, ← nothingComes, ← all]

theorem isEmpty_iff : (between stored desired).isEmpty = true ↔
    ∀ id, id ∈ stored.map Association.frameworkId ↔ id ∈ desired.map Candidate.frameworkId := by
  rw [isEmpty, Bool.and_eq_true, List.isEmpty_iff, List.isEmpty_iff, List.eq_nil_iff_forall_not_mem,
    List.eq_nil_iff_forall_not_mem]
  simp only [mem_toRemove, mem_toAdd, not_and, not_not]
  constructor
  · rintro ⟨noneGoes, noneComes⟩ id
    constructor
    · intro isStored
      obtain ⟨row, member, rfl⟩ := List.mem_map.mp isStored
      exact noneGoes row member
    · intro isDesired
      obtain ⟨candidate, member, rfl⟩ := List.mem_map.mp isDesired
      exact noneComes candidate member
  · intro same
    exact ⟨fun row member => (same _).mp (List.mem_map_of_mem member),
      fun candidate member => (same _).mpr (List.mem_map_of_mem member)⟩

/-- What an edit tells: the rows that go and the rows that stay are the stored rows, each part in
stored order; what comes is desired and not stored, and ascends; what is on both sides is listed. -/
structure IsExact (difference : Difference) (stored : List Association) (desired : List Candidate) :
    Prop where
  goes : difference.toRemove.Sublist stored
  stays : (kept stored desired).Sublist stored
  whole : (difference.toRemove ++ kept stored desired).Perm stored
  undesired : ∀ row ∈ difference.toRemove, row.frameworkId ∉ desired.map Candidate.frameworkId
  comes : difference.toAdd.Sublist desired
  ascending : difference.toAdd.Pairwise Candidate.Before
  missing : ∀ candidate, candidate ∈ difference.toAdd ↔
    candidate ∈ desired ∧ candidate.frameworkId ∉ stored.map Association.frameworkId
  common : ∀ id, id ∈ difference.unchanged ↔
    id ∈ stored.map Association.frameworkId ∧ id ∈ desired.map Candidate.frameworkId
  commonAscending : difference.unchanged.Pairwise (· < ·)
  goesApart : (difference.toRemove.map Association.frameworkId).Disjoint
    (difference.toAdd.map Candidate.frameworkId)
  goesFromCommon : (difference.toRemove.map Association.frameworkId).Disjoint difference.unchanged
  comesToCommon : (difference.toAdd.map Candidate.frameworkId).Disjoint difference.unchanged

theorem isExact_between (ascending : desired.Pairwise Candidate.Before) :
    (between stored desired).IsExact stored desired where
  goes := List.filter_sublist
  stays := List.filter_sublist
  whole := by
    have others : kept stored desired =
        stored.filter fun row => !!isDesired desired row.frameworkId := by
      simp only [kept, isDesired_eq, Bool.not_not]
    rw [others]
    exact List.filter_append_perm _ stored
  undesired row member := (mem_toRemove.mp member).2
  comes := List.filter_sublist
  ascending := ascending.sublist List.filter_sublist
  missing _ := mem_toAdd
  common _ := mem_unchanged
  commonAscending := (pairwise_sortedIds _).filter _
  goesApart := by
    intro id goes comes
    obtain ⟨row, isRemoved, rfl⟩ := List.mem_map.mp goes
    obtain ⟨candidate, isAdded, same⟩ := List.mem_map.mp comes
    exact (mem_toAdd.mp isAdded).2 (same ▸ List.mem_map_of_mem (mem_toRemove.mp isRemoved).1)
  goesFromCommon := by
    intro id goes isCommon
    obtain ⟨row, isRemoved, rfl⟩ := List.mem_map.mp goes
    exact (mem_toRemove.mp isRemoved).2 (mem_unchanged.mp isCommon).2
  comesToCommon := by
    intro id comes isCommon
    obtain ⟨candidate, isAdded, rfl⟩ := List.mem_map.mp comes
    exact (mem_toAdd.mp isAdded).2 (mem_unchanged.mp isCommon).1

/-- An edit that reaches the desired frameworks deletes every row that must go, and adds every
framework that must come. -/
theorem least {other : Difference}
    (reached : ∀ id, id ∈ (other.applied repositoryId stored).map Association.frameworkId ↔
      id ∈ desired.map Candidate.frameworkId) :
    (∀ row ∈ (between stored desired).toRemove, row ∈ other.toRemove) ∧
      ∀ candidate ∈ (between stored desired).toAdd,
        candidate.frameworkId ∈ other.toAdd.map Candidate.frameworkId := by
  constructor
  · intro row goes
    obtain ⟨present, undesired⟩ := mem_toRemove.mp goes
    by_contra notRemoved
    have remains : row ∈ other.applied repositoryId stored :=
      mem_insertAll.mpr (.inr (mem_deleteAll.mpr ⟨present, notRemoved⟩))
    exact undesired ((reached _).mp (List.mem_map_of_mem remains))
  · intro candidate comes
    obtain ⟨isDesired, missing⟩ := mem_toAdd.mp comes
    obtain ⟨row, present, same⟩ := List.mem_map.mp ((reached _).mpr (List.mem_map_of_mem isDesired))
    rcases mem_insertAll.mp present with isAdded | isKept
    · obtain ⟨added, member, rfl⟩ := List.mem_map.mp isAdded
      exact List.mem_map.mpr ⟨added, member, same⟩
    · exact absurd (List.mem_map.mpr ⟨row, (mem_deleteAll.mp isKept).1, same⟩) missing

/-- The stored rows may be in any order, with several rows for a framework. What separates them from
the desired frameworks is exact, and as an edit it reaches these frameworks: rows that stay keep their
types, and nothing is left to edit. It is empty if and only if the frameworks are the same, and no
edit that reaches them does without any part of it. -/
theorem between_is_least_edit (ascending : desired.Pairwise Candidate.Before) :
    (between stored desired).IsExact stored desired ∧
    (∀ repositoryId,
      (between stored desired).applied repositoryId stored =
        kept stored desired ++ (between stored desired).toAdd.map (Reconcile.rowOf repositoryId) ∧
      (∀ id, id ∈ ((between stored desired).applied repositoryId stored).map Association.frameworkId ↔
        id ∈ desired.map Candidate.frameworkId) ∧
      between ((between stored desired).applied repositoryId stored) desired =
        { toRemove := [], toAdd := [], unchanged := desired.map Candidate.frameworkId }) ∧
    ((between stored desired).isEmpty = true ↔
      ∀ id, id ∈ stored.map Association.frameworkId ↔ id ∈ desired.map Candidate.frameworkId) ∧
    ∀ (repositoryId : Int) (other : Difference),
      (∀ id, id ∈ (other.applied repositoryId stored).map Association.frameworkId ↔
        id ∈ desired.map Candidate.frameworkId) →
      (∀ row ∈ (between stored desired).toRemove, row ∈ other.toRemove) ∧
        ∀ candidate ∈ (between stored desired).toAdd,
          candidate.frameworkId ∈ other.toAdd.map Candidate.frameworkId := by
  refine ⟨isExact_between ascending, fun repositoryId => ?_, isEmpty_iff, fun _ _ => least⟩
  refine ⟨applied_between ascending, fun _ => mem_ids_applied ascending, ?_⟩
  exact between_of_same_ids ascending fun _ => mem_ids_applied ascending

/-- Framework 1 is stored twice and goes twice; framework 2 stays under its stored type. -/
def mixedRows : List Association := [⟨7, 2, 5⟩, ⟨7, 1, 1⟩, ⟨7, 4, 0⟩, ⟨7, 1, 0⟩]

theorem mixedRows_are_settled :
    (byFramework [⟨3, 1⟩, ⟨2, 0⟩]).Pairwise Candidate.Before ∧
    (between mixedRows (byFramework [⟨3, 1⟩, ⟨2, 0⟩])).toRemove = [⟨7, 1, 1⟩, ⟨7, 4, 0⟩, ⟨7, 1, 0⟩] ∧
    (between mixedRows (byFramework [⟨3, 1⟩, ⟨2, 0⟩])).applied 7 mixedRows =
      [⟨7, 2, 5⟩, ⟨7, 3, 1⟩] ∧
    between [⟨7, 2, 5⟩, ⟨7, 3, 1⟩] (byFramework [⟨3, 1⟩, ⟨2, 0⟩]) =
      { toRemove := [], toAdd := [], unchanged := [2, 3] } := by
  have ascending := ascending_byFramework [⟨3, 1⟩, ⟨2, 0⟩]
  obtain ⟨-, reaches, -, -⟩ := @between_is_least_edit mixedRows _ ascending
  obtain ⟨rows, -, again⟩ := reaches 7
  have asListed : (between mixedRows (byFramework [⟨3, 1⟩, ⟨2, 0⟩])).applied 7 mixedRows =
      [⟨7, 2, 5⟩, ⟨7, 3, 1⟩] := rows.trans (by decide)
  rw [asListed] at again
  exact ⟨ascending, by decide, asListed, again⟩

end Difference

end ModelHub
