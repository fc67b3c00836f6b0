import Mathlib.Data.List.Nodup
import ModelHub.Concurrency.LockTable

/-! The line for a lock: its holder first, then those who wait for it. A request goes to the end of
its line, and whoever leaves gives up the place; a lock that is dropped has no line. -/

namespace ModelHub

namespace LockEntry

variable {P : Type} {entry : LockEntry P} {party : P}

def line (entry : LockEntry P) : List P := entry.holder.toList ++ entry.waiting

/-- Nobody waits for a free lock. -/
def Served (entry : LockEntry P) : Prop := entry.holder = none → entry.waiting = []

theorem line_eq_nil : entry.line = [] ↔ entry.isUsed = false := by
  simp [line, isUsed]

theorem head?_line (served : entry.Served) : entry.line.head? = entry.holder := by
  unfold line
  cases held : entry.holder with
  | none => simp [served held]
  | some holder => rfl

theorem tail_line (served : entry.Served) : entry.line.tail = entry.waiting := by
  unfold line
  cases held : entry.holder with
  | none => simp [served held]
  | some holder => rfl

theorem line_enter (served : entry.Served) : (entry.enter party).line = entry.line ++ [party] := by
  unfold enter line
  split
  · next free => simp [free, served free]
  · next holder held => simp [held]

theorem served_enter : (entry.enter party).Served := by
  unfold enter
  split
  · exact fun free => nomatch free
  · next held => exact fun free => nomatch held.symm.trans free

theorem enter_repositoryId : (entry.enter party).repositoryId = entry.repositoryId := by
  unfold enter
  split <;> rfl

variable [DecidableEq P]

theorem leave_repositoryId : (entry.leave party).repositoryId = entry.repositoryId := by
  unfold leave
  split <;> rfl

theorem line_leave (unique : entry.line.Nodup) :
    (entry.leave party).line = entry.line.filter (· ≠ party) := by
  unfold line at unique
  unfold leave line
  split
  · next holds =>
    rw [holds, Option.toList_some, List.singleton_append, List.nodup_cons] at unique
    have others : entry.waiting.filter (· ≠ party) = entry.waiting := by
      refine List.filter_eq_self.mpr fun other member => decide_eq_true ?_
      rintro rfl
      exact unique.1 member
    have passed : entry.passOn.holder.toList ++ entry.passOn.waiting = entry.waiting := by
      unfold passOn
      cases entry.waiting <;> rfl
    rw [passed, holds, List.filter_append, others]
    simp
  · next differs =>
    rw [List.filter_append]
    congr 1
    cases held : entry.holder with
    | none => rfl
    | some holder =>
      have other : holder ≠ party := fun same => differs (held.trans (congrArg some same))
      simp [other]

theorem served_leave (served : entry.Served) : (entry.leave party).Served := by
  unfold leave
  split
  · intro free
    have nobody : entry.waiting = [] := List.head?_eq_none_iff.mp free
    simp [passOn, nobody]
  · intro free
    have nobody : entry.waiting = [] := served free
    simp [nobody]

end LockEntry

namespace LockTable

variable {P : Type} {table : LockTable P} {repositoryId : Int} {party : P}

def line (repositoryId : Int) (table : LockTable P) : List P :=
  (table.filter fun entry => entry.repositoryId = repositoryId).flatMap LockEntry.line

structure Sound (table : LockTable P) : Prop where
  distinct : table.tracked.Nodup
  served : ∀ entry ∈ table, entry.Served
  unique : ∀ entry ∈ table, entry.line.Nodup

theorem sound_nil : Sound ([] : LockTable P) where
  distinct := List.nodup_nil
  served _ member := absurd member List.not_mem_nil
  unique _ member := absurd member List.not_mem_nil

theorem line_cons (entry : LockEntry P) (rest : LockTable P) (repositoryId : Int) :
    line repositoryId (entry :: rest) =
      if entry.repositoryId = repositoryId then entry.line ++ line repositoryId rest
      else line repositoryId rest := by
  unfold line
  rw [List.filter_cons]
  split
  · next here => rw [if_pos (of_decide_eq_true here), List.flatMap_cons]
  · next elsewhere => rw [if_neg fun here => elsewhere (decide_eq_true here)]

theorem line_append (first second : LockTable P) (repositoryId : Int) :
    line repositoryId (first ++ second) = line repositoryId first ++ line repositoryId second := by
  simp only [line, List.filter_append, List.flatMap_append]

theorem filter_of_untracked (untracked : repositoryId ∉ table.tracked) :
    table.filter (fun entry => entry.repositoryId = repositoryId) = [] := by
  refine List.filter_eq_nil_iff.mpr fun entry member here => untracked ?_
  exact List.mem_map.mpr ⟨entry, member, of_decide_eq_true here⟩

theorem line_of_untracked (untracked : repositoryId ∉ table.tracked) :
    line repositoryId table = [] := by
  rw [line, filter_of_untracked untracked, List.flatMap_nil]

theorem Sound.filter_eq (sound : table.Sound) {entry : LockEntry P} (member : entry ∈ table) :
    table.filter (fun other => other.repositoryId = entry.repositoryId) = [entry] := by
  obtain ⟨before, after, rfl⟩ := List.append_of_mem member
  have distinct := sound.distinct
  rw [tracked, List.map_append, List.map_cons, List.nodup_middle, List.nodup_cons] at distinct
  have absent := distinct.1
  rw [List.mem_append, not_or] at absent
  rw [List.filter_append, List.filter_cons, if_pos (decide_eq_true rfl),
    filter_of_untracked absent.1, filter_of_untracked absent.2]
  rfl

theorem Sound.line_eq (sound : table.Sound) {entry : LockEntry P} (member : entry ∈ table) :
    line entry.repositoryId table = entry.line := by
  rw [line, sound.filter_eq member, List.flatMap_singleton]

theorem Sound.holder?_eq (sound : table.Sound) (repositoryId : Int) :
    table.holder? repositoryId = (table.line repositoryId).head? := by
  unfold holder?
  rw [← List.head?_filter]
  by_cases isTracked : repositoryId ∈ table.tracked
  · obtain ⟨entry, member, rfl⟩ := List.mem_map.mp isTracked
    rw [sound.filter_eq member, sound.line_eq member]
    exact (LockEntry.head?_line (sound.served entry member)).symm
  · rw [filter_of_untracked isTracked, line_of_untracked isTracked]
    rfl

theorem line_prune (asked repositoryId : Int) (table : LockTable P) :
    line repositoryId (prune asked table) = line repositoryId table := by
  induction table with
  | nil => rfl
  | cons entry rest ih =>
    unfold prune at ih ⊢
    rw [List.filter_cons]
    split
    · rw [line_cons, line_cons, ih]
    · next unused =>
      have nobody : entry.line = [] := by
        rw [LockEntry.line_eq_nil]
        simp only [Bool.or_eq_true, not_or, Bool.not_eq_true] at unused
        exact unused.2
      rw [line_cons, ih, nobody, List.nil_append, ite_self]

theorem line_ensure (asked repositoryId : Int) (table : LockTable P) :
    line repositoryId (ensure asked table) = line repositoryId table := by
  unfold ensure
  split
  · rfl
  · rw [line_append, line_cons]
    simp [line, LockEntry.line]

theorem mem_tracked_ensure : repositoryId ∈ (ensure repositoryId table).tracked := by
  unfold ensure
  split
  · next present =>
    obtain ⟨entry, member, here⟩ := List.any_eq_true.mp present
    exact List.mem_map.mpr ⟨entry, member, of_decide_eq_true here⟩
  · simp [tracked]

theorem Sound.prune (sound : table.Sound) : (prune repositoryId table).Sound where
  distinct := sound.distinct.sublist (List.filter_sublist.map _)
  served entry member := sound.served entry (List.mem_of_mem_filter member)
  unique entry member := sound.unique entry (List.mem_of_mem_filter member)

theorem Sound.ensure (sound : table.Sound) : (ensure repositoryId table).Sound := by
  unfold LockTable.ensure
  split
  · exact sound
  · next absent =>
    refine ⟨?_, ?_, ?_⟩
    · unfold tracked
      rw [List.map_append, List.nodup_append]
      refine ⟨sound.distinct, List.nodup_singleton _, ?_⟩
      rintro id member other single rfl
      obtain rfl := List.mem_singleton.mp single
      obtain ⟨entry, present, same⟩ := List.mem_map.mp member
      exact absent (List.any_eq_true.mpr ⟨entry, present, decide_eq_true same⟩)
    · intro entry member
      rcases List.mem_append.mp member with old | new
      · exact sound.served entry old
      · rw [List.mem_singleton.mp new]
        exact fun _ => rfl
    · intro entry member
      rcases List.mem_append.mp member with old | new
      · exact sound.unique entry old
      · rw [List.mem_singleton.mp new]
        exact List.nodup_nil

def enlist (repositoryId : Int) (party : P) (table : LockTable P) : LockTable P :=
  table.map fun entry => if entry.repositoryId = repositoryId then entry.enter party else entry

theorem request_eq (repositoryId : Int) (party : P) (table : LockTable P) :
    request repositoryId party table =
      enlist repositoryId party (ensure repositoryId (prune repositoryId table)) := rfl

theorem tracked_map {edit : LockEntry P → LockEntry P}
    (kept : ∀ entry, (edit entry).repositoryId = entry.repositoryId) :
    tracked (table.map edit) = table.tracked := by
  unfold tracked
  rw [List.map_map]
  exact List.map_congr_left fun entry _ => kept entry

theorem line_map {edit : LockEntry P → LockEntry P}
    (kept : ∀ entry, (edit entry).repositoryId = entry.repositoryId) :
    line repositoryId (table.map edit) =
      (table.filter fun entry => entry.repositoryId = repositoryId).flatMap
        fun entry => (edit entry).line := by
  have sameTest : (fun entry : LockEntry P => decide (entry.repositoryId = repositoryId)) ∘ edit =
      fun entry => decide (entry.repositoryId = repositoryId) := by
    funext entry
    simp only [Function.comp_apply, kept]
  rw [line, List.filter_map, sameTest, List.flatMap_map]

theorem enlist_repositoryId (entry : LockEntry P) :
    (if entry.repositoryId = repositoryId then entry.enter party else entry).repositoryId =
      entry.repositoryId := by
  split
  · exact LockEntry.enter_repositoryId
  · rfl

theorem line_enlist_of_ne {other : Int} (differs : other ≠ repositoryId) :
    line other (enlist repositoryId party table) = line other table := by
  unfold enlist
  rw [line_map enlist_repositoryId, line]
  refine List.flatMap_congr fun entry member => ?_
  have here : entry.repositoryId = other := of_decide_eq_true (List.mem_filter.mp member).2
  rw [if_neg fun same => differs (here.symm.trans same)]

theorem Sound.enlist (sound : table.Sound) (absent : party ∉ table.line repositoryId) :
    (enlist repositoryId party table).Sound where
  distinct := by
    unfold LockTable.enlist
    rw [tracked_map enlist_repositoryId]
    exact sound.distinct
  served entry member := by
    obtain ⟨old, oldMember, rfl⟩ := List.mem_map.mp member
    split
    · exact LockEntry.served_enter
    · exact sound.served old oldMember
  unique entry member := by
    obtain ⟨old, oldMember, rfl⟩ := List.mem_map.mp member
    split
    · next here =>
      rw [LockEntry.line_enter (sound.served old oldMember), List.nodup_append]
      refine ⟨sound.unique old oldMember, List.nodup_singleton _, ?_⟩
      rintro other present _ single rfl
      obtain rfl := List.mem_singleton.mp single
      rw [← here, sound.line_eq oldMember] at absent
      exact absent present
    · exact sound.unique old oldMember

theorem line_enlist_self (sound : table.Sound) (absent : party ∉ table.line repositoryId)
    (isTracked : repositoryId ∈ table.tracked) :
    line repositoryId (enlist repositoryId party table) = line repositoryId table ++ [party] := by
  obtain ⟨entry, member, rfl⟩ := List.mem_map.mp isTracked
  have entered : entry.enter party ∈ enlist entry.repositoryId party table :=
    List.mem_map.mpr ⟨entry, member, if_pos rfl⟩
  have after := (sound.enlist absent).line_eq entered
  rw [LockEntry.enter_repositoryId, LockEntry.line_enter (sound.served entry member)] at after
  rw [after, sound.line_eq member]

theorem line_request (sound : table.Sound) (absent : party ∉ table.line repositoryId) (other : Int) :
    line other (request repositoryId party table) =
      if other = repositoryId then line other table ++ [party] else line other table := by
  have absentNow : party ∉ line repositoryId (ensure repositoryId (prune repositoryId table)) := by
    rwa [line_ensure, line_prune]
  rw [request_eq]
  split
  · next same =>
    rw [same, line_enlist_self sound.prune.ensure absentNow mem_tracked_ensure, line_ensure,
      line_prune]
  · next differs => rw [line_enlist_of_ne differs, line_ensure, line_prune]

theorem Sound.request (sound : table.Sound) (absent : party ∉ table.line repositoryId) :
    (request repositoryId party table).Sound := by
  rw [request_eq]
  refine sound.prune.ensure.enlist ?_
  rwa [line_ensure, line_prune]

theorem mem_tracked_prune {other : Int} (isTracked : other ∈ (prune repositoryId table).tracked) :
    other = repositoryId ∨ ∃ entry ∈ table, entry.repositoryId = other ∧ entry.isUsed := by
  obtain ⟨entry, kept, rfl⟩ := List.mem_map.mp isTracked
  obtain ⟨member, isNeeded⟩ := List.mem_filter.mp kept
  simp only [Bool.or_eq_true, decide_eq_true_eq] at isNeeded
  exact isNeeded.imp_right fun isUsed => ⟨entry, member, rfl, isUsed⟩

theorem mem_tracked_of_ensure {other : Int}
    (isTracked : other ∈ (ensure repositoryId table).tracked) :
    other = repositoryId ∨ other ∈ table.tracked := by
  unfold ensure at isTracked
  split at isTracked
  · exact Or.inr isTracked
  · simpa [tracked, or_comm] using isTracked

/-- Behind a request only locks with a line are tracked, the one that is asked for among them. -/
theorem mem_tracked_request (sound : table.Sound) (absent : party ∉ table.line repositoryId)
    (other : Int) :
    other ∈ (request repositoryId party table).tracked ↔
      line other (request repositoryId party table) ≠ [] := by
  constructor
  · intro isTracked
    rw [line_request sound absent]
    split
    · simp
    · next differs =>
      rw [request_eq, enlist, tracked_map enlist_repositoryId] at isTracked
      have kept := (mem_tracked_of_ensure isTracked).resolve_left differs
      obtain ⟨entry, member, rfl, isUsed⟩ := (mem_tracked_prune kept).resolve_left differs
      rw [sound.line_eq member, ne_eq, LockEntry.line_eq_nil, isUsed]
      exact nofun
  · intro someone
    by_contra untracked
    exact someone (line_of_untracked untracked)

/-- The others keep the lead of their lines, and get into no line. -/
def KeepsOthers (party : P) (before after : LockTable P) : Prop :=
  ∀ other, other ≠ party → ∀ repositoryId,
    (other ∈ after.line repositoryId → other ∈ before.line repositoryId) ∧
      ((before.line repositoryId).head? = some other →
        (after.line repositoryId).head? = some other)

theorem keepsOthers_refl (party : P) (table : LockTable P) : KeepsOthers party table table :=
  fun _ _ _ => ⟨id, id⟩

theorem keepsOthers_request (sound : table.Sound) (absent : party ∉ table.line repositoryId) :
    KeepsOthers party table (table.request repositoryId party) := by
  intro other differs asked
  rw [line_request sound absent]
  split
  · constructor
    · intro member
      rcases List.mem_append.mp member with old | new
      · exact old
      · exact absurd (List.mem_singleton.mp new) differs
    · intro first
      rw [List.head?_append, first]
      rfl
  · exact ⟨id, id⟩

theorem mem_line {entry : LockEntry P} (member : entry ∈ table) (inLine : party ∈ entry.line) :
    party ∈ table.line entry.repositoryId :=
  List.mem_flatMap.mpr ⟨entry, List.mem_filter.mpr ⟨member, decide_eq_true rfl⟩, inLine⟩

variable [DecidableEq P]

theorem line_leave (sound : table.Sound) (repositoryId : Int) :
    line repositoryId (leave party table) = (line repositoryId table).filter (· ≠ party) := by
  unfold leave
  rw [line_map fun _ => LockEntry.leave_repositoryId, line, List.filter_flatMap]
  refine List.flatMap_congr fun entry member => ?_
  exact LockEntry.line_leave (sound.unique entry (List.mem_of_mem_filter member))

theorem Sound.leave (sound : table.Sound) : (leave party table).Sound where
  distinct := by
    unfold LockTable.leave
    rw [tracked_map fun _ => LockEntry.leave_repositoryId]
    exact sound.distinct
  served entry member := by
    obtain ⟨old, oldMember, rfl⟩ := List.mem_map.mp member
    exact LockEntry.served_leave (sound.served old oldMember)
  unique entry member := by
    obtain ⟨old, oldMember, rfl⟩ := List.mem_map.mp member
    rw [LockEntry.line_leave (sound.unique old oldMember)]
    exact (sound.unique old oldMember).filter _

theorem not_mem_line_leave (sound : table.Sound) (repositoryId : Int) :
    party ∉ (table.leave party).line repositoryId := by
  rw [line_leave sound]
  intro member
  exact of_decide_eq_true (List.mem_filter.mp member).2 rfl

theorem keepsOthers_leave (sound : table.Sound) : KeepsOthers party table (table.leave party) := by
  intro other differs repositoryId
  rw [line_leave sound]
  refine ⟨List.mem_of_mem_filter, fun first => ?_⟩
  obtain ⟨rest, same⟩ := List.head?_eq_some_iff.mp first
  rw [same, List.filter_cons, if_pos (decide_eq_true differs)]
  rfl

theorem holds_eq_false (absent : ∀ repositoryId, party ∉ table.line repositoryId) :
    table.holds party = false := by
  refine List.any_eq_false.mpr fun entry member holds => absent entry.repositoryId ?_
  refine mem_line member (List.mem_append_left _ ?_)
  rw [of_decide_eq_true holds]
  exact List.mem_singleton.mpr rfl

theorem awaits_eq_false (absent : ∀ repositoryId, party ∉ table.line repositoryId) :
    table.awaits party = false := by
  refine List.any_eq_false.mpr fun entry member awaits => absent entry.repositoryId ?_
  exact mem_line member (List.mem_append_right _ (List.contains_iff_mem.mp awaits))

end LockTable

end ModelHub
