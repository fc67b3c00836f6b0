import Mathlib.Data.List.Basic
import ModelHub.Store.Table

/-! Tables that are written by key: an entry amends the row of its key, or appends one if there is none.

Entries that are all written a second time change nothing more, in whatever order they come and however
often a key occurs among them: of several entries with one key the last one has its way both times. -/

namespace ModelHub

/-- What an entry makes of a row of its key does not depend on what earlier ones made of it. -/
structure Register (ε α κ : Type) where
  key : ε → κ
  rowKey : α → κ
  edit : ε → α → α
  rowKey_edit : ∀ entry row, rowKey row = key entry → rowKey (edit entry row) = key entry
  edit_edit : ∀ entry other row, edit entry (edit other row) = edit entry row

namespace Register

variable {ε α κ : Type} [DecidableEq κ]

def amend (register : Register ε α κ) (entry : ε) (row : α) : α :=
  if register.rowKey row = register.key entry then register.edit entry row else row

def amendAll (register : Register ε α κ) (entries : List ε) (row : α) : α :=
  entries.foldl (fun row entry => register.amend entry row) row

def row? (register : Register ε α κ) (key : κ) (table : List α) : Option α :=
  table.find? fun row => register.rowKey row = key

inductive Writes (register : Register ε α κ) (entry : ε) : List α → List α → Prop where
  | amended {table : List α} {row : α} (member : row ∈ table)
      (same : register.rowKey row = register.key entry) :
      Writes register entry table (table.map (register.amend entry))
  | appended {table : List α} {row : α}
      (absent : ∀ other ∈ table, register.rowKey other ≠ register.key entry)
      (same : register.rowKey row = register.key entry) (settled : register.edit entry row = row) :
      Writes register entry table (table ++ [row])

inductive WritesAll (register : Register ε α κ) : List ε → List α → List α → Prop where
  | nil {table : List α} : WritesAll register [] table table
  | cons {entry : ε} {rest : List ε} {table middle after : List α}
      (first : register.Writes entry table middle) (later : WritesAll register rest middle after) :
      WritesAll register (entry :: rest) table after

variable {register : Register ε α κ} {entry : ε} {entries : List ε} {table after : List α} {row : α}
  {key : κ}

theorem of_row?_eq_some (register : Register ε α κ) (found : register.row? key table = some row) :
    row ∈ table ∧ register.rowKey row = key := by
  have same := List.find?_some found
  exact ⟨List.mem_of_find?_eq_some found, of_decide_eq_true same⟩

theorem row?_eq_none (register : Register ε α κ) : register.row? key table = none ↔
    ∀ row ∈ table, register.rowKey row ≠ key := by
  simp only [row?, List.find?_eq_none, decide_eq_true_eq, ne_eq]

@[simp] theorem rowKey_amend (entry : ε) (row : α) :
    register.rowKey (register.amend entry row) = register.rowKey row := by
  unfold amend
  split
  · next same => rw [register.rowKey_edit entry row same, same]
  · rfl

@[simp] theorem rowKey_amendAll (entries : List ε) (row : α) :
    register.rowKey (register.amendAll entries row) = register.rowKey row := by
  induction entries generalizing row with
  | nil => rfl
  | cons entry rest ih => exact (ih _).trans (rowKey_amend entry row)

theorem amendAll_append_cons (earlier later : List ε) (entry : ε) (row : α) :
    register.amendAll (earlier ++ entry :: later) row =
      register.amendAll later (register.amend entry (register.amendAll earlier row)) := by
  rw [amendAll, List.foldl_append, List.foldl_cons]
  rfl

theorem amend_of_ne (differs : register.rowKey row ≠ register.key entry) :
    register.amend entry row = row := if_neg differs

theorem amendAll_of_ne (differ : ∀ entry ∈ entries, register.key entry ≠ register.rowKey row) :
    register.amendAll entries row = row := by
  induction entries with
  | nil => rfl
  | cons entry rest ih =>
    obtain ⟨first, later⟩ := List.forall_mem_cons.mp differ
    unfold amendAll
    rw [List.foldl_cons, amend_of_ne first.symm]
    exact ih later

/-- An edit does not show behind a later one of the same key. -/
theorem amendAll_edit (same : register.rowKey row = register.key entry)
    (later : ∃ other ∈ entries, register.key other = register.key entry) :
    register.amendAll entries (register.edit entry row) = register.amendAll entries row := by
  have keyed := register.rowKey_edit entry row same
  induction entries with
  | nil =>
    obtain ⟨_, absent, -⟩ := later
    cases absent
  | cons head rest ih =>
    unfold amendAll
    rw [List.foldl_cons, List.foldl_cons]
    by_cases first : register.key head = register.key entry
    · rw [amend, if_pos (keyed.trans first.symm), register.edit_edit, amend,
        if_pos (same.trans first.symm)]
    · have differs : register.rowKey row ≠ register.key head := fun equal => first (equal ▸ same)
      have differsThen : register.rowKey (register.edit entry row) ≠ register.key head :=
        fun equal => first (equal ▸ keyed)
      obtain ⟨other, member, isSame⟩ := later
      rcases List.mem_cons.mp member with rfl | inRest
      · exact absurd isSame first
      · rw [amend_of_ne differsThen, amend_of_ne differs]
        exact ih ⟨other, inRest, isSame⟩

namespace Writes

theorem map_prefix {β : Type} {view : α → β} (writes : register.Writes entry table after)
    (same : ∀ row, view (register.amend entry row) = view row) :
    table.map view <+: after.map view := by
  cases writes with
  | amended =>
    have unseen : (table.map (register.amend entry)).map view = table.map view :=
      List.map_map.trans (List.map_congr_left fun row _ => same row)
    exact ⟨[], (List.append_nil _).trans unseen.symm⟩
  | appended =>
    rw [List.map_append]
    exact List.prefix_append _ _

theorem keys (writes : register.Writes entry table after) :
    table.map register.rowKey <+: after.map register.rowKey :=
  writes.map_prefix (rowKey_amend entry)

theorem hasKey (writes : register.Writes entry table after) :
    register.key entry ∈ after.map register.rowKey := by
  cases writes with
  | amended member same =>
    rw [List.map_map]
    exact List.mem_map.mpr ⟨_, member, (rowKey_amend _ _).trans same⟩
  | appended absent same settled => simp [same]

theorem mem_before (writes : register.Writes entry table after) (member : row ∈ after)
    (differs : register.key entry ≠ register.rowKey row) : row ∈ table := by
  cases writes with
  | amended =>
    obtain ⟨old, oldMember, rfl⟩ := List.mem_map.mp member
    rw [rowKey_amend] at differs
    rwa [amend_of_ne differs.symm]
  | appended absent same settled =>
    rcases List.mem_append.mp member with old | new
    · exact old
    · obtain rfl := List.mem_singleton.mp new
      exact absurd same.symm differs

theorem settled (writes : register.Writes entry table after) (member : row ∈ after)
    (same : register.rowKey row = register.key entry) : register.edit entry row = row := by
  cases writes with
  | amended =>
    obtain ⟨old, oldMember, rfl⟩ := List.mem_map.mp member
    rw [rowKey_amend] at same
    rw [amend, if_pos same, register.edit_edit]
  | appended absent _ settled =>
    rcases List.mem_append.mp member with old | new
    · exact absurd same (absent row old)
    · obtain rfl := List.mem_singleton.mp new
      exact settled

theorem row? (writes : register.Writes entry table after)
    (found : register.row? key table = some row) :
    register.row? key after = some (register.amend entry row) := by
  cases writes with
  | amended =>
    unfold Register.row? at found ⊢
    rw [List.find?_map]
    simp only [Function.comp_def, rowKey_amend]
    rw [found, Option.map_some]
  | appended absent =>
    obtain ⟨member, -⟩ := register.of_row?_eq_some found
    rw [amend_of_ne (absent row member), Register.row?, List.find?_append]
    rw [Register.row?] at found
    rw [found, Option.some_or]

theorem eq_map (writes : register.Writes entry table after)
    (present : register.key entry ∈ table.map register.rowKey) :
    after = table.map (register.amend entry) := by
  cases writes with
  | amended => rfl
  | appended absent =>
    obtain ⟨row, member, same⟩ := List.mem_map.mp present
    exact absurd same (absent row member)

end Writes

namespace WritesAll

theorem keys (writes : register.WritesAll entries table after) :
    table.map register.rowKey <+: after.map register.rowKey := by
  induction writes with
  | nil => exact List.prefix_rfl
  | cons first _ ih => exact first.keys.trans ih

theorem append {more : List ε} {last : List α} (writes : register.WritesAll entries table after)
    (rest : register.WritesAll more after last) :
    register.WritesAll (entries ++ more) table last := by
  induction writes with
  | nil => exact rest
  | cons first _ ih => exact .cons first (ih rest)

theorem row? (writes : register.WritesAll entries table after)
    (found : register.row? key table = some row) :
    register.row? key after = some (register.amendAll entries row) := by
  induction writes generalizing row with
  | nil => exact found
  | cons first _ ih => exact ih (first.row? found)

theorem hasKeys (writes : register.WritesAll entries table after) :
    ∀ entry ∈ entries, register.key entry ∈ after.map register.rowKey := by
  induction writes with
  | nil => simp
  | cons first later ih => exact List.forall_mem_cons.mpr ⟨later.keys.subset first.hasKey, ih⟩

theorem mem_before (writes : register.WritesAll entries table after) (member : row ∈ after)
    (differ : ∀ entry ∈ entries, register.key entry ≠ register.rowKey row) : row ∈ table := by
  induction writes with
  | nil => exact member
  | cons first later ih =>
    obtain ⟨head, rest⟩ := List.forall_mem_cons.mp differ
    exact first.mem_before (ih member rest) head

theorem settled (writes : register.WritesAll entries table after) (member : row ∈ after) :
    register.amendAll entries row = row := by
  induction writes with
  | nil => rfl
  | @cons entry rest _ _ _ first later ih =>
    show register.amendAll rest (register.amend entry row) = row
    by_cases same : register.rowKey row = register.key entry
    · rw [amend, if_pos same]
      -- The edit by the first entry shows in the row unless a later entry of its key overrides it.
      by_cases again : ∃ other ∈ rest, register.key other = register.key entry
      · rw [amendAll_edit same again]
        exact ih member
      · have differ : ∀ other ∈ rest, register.key other ≠ register.rowKey row :=
          fun other inRest equal => again ⟨other, inRest, equal.trans same⟩
        rw [first.settled (later.mem_before member differ) same]
        exact ih member
    · rw [amend_of_ne same]
      exact ih member

theorem eq_edit {earlier later : List ε}
    (writes : register.WritesAll (earlier ++ entry :: later) table after) (member : row ∈ after)
    (same : register.rowKey row = register.key entry)
    (last : ∀ other ∈ later, register.key other ≠ register.key entry) :
    register.edit entry (register.amendAll earlier row) = row := by
  have kept : register.rowKey (register.amendAll earlier row) = register.key entry :=
    (rowKey_amendAll earlier row).trans same
  have behind : ∀ other ∈ later, register.key other ≠
      register.rowKey (register.edit entry (register.amendAll earlier row)) := by
    rw [register.rowKey_edit entry _ kept]
    exact last
  calc register.edit entry (register.amendAll earlier row)
      = register.amendAll later (register.edit entry (register.amendAll earlier row)) :=
        (amendAll_of_ne behind).symm
    _ = register.amendAll (earlier ++ entry :: later) row := by
        rw [amendAll_append_cons, amend, if_pos kept]
    _ = row := writes.settled member

theorem eq_map (writes : register.WritesAll entries table after)
    (present : ∀ entry ∈ entries, register.key entry ∈ table.map register.rowKey) :
    after = table.map (register.amendAll entries) := by
  induction writes with
  | nil => exact (List.map_id _).symm
  | @cons entry rest _ _ _ first _ ih =>
    obtain ⟨head, later⟩ := List.forall_mem_cons.mp present
    rw [ih fun other member => first.keys.subset (later other member), first.eq_map head,
      List.map_map]
    rfl

theorem again {last : List α} (writes : register.WritesAll entries table after)
    (writesAgain : register.WritesAll entries after last) : last = after := by
  rw [writesAgain.eq_map writes.hasKeys]
  calc after.map (register.amendAll entries) = after.map id :=
        List.map_congr_left fun row member => writes.settled member
    _ = after := List.map_id after

theorem filter (writes : register.WritesAll entries table after) (keep : κ → Bool) :
    register.WritesAll (entries.filter fun entry => keep (register.key entry))
      (table.filter fun row => keep (register.rowKey row))
      (after.filter fun row => keep (register.rowKey row)) := by
  induction writes with
  | nil => exact .nil
  | @cons entry rest table middle after first later ih =>
    by_cases kept : keep (register.key entry)
    · rw [List.filter_cons_of_pos (by simpa using kept)]
      refine .cons ?_ ih
      cases first with
      | amended member same =>
        rw [List.filter_map]
        simp only [Function.comp_def, rowKey_amend]
        exact .amended (List.mem_filter.mpr ⟨member, by rwa [same]⟩) same
      | appended absent same settled =>
        rw [List.filter_append, List.filter_cons_of_pos (by rwa [same]), List.filter_nil]
        exact .appended (fun other member => absent other (List.mem_of_mem_filter member)) same
          settled
    · rw [List.filter_cons_of_neg (by simpa using kept)]
      have unseen : (middle.filter fun row => keep (register.rowKey row)) =
          table.filter fun row => keep (register.rowKey row) := by
        cases first with
        | amended member same =>
          rw [List.filter_map]
          simp only [Function.comp_def, rowKey_amend]
          refine (List.map_congr_left fun row inKept => ?_).trans (List.map_id _)
          refine amend_of_ne fun isSame => kept ?_
          rw [← isSame]
          exact (List.mem_filter.mp inKept).2
        | appended absent same settled =>
          rw [List.filter_append, List.filter_cons_of_neg (by rwa [same]), List.filter_nil,
            List.append_nil]
      rw [← unseen]
      exact ih

theorem again_filter (keep : κ → Bool) {listed : List α}
    (writes : register.WritesAll entries table after)
    (writesAgain : register.WritesAll entries (after.filter fun row => keep (register.rowKey row))
      listed) :
    (listed.filter fun row => keep (register.rowKey row)) =
      after.filter fun row => keep (register.rowKey row) := by
  have kept := writes.filter keep
  have keptAgain := writesAgain.filter keep
  rw [List.filter_filter] at keptAgain
  simp only [Bool.and_self] at keptAgain
  exact kept.again keptAgain

end WritesAll

/-- Rows that are their own keys: an entry is appended unless it is there. -/
def whole (α : Type) : Register α α α where
  key := id
  rowKey := id
  edit _ row := row
  rowKey_edit _ _ same := same
  edit_edit _ _ _ := rfl

theorem writes_insertNew [DecidableEq α] (row : α) (table : List α) :
    (whole α).Writes row table (insertNew row table) := by
  unfold insertNew
  split
  · next present =>
    have unchanged : table.map ((whole α).amend row) = table :=
      (List.map_congr_left fun other _ => ite_self other).trans (List.map_id table)
    have amended : (whole α).Writes row table (table.map ((whole α).amend row)) :=
      .amended present rfl
    rwa [unchanged] at amended
  · next absent =>
    refine .appended (fun other member same => absent ?_) rfl rfl
    exact (show other = row from same) ▸ member

theorem writesAll_insertNew [DecidableEq α] (rows table : List α) :
    (whole α).WritesAll rows table
      (rows.foldl (fun table row => insertNew row table) table) := by
  induction rows generalizing table with
  | nil => exact .nil
  | cons row rest ih => exact .cons (writes_insertNew row table) (ih _)

end Register

end ModelHub
