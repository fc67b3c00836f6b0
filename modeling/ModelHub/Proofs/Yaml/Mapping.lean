import Mathlib.Data.List.Basic
import ModelHub.Yaml.Value

namespace ModelHub.Yaml.Value

def Distinct (entries : List (Value × Value)) : Prop :=
  entries.Pairwise fun a b => a.1.same b.1 = false

theorem same_text_iff {key : String} {value : Value} :
    (Value.text key).same value = true ↔ value = .text key := by
  cases value <;> simp [same, eq_comm]

variable {key : String} {value : Value} {entries : List (Value × Value)}

theorem mem_of_get? (found : get? key entries = some value) : (.text key, value) ∈ entries := by
  obtain ⟨⟨other, stored⟩, isFirst, rfl⟩ := Option.map_eq_some_iff.mp found
  have same := List.find?_some isFirst
  obtain rfl : other = .text key := same_text_iff.mp same
  exact List.mem_of_find?_eq_some isFirst

theorem get?_eq_some_iff (distinct : Distinct entries) :
    get? key entries = some value ↔ (.text key, value) ∈ entries := by
  refine ⟨mem_of_get?, fun member => ?_⟩
  have itself : (Value.text key).same (.text key) = true := same_text_iff.mpr rfl
  induction entries with
  | nil => cases member
  | cons entry rest ih =>
    obtain ⟨first, later⟩ := List.pairwise_cons.mp distinct
    rcases List.mem_cons.mp member with rfl | inRest
    · simp [get?, itself]
    · have other : (Value.text key).same entry.1 = false := by
        refine Bool.eq_false_iff.mpr fun same => ?_
        have isKey := same_text_iff.mp same
        have clash := first _ inRest
        rw [isKey, itself] at clash
        cases clash
      unfold get?
      rw [List.find?_cons, other]
      exact ih later inRest

theorem distinct_insertEntry {more : List (Value × Value)} {key : Value} (distinct : Distinct entries)
    (inserted : insertEntry key value entries = some more) : Distinct more := by
  unfold insertEntry at inserted
  split at inserted
  · cases inserted
  · next absent =>
    obtain rfl := Option.some.inj inserted
    refine List.pairwise_append.mpr ⟨distinct, List.pairwise_singleton _ _, ?_⟩
    intro entry member other isNew
    obtain rfl := List.mem_singleton.mp isNew
    exact Bool.eq_false_iff.mpr fun same => absent (List.any_eq_true.mpr ⟨entry, member, same⟩)

theorem distinct_collect {pairs : List (Value × Value)} (collected : collect pairs = some entries) :
    Distinct entries := by
  have onward : ∀ {start}, Distinct start →
      pairs.foldlM (fun entries pair => insertEntry pair.1 pair.2 entries) start = some entries →
        Distinct entries := by
    clear collected
    induction pairs with
    | nil =>
      intro start distinct same
      exact Option.some.inj same ▸ distinct
    | cons pair rest ih =>
      intro start distinct folded
      rw [List.foldlM_cons] at folded
      obtain ⟨more, inserted, later⟩ := Option.bind_eq_some_iff.mp folded
      exact ih (distinct_insertEntry distinct inserted) later
  exact onward List.Pairwise.nil collected

theorem underTag_eq_mapping {tag : Option String} {plain : Option Value}
    {standardized : String → Option Value}
    (made : underTag tag plain standardized = some (.mapping entries)) :
    plain = some (.mapping entries) ∨ ∃ name, standardized name = some (.mapping entries) := by
  unfold underTag at made
  split at made
  · exact .inl made
  · split at made
    · simp at made
    · exact .inr ⟨_, made⟩

theorem untagged_ne_mapping (text : String) (isPlain : Bool) :
    untagged text isPlain ≠ some (.mapping entries) := by
  unfold untagged Plain.value?
  repeat' split
  all_goals simp

theorem ofStandard_ne_mapping (tag text : String) : ofStandard tag text ≠ some (.mapping entries) := by
  unfold ofStandard
  repeat' split
  all_goals simp

theorem eq_some_of_bind_pair {made : Option Value} {state after : Nat}
    (paired : (made.bind fun value => some (value, state)) = some (value, after)) :
    made = some value := by
  obtain ⟨other, rfl, same⟩ := Option.bind_eq_some_iff.mp paired
  exact congrArg some (Prod.mk.inj (Option.some.inj same)).1

theorem distinct_of_ofNode {expansion : Expansion} {room : Nat} {node : Node} {state after : Nat}
    (made : (ofNode expansion room node).run state = some (.mapping entries, after)) :
    Distinct entries := by
  unfold ofNode at made
  simp only [StateT.run_bind, Option.bind_eq_bind, Option.bind_eq_some_iff] at made
  obtain ⟨⟨found, followed⟩, -, made⟩ := made
  cases found with
  | «alias» number => simp at made
  -- A tag turns neither a scalar nor a sequence into a mapping.
  | scalar anchor tag content isPlain =>
    simp only [StateT.run_lift, Option.pure_def, Option.bind_eq_bind] at made
    rcases underTag_eq_mapping (eq_some_of_bind_pair made) with plain | ⟨name, standard⟩
    · exact absurd plain (untagged_ne_mapping content isPlain)
    · exact absurd standard (ofStandard_ne_mapping name content)
  | sequence anchor tag items =>
    cases room with
    | zero => simp at made
    | succ room =>
      simp only [StateT.run_bind, StateT.run_lift, Option.pure_def, Option.bind_eq_bind] at made
      obtain ⟨values, -, tagged⟩ := Option.bind_eq_some_iff.mp made
      rcases underTag_eq_mapping (eq_some_of_bind_pair tagged) with plain | ⟨-, standard⟩
      · cases plain
      · cases standard
  | mapping anchor tag pairs =>
    cases room with
    | zero => simp at made
    | succ room =>
      simp only [StateT.run_bind, StateT.run_lift, Option.pure_def, Option.bind_eq_bind] at made
      obtain ⟨values, -, collecting⟩ := Option.bind_eq_some_iff.mp made
      obtain ⟨collected, isCollected, tagged⟩ := Option.bind_eq_some_iff.mp collecting
      obtain ⟨stored, isStored, same⟩ := Option.bind_eq_some_iff.mp isCollected
      obtain rfl := Option.some.inj same
      rcases underTag_eq_mapping (eq_some_of_bind_pair tagged) with plain | ⟨-, standard⟩
      · cases plain
        exact distinct_collect isStored
      · cases standard
        exact distinct_collect isStored

theorem distinct_of_parse? {text : String} (parsed : parse? text = some (.mapping entries)) :
    Distinct entries := by
  unfold parse? at parsed
  obtain ⟨root, -, made⟩ := Option.bind_eq_some_iff.mp parsed
  obtain ⟨⟨value, after⟩, made, rfl⟩ := Option.map_eq_some_iff.mp made
  exact distinct_of_ofNode made

end ModelHub.Yaml.Value
