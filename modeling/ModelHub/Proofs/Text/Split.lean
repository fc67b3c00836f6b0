import ModelHub.Text.Split

namespace ModelHub.Text

theorem dropLead?_self (c : Char) (rest : List Char) : dropLead? [c] (c :: rest) = some rest :=
  if_pos rfl

theorem dropLead?_of_ne {c d : Char} (lead rest : List Char) (other : d ≠ c) :
    dropLead? (d :: lead) (c :: rest) = none := if_neg other

theorem dropLead?_append (lead rest : List Char) : dropLead? lead (lead ++ rest) = some rest := by
  induction lead with
  | nil => rfl
  | cons c lead ih => rw [List.cons_append, dropLead?, if_pos rfl, ih]

theorem eq_append_of_dropLead? {lead text rest : List Char}
    (dropped : dropLead? lead text = some rest) : text = lead ++ rest := by
  induction lead generalizing text with
  | nil => exact Option.some.inj dropped
  | cons c lead ih =>
    cases text with
    | nil => cases dropped
    | cons d text =>
      rw [dropLead?] at dropped
      split at dropped
      · next same => rw [ih dropped, same, List.cons_append]
      · cases dropped

theorem segments_ne_nil (separator : Char) (text : List Char) : segments separator text ≠ [] := by
  cases text with
  | nil => exact List.cons_ne_nil _ _
  | cons c rest =>
    rw [segments]
    split
    · exact List.cons_ne_nil _ _
    · split <;> exact List.cons_ne_nil _ _

theorem segments_append (separator : Char) (left right : List Char) :
    segments separator (left ++ separator :: right) =
      segments separator left ++ segments separator right := by
  induction left with
  | nil => simp [segments]
  | cons c rest ih =>
    rw [List.cons_append, segments, segments, ih]
    split
    · rfl
    · cases found : segments separator rest with
      | nil => exact absurd found (segments_ne_nil separator rest)
      | cons head tail => rfl

theorem segments_of_not_mem {separator : Char} {text : List Char} (absent : separator ∉ text) :
    segments separator text = [text] := by
  induction text with
  | nil => rfl
  | cons c rest ih =>
    rw [List.mem_cons, not_or] at absent
    rw [segments, if_neg (Ne.symm absent.1), ih absent.2]

theorem join_cons (mark head : String) {tail : List String} (nonempty : tail ≠ []) :
    join mark (head :: tail) = head ++ mark ++ join mark tail := by
  cases tail with
  | nil => exact absurd rfl nonempty
  | cons next tail => rfl

theorem segments_join {separator : Char} {mark : String} (isMark : mark.toList = [separator])
    {parts : List String} (nonempty : parts ≠ []) (whole : ∀ part ∈ parts, separator ∉ part.toList) :
    segments separator (join mark parts).toList = parts.map String.toList := by
  fun_induction join mark parts with
  | case1 => exact absurd rfl nonempty
  | case2 last => exact segments_of_not_mem (whole last (List.mem_singleton_self _))
  | case3 head tail more ih =>
    have ih := ih more fun part member => whole part (List.mem_cons_of_mem _ member)
    have text : (head ++ mark ++ join mark tail).toList =
        head.toList ++ separator :: (join mark tail).toList := by simp [isMark]
    rw [text, segments_append, segments_of_not_mem (whole head List.mem_cons_self), ih]
    rfl

theorem join_inj {separator : Char} {mark : String} (isMark : mark.toList = [separator])
    {first second : List String} (nonempty : first ≠ []) (nonemptyToo : second ≠ [])
    (whole : ∀ part ∈ first, separator ∉ part.toList)
    (wholeToo : ∀ part ∈ second, separator ∉ part.toList)
    (same : join mark first = join mark second) : first = second := by
  have cut := segments_join isMark nonempty whole
  rw [same, segments_join isMark nonemptyToo wholeToo] at cut
  exact (List.map_inj_right fun _ _ => String.toList_inj.mp).mp cut.symm

theorem mem_join {mark : String} {parts : List String} {c : Char}
    (member : c ∈ (join mark parts).toList) :
    c ∈ mark.toList ∨ ∃ part ∈ parts, c ∈ part.toList := by
  fun_induction join mark parts with
  | case1 => cases member
  | case2 last => exact Or.inr ⟨last, List.mem_singleton_self _, member⟩
  | case3 head tail more ih =>
    rw [String.toList_append, String.toList_append, List.mem_append, List.mem_append] at member
    rcases member with (inHead | inMark) | inTail
    · exact Or.inr ⟨head, List.mem_cons_self, inHead⟩
    · exact Or.inl inMark
    · rcases ih inTail with inMark | ⟨part, isPart, inPart⟩
      · exact Or.inl inMark
      · exact Or.inr ⟨part, List.mem_cons_of_mem _ isPart, inPart⟩

theorem not_mem_of_mem_segments {separator : Char} {text part : List Char}
    (member : part ∈ segments separator text) : separator ∉ part := by
  induction text generalizing part with
  | nil =>
    obtain rfl := List.mem_singleton.mp member
    exact List.not_mem_nil
  | cons c rest ih =>
    rw [segments] at member
    split at member
    · rcases List.mem_cons.mp member with rfl | member
      · exact List.not_mem_nil
      · exact ih member
    · next other =>
      split at member
      · next none => exact absurd none (segments_ne_nil separator rest)
      · next head tail found =>
        rcases List.mem_cons.mp member with rfl | member
        · have absent : separator ∉ head := ih (by rw [found]; exact List.mem_cons_self)
          exact List.not_mem_cons_of_ne_of_not_mem (Ne.symm other) absent
        · exact ih (by rw [found]; exact List.mem_cons_of_mem _ member)

theorem splitFirst_eq_none {separator : Char} {text : List Char}
    (whole : splitFirst separator text = none) : separator ∉ text := by
  induction text with
  | nil => exact List.not_mem_nil
  | cons c rest ih =>
    by_cases same : c = separator
    · simp [splitFirst, same] at whole
    · simp only [splitFirst, if_neg same, Option.map_eq_none_iff] at whole
      exact List.not_mem_cons_of_ne_of_not_mem (Ne.symm same) (ih whole)

theorem splitFirst_of_not_mem {separator : Char} {text : List Char} (absent : separator ∉ text) :
    splitFirst separator text = none := by
  cases split : splitFirst separator text with
  | none => rfl
  | some parts =>
    refine absurd ?_ absent
    rw [(splitFirst_eq_some split).1]
    exact List.mem_append_right _ List.mem_cons_self

theorem splitLast_of_not_mem {separator : Char} {text : List Char} (absent : separator ∉ text) :
    splitLast separator text = none := by
  rw [splitLast, splitFirst_of_not_mem (mt List.mem_reverse.mp absent), Option.map_none]

theorem splitLast_eq_none {separator : Char} {text : List Char}
    (whole : splitLast separator text = none) : separator ∉ text :=
  mt List.mem_reverse.mpr (splitFirst_eq_none (Option.map_eq_none_iff.mp whole))

theorem splitLast_append {separator : Char} (left : List Char) {right : List Char}
    (absent : separator ∉ right) :
    splitLast separator (left ++ separator :: right) = some (left, right) := by
  have reversed : (left ++ separator :: right).reverse = right.reverse ++ separator :: left.reverse := by
    simp
  rw [splitLast, reversed, splitFirst_append _ (mt List.mem_reverse.mp absent), Option.map_some,
    List.reverse_reverse, List.reverse_reverse]

theorem splitLast_eq_some {separator : Char} {text left right : List Char}
    (split : splitLast separator text = some (left, right)) :
    text = left ++ separator :: right ∧ separator ∉ right := by
  obtain ⟨⟨last, front⟩, found, parts⟩ := Option.map_eq_some_iff.mp split
  obtain ⟨rfl, rfl⟩ := Prod.mk.inj parts
  obtain ⟨reversed, absent⟩ := splitFirst_eq_some found
  refine ⟨?_, mt List.mem_reverse.mp absent⟩
  rw [← List.reverse_reverse text, reversed]
  simp

theorem exists_append_of_lead {separator : Char} {lead rest left right : List Char}
    (absent : separator ∉ lead) (same : lead ++ rest = left ++ separator :: right) :
    ∃ middle, rest = middle ++ separator :: right := by
  rcases List.append_eq_append_iff.mp same with ⟨middle, -, isRest⟩ | ⟨excess, isLead, isRight⟩
  · exact ⟨middle, isRest⟩
  · cases excess with
    | nil => exact ⟨[], isRight.symm⟩
    | cons c excess =>
      obtain ⟨rfl, -⟩ := List.cons.inj isRight
      rw [isLead] at absent
      exact absurd (List.mem_append_right _ List.mem_cons_self) absent

def before (separator : Char) (text : List Char) : List Char := text.takeWhile (· ≠ separator)

def behind (separator : Char) (text : List Char) : List Char :=
  (text.dropWhile (· ≠ separator)).tail

theorem before_append {separator : Char} {left : List Char} (right : List Char)
    (absent : separator ∉ left) : before separator (left ++ separator :: right) = left := by
  rw [before, List.takeWhile_append_of_pos, List.takeWhile_cons_of_neg (by simp), List.append_nil]
  intro c member
  exact decide_eq_true fun same => absent (same ▸ member)

theorem behind_append {separator : Char} {left : List Char} (right : List Char)
    (absent : separator ∉ left) : behind separator (left ++ separator :: right) = right := by
  rw [behind, List.dropWhile_append_of_pos, List.dropWhile_cons_of_neg (by simp), List.tail_cons]
  intro c member
  exact decide_eq_true fun same => absent (same ▸ member)

theorem not_mem_before (separator : Char) (text : List Char) : separator ∉ before separator text :=
  fun member => of_decide_eq_true (List.all_eq_true.mp List.all_takeWhile separator member) rfl

theorem eq_before_append_behind {separator : Char} {text : List Char} (present : separator ∈ text) :
    text = before separator text ++ separator :: behind separator text := by
  obtain ⟨left, right, rfl, absent⟩ := List.eq_append_cons_of_mem present
  rw [before_append right absent, behind_append right absent]

theorem append_cons_inj {separator : Char} {left right left' right' : List Char}
    (absent : separator ∉ left) (absent' : separator ∉ left')
    (same : left ++ separator :: right = left' ++ separator :: right') :
    left = left' ∧ right = right' := by
  have split := splitFirst_append right absent
  rw [same, splitFirst_append right' absent'] at split
  obtain ⟨rfl, rfl⟩ := Prod.mk.inj (Option.some.inj split)
  exact ⟨rfl, rfl⟩

@[elab_as_elim] theorem parts_induction (separator : Char) {motive : List Char → Prop}
    (last : ∀ part, separator ∉ part → motive part)
    (more : ∀ part rest, separator ∉ part → motive rest → motive (part ++ separator :: rest))
    (text : List Char) : motive text := by
  cases split : splitFirst separator text with
  | none => exact last text (splitFirst_eq_none split)
  | some parts =>
    obtain ⟨isText, absent⟩ := splitFirst_eq_some split
    have shorter : parts.2.length < text.length := by
      rw [isText, List.length_append, List.length_cons]
      omega
    rw [isText]
    exact more parts.1 parts.2 absent (parts_induction separator last more parts.2)
termination_by text.length

end ModelHub.Text
