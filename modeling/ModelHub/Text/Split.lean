namespace ModelHub.Text

def splitFirst (separator : Char) : List Char → Option (List Char × List Char)
  | [] => none
  | c :: rest =>
    if c = separator then some ([], rest)
    else (splitFirst separator rest).map fun parts => (c :: parts.1, parts.2)

def splitLast (separator : Char) (text : List Char) : Option (List Char × List Char) :=
  (splitFirst separator text.reverse).map fun parts => (parts.2.reverse, parts.1.reverse)

/-- All parts between separators; there is always at least one. -/
def segments (separator : Char) : List Char → List (List Char)
  | [] => [[]]
  | c :: rest =>
    if c = separator then [] :: segments separator rest
    else match segments separator rest with
      | [] => [[c]]
      | head :: tail => (c :: head) :: tail

def dropLead? : List Char → List Char → Option (List Char)
  | [], text => some text
  | _ :: _, [] => none
  | l :: lead, c :: text => if l = c then dropLead? lead text else none

def join (separator : String) : List String → String
  | [] => ""
  | [last] => last
  | head :: tail => head ++ separator ++ join separator tail

theorem splitFirst_eq_some {separator : Char} {text left right : List Char}
    (split : splitFirst separator text = some (left, right)) :
    text = left ++ separator :: right ∧ separator ∉ left := by
  induction text generalizing left with
  | nil => simp [splitFirst] at split
  | cons c rest ih =>
    by_cases same : c = separator
    · simp only [splitFirst, same, if_true, Option.some.injEq, Prod.mk.injEq] at split
      obtain ⟨rfl, rfl⟩ := split
      simp [same]
    · simp only [splitFirst, same, if_false, Option.map_eq_some_iff] at split
      obtain ⟨⟨l, r⟩, found, equal⟩ := split
      simp only [Prod.mk.injEq] at equal
      obtain ⟨rfl, rfl⟩ := equal
      obtain ⟨text_eq, absent⟩ := ih found
      refine ⟨by simp [text_eq], ?_⟩
      simp only [List.mem_cons, not_or]
      exact ⟨fun h => same h.symm, absent⟩

theorem splitFirst_append {separator : Char} {left : List Char} (right : List Char)
    (absent : separator ∉ left) :
    splitFirst separator (left ++ separator :: right) = some (left, right) := by
  induction left with
  | nil => simp [splitFirst]
  | cons c rest ih =>
    simp only [List.mem_cons, not_or] at absent
    simp [splitFirst, Ne.symm absent.1, ih absent.2]

end ModelHub.Text
