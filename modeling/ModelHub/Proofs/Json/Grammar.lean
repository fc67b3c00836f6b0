import ModelHub.Proofs.Json.Numeral
import ModelHub.Proofs.Json.Quoted

namespace ModelHub.Json

inductive Scalar : Json → List Char → Prop where
  | null : Scalar .null ['n', 'u', 'l', 'l']
  | yes : Scalar (.bool true) ['t', 'r', 'u', 'e']
  | no : Scalar (.bool false) ['f', 'a', 'l', 's', 'e']
  | number {value : Json} {numeral : List Char} (isNumeral : Numeral numeral value) :
      Scalar value numeral
  | string {value : Option String} {lexeme : List Char} (quoted : Quoted lexeme value) :
      Scalar (.str value) lexeme

mutual

inductive Forms : Json → List (List Char) → Prop where
  | scalar {doc : Json} {lexeme : List Char} (isScalar : Scalar doc lexeme) : Forms doc [lexeme]
  | noItem : Forms (.arr []) [['['], [']']]
  | arr {items : List Json} {lexemes : List (List Char)} (forms : FormsItems items lexemes) :
      Forms (.arr items) (['['] :: (lexemes ++ [[']']]))
  | noMember : Forms (.obj []) [['{'], ['}']]
  | obj {members : List (Option String × Json)} {lexemes : List (List Char)}
      (forms : FormsMembers members lexemes) : Forms (.obj members) (['{'] :: (lexemes ++ [['}']]))

inductive FormsItems : List Json → List (List Char) → Prop where
  | last {item : Json} {lexemes : List (List Char)} (forms : Forms item lexemes) :
      FormsItems [item] lexemes
  | cons {item : Json} {items : List Json} {lexemes more : List (List Char)}
      (forms : Forms item lexemes) (others : FormsItems items more) :
      FormsItems (item :: items) (lexemes ++ [','] :: more)

inductive FormsMembers : List (Option String × Json) → List (List Char) → Prop where
  | last {name : Option String} {value : Json} {lexeme : List Char} {lexemes : List (List Char)}
      (quoted : Quoted lexeme name) (forms : Forms value lexemes) :
      FormsMembers [(name, value)] (lexeme :: [':'] :: lexemes)
  | cons {name : Option String} {value : Json} {members : List (Option String × Json)}
      {lexeme : List Char} {lexemes more : List (List Char)} (quoted : Quoted lexeme name)
      (forms : Forms value lexemes) (others : FormsMembers members more) :
      FormsMembers ((name, value) :: members) (lexeme :: [':'] :: (lexemes ++ [','] :: more))

end

def IsBlank (text : List Char) : Prop := ∀ c ∈ text, isSpace c

/-- The lexemes in a row, with blanks before each. -/
inductive Laid : List (List Char) → List Char → Prop where
  | nil : Laid [] []
  | cons {blank lexeme text : List Char} {lexemes : List (List Char)} (isBlank : IsBlank blank)
      (others : Laid lexemes text) : Laid (lexeme :: lexemes) (blank ++ (lexeme ++ text))

def LaidOut (lexemes : List (List Char)) (source : String) : Prop :=
  ∃ text blank, source.toList = text ++ blank ∧ Laid lexemes text ∧ IsBlank blank

theorem Laid.append {lexemes more : List (List Char)} {text rest : List Char}
    (laid : Laid lexemes text) (laidToo : Laid more rest) : Laid (lexemes ++ more) (text ++ rest) := by
  induction laid with
  | nil => exact laidToo
  | cons isBlank _ ih =>
    rw [List.append_assoc, List.append_assoc]
    exact .cons isBlank ih

theorem Laid.of_append {lexemes more : List (List Char)} {text : List Char}
    (laid : Laid (lexemes ++ more) text) :
    ∃ front rest, text = front ++ rest ∧ Laid lexemes front ∧ Laid more rest := by
  induction lexemes generalizing text with
  | nil => exact ⟨[], text, rfl, .nil, laid⟩
  | cons lexeme lexemes ih =>
    cases laid with
    | cons isBlank others =>
      obtain ⟨front, rest, rfl, laid, laidToo⟩ := ih others
      exact ⟨_, rest, by simp only [List.append_assoc], .cons isBlank laid, laidToo⟩

theorem Laid.behind {lexemes : List (List Char)} {blank text : List Char} (laid : Laid lexemes text)
    (isBlank : IsBlank blank) (some : lexemes ≠ []) : Laid lexemes (blank ++ text) := by
  obtain _ | ⟨isBlankToo, others⟩ := laid
  · exact absurd rfl some
  rw [← List.append_assoc]
  exact .cons (fun c member => (List.mem_append.mp member).elim (isBlank c) (isBlankToo c)) others

theorem laid_singleton {blank : List Char} (lexeme : List Char) (isBlank : IsBlank blank) :
    Laid [lexeme] (blank ++ lexeme) := by
  have laid : Laid [lexeme] (blank ++ (lexeme ++ [])) := .cons isBlank .nil
  rwa [List.append_nil] at laid

theorem skipSpace_append {blank rest : List Char} (isBlank : IsBlank blank)
    (stops : Spares (fun c => isSpace c) rest) : skipSpace (blank ++ rest) = rest := by
  rw [skipSpace, List.dropWhile_append_of_pos isBlank]
  cases rest with
  | nil => rfl
  | cons c rest => exact List.dropWhile_cons_of_neg (stops c rfl)

theorem blank_of_skipSpace {text rest : List Char} (skipped : skipSpace text = rest) :
    ∃ blank, IsBlank blank ∧ text = blank ++ rest :=
  ⟨text.takeWhile isSpace, fun _ member => List.mem_takeWhile_imp member, by
    rw [← skipped, skipSpace, List.takeWhile_append_dropWhile]⟩

def OpensNumeral (c : Char) : Prop := Text.isDigit c ∨ c = '-'

def Opens (c : Char) : Prop :=
  OpensNumeral c ∨ c = '"' ∨ c = 'n' ∨ c = 't' ∨ c = 'f' ∨ c = '[' ∨ c = '{'

theorem Numeral.exists_cons {numeral : List Char} {value : Json} (isNumeral : Numeral numeral value) :
    ∃ c rest, numeral = c :: rest ∧ OpensNumeral c := by
  obtain ⟨negative, digits, -, -, -⟩ := isNumeral
  obtain ⟨c, rest, rfl⟩ := List.exists_cons_of_ne_nil digits.1
  cases negative with
  | true => exact ⟨'-', _, rfl, .inr rfl⟩
  | false => exact ⟨c, _, rfl, .inl (digits.2 c List.mem_cons_self)⟩

theorem Quoted.exists_cons {lexeme : List Char} {value : Option String} (quoted : Quoted lexeme value) :
    ∃ rest, lexeme = '"' :: rest := by
  obtain ⟨-, body, -, rfl, -⟩ := quoted
  exact ⟨_, rfl⟩

theorem Scalar.exists_cons {doc : Json} {lexeme : List Char} (isScalar : Scalar doc lexeme) :
    ∃ c rest, lexeme = c :: rest ∧ Opens c := by
  cases isScalar with
  | null => exact ⟨'n', _, rfl, by simp [Opens]⟩
  | yes => exact ⟨'t', _, rfl, by simp [Opens]⟩
  | no => exact ⟨'f', _, rfl, by simp [Opens]⟩
  | number isNumeral =>
    obtain ⟨c, rest, rfl, opens⟩ := isNumeral.exists_cons
    exact ⟨c, rest, rfl, .inl opens⟩
  | string quoted =>
    obtain ⟨rest, rfl⟩ := quoted.exists_cons
    exact ⟨'"', rest, rfl, by simp [Opens]⟩

def Begins (text : List Char) : Prop := ∃ c rest, text = c :: rest ∧ Opens c

theorem Forms.begins {doc : Json} {lexemes : List (List Char)} (forms : Forms doc lexemes) :
    ∃ lexeme more, lexemes = lexeme :: more ∧ Begins lexeme := by
  cases forms with
  | scalar isScalar => exact ⟨_, [], rfl, isScalar.exists_cons⟩
  | noItem => exact ⟨_, _, rfl, '[', [], rfl, by simp [Opens]⟩
  | arr => exact ⟨_, _, rfl, '[', [], rfl, by simp [Opens]⟩
  | noMember => exact ⟨_, _, rfl, '{', [], rfl, by simp [Opens]⟩
  | obj => exact ⟨_, _, rfl, '{', [], rfl, by simp [Opens]⟩

theorem FormsItems.begins {items : List Json} {lexemes : List (List Char)}
    (forms : FormsItems items lexemes) : ∃ lexeme more, lexemes = lexeme :: more ∧ Begins lexeme := by
  cases forms with
  | last forms => exact forms.begins
  | cons forms _ =>
    obtain ⟨lexeme, more, rfl, begins⟩ := forms.begins
    exact ⟨lexeme, _, rfl, begins⟩

theorem FormsMembers.begins {members : List (Option String × Json)} {lexemes : List (List Char)}
    (forms : FormsMembers members lexemes) :
    ∃ lexeme more, lexemes = lexeme :: more ∧ ∃ rest, lexeme = '"' :: rest := by
  cases forms with
  | last quoted _ => exact ⟨_, _, rfl, quoted.exists_cons⟩
  | cons quoted _ _ => exact ⟨_, _, rfl, quoted.exists_cons⟩

theorem OpensNumeral.not_mem {c : Char} (opens : OpensNumeral c) :
    c ∉ ['n', 't', 'f', '"', '[', '{', ' ', '\t', '\n', '\r', ']'] := by
  intro member
  simp only [List.mem_cons, List.not_mem_nil, or_false] at member
  rcases member with rfl | rfl | rfl | rfl | rfl | rfl | rfl | rfl | rfl | rfl | rfl <;>
    exact absurd opens (by unfold OpensNumeral; decide)

theorem Opens.not_isSpace {c : Char} (opens : Opens c) : ¬isSpace c := by
  rcases opens with opens | rfl | rfl | rfl | rfl | rfl | rfl
  · have other := opens.not_mem
    simp only [List.mem_cons, List.not_mem_nil, or_false, not_or] at other
    simp [isSpace, other]
  all_goals decide

theorem Opens.ne_bracket {c : Char} (opens : Opens c) : c ≠ ']' := by
  rintro rfl
  revert opens
  unfold Opens OpensNumeral
  decide

/-! ## The reader takes what is laid out -/

section Steps

variable {c : Char} {lexeme text rest : List Char} {more : List (List Char)} {fuel : Nat}

theorem Laid.skip (laid : Laid ((c :: lexeme) :: more) text) (noSpace : ¬isSpace c) :
    ∃ tail, (∀ rest, skipSpace (text ++ rest) = c :: (lexeme ++ (tail ++ rest))) ∧ Laid more tail ∧
      lexeme.length + tail.length < text.length := by
  obtain _ | ⟨isBlank, others⟩ := laid
  refine ⟨_, fun rest => ?_, others, by simp; omega⟩
  simp only [List.append_assoc, List.cons_append]
  exact skipSpace_append isBlank (spares_cons noSpace)

theorem Laid.bare (laid : Laid ((c :: lexeme) :: more) text) (noSpace : ¬isSpace c) :
    ∃ tail, (∀ rest, skipSpace (text ++ rest) = c :: (tail ++ rest)) ∧
      Laid ((c :: lexeme) :: more) (c :: tail) ∧ tail.length < text.length := by
  obtain ⟨tail, skipped, others, shorter⟩ := laid.skip noSpace
  refine ⟨lexeme ++ tail, fun rest => by rw [skipped, List.append_assoc], ?_, by simpa using shorter⟩
  have nothing : IsBlank [] := nofun
  exact .cons nothing others

theorem not_inNumeral (blank : isSpace c) : ¬InNumeral c := by
  simp only [isSpace, Bool.or_eq_true, decide_eq_true_eq] at blank
  rcases blank with ((rfl | rfl) | rfl) | rfl <;> unfold InNumeral <;> decide

theorem Laid.spares (laid : Laid ((c :: lexeme) :: more) text) (other : ¬InNumeral c) :
    Spares InNumeral (text ++ rest) := by
  obtain _ | @⟨blank, _, _, _, isBlank, others⟩ := laid
  cases blank with
  | nil => exact spares_cons other
  | cons first blank =>
    refine spares_cons fun inNumeral => ?_
    exact not_inNumeral (isBlank first List.mem_cons_self) inNumeral

theorem readValue_numeral (skipped : skipSpace text = c :: rest) (opens : OpensNumeral c) :
    readValue (fuel + 1) text = readNumber (c :: rest) := by
  have other := opens.not_mem
  simp only [List.mem_cons, List.not_mem_nil, or_false, not_or] at other
  rw [readValue, skipped]
  split
  all_goals first | rfl | (next same => exact absurd (List.cons.inj same).1 (by simp [other]))

end Steps

theorem readValue_scalar {doc : Json} {lexeme text rest : List Char} {fuel : Nat}
    (isScalar : Scalar doc lexeme) (skipped : skipSpace text = lexeme ++ rest)
    (ends : Spares InNumeral rest) : readValue (fuel + 1) text = some (doc, rest) := by
  cases isScalar with
  | null => rw [readValue, skipped]; rfl
  | yes => rw [readValue, skipped]; rfl
  | no => rw [readValue, skipped]; rfl
  | number isNumeral =>
    obtain ⟨c, tail, rfl, opens⟩ := isNumeral.exists_cons
    exact (readValue_numeral skipped opens).trans (readNumber_append isNumeral ends)
  | string quoted =>
    obtain ⟨tail, rfl⟩ := quoted.exists_cons
    have read : readString (tail ++ rest) = _ := readString_append quoted rest
    rw [readValue, skipped, List.cons_append]
    simp only [read, Option.map_some]

/-- With this much fuel, what is laid out is read, closing lexemes included. Every lexeme has a
character, and the reader goes down at most twice for each: into an array and into its first item. -/
structure TakesLaid (fuel : Nat) : Prop where
  value {doc : Json} {lexemes : List (List Char)} {text : List Char} (rest : List Char)
    (forms : Forms doc lexemes) (laid : Laid lexemes text) (enough : 2 * text.length ≤ fuel)
    (ends : Spares InNumeral rest) : readValue fuel (text ++ rest) = some (doc, rest)
  items {items : List Json} {lexemes : List (List Char)} {text : List Char} (rest : List Char)
    (forms : FormsItems items lexemes) (laid : Laid (lexemes ++ [[']']]) text)
    (enough : 2 * text.length ≤ fuel + 1) : readItems fuel (text ++ rest) = some (items, rest)
  members {members : List (Option String × Json)} {lexemes : List (List Char)}
    {text : List Char} (rest : List Char) (forms : FormsMembers members lexemes)
    (laid : Laid (lexemes ++ [['}']]) text) (enough : 2 * text.length ≤ fuel + 1) :
    readMembers fuel (text ++ rest) = some (members, rest)

theorem TakesLaid.value_succ {fuel : Nat} (takes : TakesLaid fuel) {doc : Json}
    {lexemes : List (List Char)} {text : List Char} (rest : List Char) (forms : Forms doc lexemes)
    (laid : Laid lexemes text) (enough : 2 * text.length ≤ fuel + 1)
    (ends : Spares InNumeral rest) : readValue (fuel + 1) (text ++ rest) = some (doc, rest) := by
  cases forms with
  | scalar isScalar =>
    obtain ⟨c, lexeme, rfl, opens⟩ := isScalar.exists_cons
    obtain ⟨tail, skipped, others, -⟩ := laid.skip opens.not_isSpace
    cases others
    exact readValue_scalar isScalar (skipped rest) ends
  | noItem =>
    obtain ⟨tail, skipped, others, -⟩ := laid.skip (by decide)
    obtain ⟨end', skippedToo, nothing, -⟩ := others.skip (by decide)
    cases nothing
    rw [readValue, skipped]
    simp only [List.nil_append, skippedToo]
  | arr forms =>
    obtain ⟨tail, skipped, others, shorter⟩ := laid.skip (by decide)
    obtain ⟨_, more, rfl, c, lexeme, rfl, opens⟩ := forms.begins
    obtain ⟨bare, skippedToo, laidToo, shorterToo⟩ := others.bare opens.not_isSpace
    have read := takes.items rest forms laidToo (by rw [List.length_cons]; omega)
    rw [List.cons_append] at read
    rw [readValue, skipped]
    simp only [List.nil_append, skippedToo]
    split
    · next same => exact absurd (List.cons.inj same).1 opens.ne_bracket
    · rw [read, Option.map_some]
  | noMember =>
    obtain ⟨tail, skipped, others, -⟩ := laid.skip (by decide)
    obtain ⟨end', skippedToo, nothing, -⟩ := others.skip (by decide)
    cases nothing
    rw [readValue, skipped]
    simp only [List.nil_append, skippedToo]
  | obj forms =>
    obtain ⟨tail, skipped, others, shorter⟩ := laid.skip (by decide)
    obtain ⟨_, more, rfl, lexeme, rfl⟩ := forms.begins
    obtain ⟨bare, skippedToo, laidToo, shorterToo⟩ := others.bare (by decide)
    have read := takes.members rest forms laidToo (by rw [List.length_cons]; omega)
    rw [List.cons_append] at read
    rw [readValue, skipped]
    simp only [List.nil_append, skippedToo]
    split
    · next same => cases (List.cons.inj same).1
    · rw [read, Option.map_some]

theorem TakesLaid.items_succ {fuel : Nat} (takes : TakesLaid fuel) {items : List Json}
    {lexemes : List (List Char)} {text : List Char} (rest : List Char) (forms : FormsItems items lexemes)
    (laid : Laid (lexemes ++ [[']']]) text) (enough : 2 * text.length ≤ fuel + 2) :
    readItems (fuel + 1) (text ++ rest) = some (items, rest) := by
  cases forms with
  | last forms =>
    obtain ⟨front, behind, rfl, laid, closing⟩ := laid.of_append
    rw [List.length_append] at enough
    obtain ⟨tail, skipped, nothing, shorter⟩ := closing.skip (by decide)
    cases nothing
    have read := takes.value (behind ++ rest) forms laid (by omega)
      (closing.spares (by unfold InNumeral; decide))
    rw [List.append_assoc, readItems, read]
    simp only [skipped, List.nil_append]
  | cons forms others =>
    rw [List.append_assoc] at laid
    obtain ⟨front, behind, rfl, laid, closing⟩ := laid.of_append
    rw [List.length_append] at enough
    obtain ⟨tail, skipped, laidToo, shorter⟩ := closing.skip (by decide)
    have read := takes.value (behind ++ rest) forms laid (by omega)
      (closing.spares (by unfold InNumeral; decide))
    have readToo := takes.items rest others laidToo (by omega)
    rw [List.append_assoc, readItems, read]
    simp only [skipped, List.nil_append, readToo, Option.map_some]

theorem TakesLaid.members_succ {fuel : Nat} (takes : TakesLaid fuel)
    {members : List (Option String × Json)} {lexemes : List (List Char)} {text : List Char}
    (rest : List Char) (forms : FormsMembers members lexemes) (laid : Laid (lexemes ++ [['}']]) text)
    (enough : 2 * text.length ≤ fuel + 2) :
    readMembers (fuel + 1) (text ++ rest) = some (members, rest) := by
  cases forms with
  | last quoted forms =>
    obtain ⟨lexeme, rfl⟩ := quoted.exists_cons
    obtain ⟨colon, skippedName, laidColon, shorterName⟩ := laid.skip (by decide)
    obtain ⟨tail, skippedColon, laid, shorterColon⟩ := laidColon.skip (by decide)
    obtain ⟨front, behind, rfl, laid, closing⟩ := laid.of_append
    rw [List.length_append] at shorterColon
    obtain ⟨nothing, skipped, laidNothing, shorter⟩ := closing.skip (by decide)
    cases laidNothing
    have readName := readString_append quoted (colon ++ rest)
    have read := takes.value (behind ++ rest) forms laid (by omega)
      (closing.spares (by unfold InNumeral; decide))
    rw [readMembers, skippedName]
    simp only [readName, skippedColon, List.nil_append, List.append_assoc, read, skipped]
  | cons quoted forms others =>
    obtain ⟨lexeme, rfl⟩ := quoted.exists_cons
    simp only [List.cons_append, List.append_assoc] at laid
    obtain ⟨colon, skippedName, laidColon, shorterName⟩ := laid.skip (by decide)
    obtain ⟨tail, skippedColon, laid, shorterColon⟩ := laidColon.skip (by decide)
    obtain ⟨front, behind, rfl, laid, closing⟩ := laid.of_append
    rw [List.length_append] at shorterColon
    obtain ⟨more, skipped, laidToo, shorter⟩ := closing.skip (by decide)
    have readName := readString_append quoted (colon ++ rest)
    have read := takes.value (behind ++ rest) forms laid (by omega)
      (closing.spares (by unfold InNumeral; decide))
    have readToo := takes.members rest others laidToo (by omega)
    rw [readMembers, skippedName]
    simp only [readName, skippedColon, List.nil_append, List.append_assoc, read, skipped, readToo,
      Option.map_some]

theorem takesLaid (fuel : Nat) : TakesLaid fuel := by
  induction fuel with
  | zero =>
    refine ⟨fun _ forms laid enough => ?_, fun _ forms laid enough => ?_,
      fun _ forms laid enough => ?_⟩
    · obtain ⟨_, more, rfl, c, lexeme, rfl, opens⟩ := forms.begins
      obtain ⟨tail, -, -, shorter⟩ := laid.skip opens.not_isSpace
      omega
    · obtain ⟨_, more, rfl, c, lexeme, rfl, opens⟩ := forms.begins
      obtain ⟨tail, -, -, shorter⟩ := laid.skip opens.not_isSpace
      omega
    · obtain ⟨_, more, rfl, lexeme, rfl⟩ := forms.begins
      obtain ⟨tail, -, -, shorter⟩ := laid.skip (by decide)
      omega
  | succ fuel ih => exact ⟨ih.value_succ, ih.items_succ, ih.members_succ⟩

/-! ## What the reader takes is laid out -/

/-- The text begins with a layout of the lexemes, and goes on with the rest. -/
def LaidBefore (lexemes : List (List Char)) (text rest : List Char) : Prop :=
  ∃ front, text = front ++ rest ∧ Laid lexemes front

theorem LaidBefore.trans {lexemes more : List (List Char)} {text between rest : List Char}
    (laid : LaidBefore lexemes text between) (laidToo : LaidBefore more between rest) :
    LaidBefore (lexemes ++ more) text rest := by
  obtain ⟨front, rfl, laid⟩ := laid
  obtain ⟨behind, rfl, laidToo⟩ := laidToo
  exact ⟨front ++ behind, (List.append_assoc ..).symm, laid.append laidToo⟩

theorem LaidBefore.of_skipSpace {text rest : List Char} (lexeme : List Char)
    (skipped : skipSpace text = lexeme ++ rest) : LaidBefore [lexeme] text rest := by
  obtain ⟨blank, isBlank, rfl⟩ := blank_of_skipSpace skipped
  exact ⟨blank ++ lexeme, (List.append_assoc ..).symm, laid_singleton _ isBlank⟩

theorem LaidBefore.skip {text rest behind : List Char} {lexemes : List (List Char)}
    (skipped : skipSpace text = behind) (laid : LaidBefore lexemes behind rest) (some : lexemes ≠ []) :
    LaidBefore lexemes text rest := by
  obtain ⟨blank, isBlank, rfl⟩ := blank_of_skipSpace skipped
  obtain ⟨front, rfl, laid⟩ := laid
  exact ⟨blank ++ front, (List.append_assoc ..).symm, laid.behind isBlank some⟩

structure TakenLaid (fuel : Nat) : Prop where
  value (doc : Json) (text rest : List Char) (read : readValue fuel text = some (doc, rest)) :
    ∃ lexemes, Forms doc lexemes ∧ LaidBefore lexemes text rest
  items (items : List Json) (text rest : List Char) (read : readItems fuel text = some (items, rest)) :
    ∃ lexemes, FormsItems items lexemes ∧ LaidBefore (lexemes ++ [[']']]) text rest
  members (members : List (Option String × Json)) (text rest : List Char)
    (read : readMembers fuel text = some (members, rest)) :
    ∃ lexemes, FormsMembers members lexemes ∧ LaidBefore (lexemes ++ [['}']]) text rest

theorem TakenLaid.value_succ {fuel : Nat} (taken : TakenLaid fuel) (doc : Json)
    (text rest : List Char) (read : readValue (fuel + 1) text = some (doc, rest)) :
    ∃ lexemes, Forms doc lexemes ∧ LaidBefore lexemes text rest := by
  unfold readValue at read
  split at read
  · next skipped =>
    obtain ⟨rfl, rfl⟩ := Prod.mk.inj (Option.some.inj read)
    exact ⟨_, .scalar .null, .of_skipSpace _ skipped⟩
  · next skipped =>
    obtain ⟨rfl, rfl⟩ := Prod.mk.inj (Option.some.inj read)
    exact ⟨_, .scalar .yes, .of_skipSpace _ skipped⟩
  · next skipped =>
    obtain ⟨rfl, rfl⟩ := Prod.mk.inj (Option.some.inj read)
    exact ⟨_, .scalar .no, .of_skipSpace _ skipped⟩
  · next behind skipped =>
    obtain ⟨⟨value, rest⟩, readString, same⟩ := Option.map_eq_some_iff.mp read
    obtain ⟨rfl, rfl⟩ := Prod.mk.inj same
    obtain ⟨body, rfl, quoted⟩ := of_readString readString
    exact ⟨_, .scalar (.string quoted), .of_skipSpace _ skipped⟩
  · next behind skipped =>
    split at read
    · next skippedToo =>
      obtain ⟨rfl, rfl⟩ := Prod.mk.inj (Option.some.inj read)
      exact ⟨_, .noItem, (LaidBefore.of_skipSpace ['['] skipped).trans
        (.of_skipSpace [']'] skippedToo)⟩
    · obtain ⟨⟨items, rest⟩, readItems, same⟩ := Option.map_eq_some_iff.mp read
      obtain ⟨rfl, rfl⟩ := Prod.mk.inj same
      obtain ⟨lexemes, forms, laid⟩ := taken.items _ _ _ readItems
      exact ⟨_, .arr forms, (LaidBefore.of_skipSpace ['['] skipped).trans
        (.skip rfl laid (by simp))⟩
  · next behind skipped =>
    split at read
    · next skippedToo =>
      obtain ⟨rfl, rfl⟩ := Prod.mk.inj (Option.some.inj read)
      exact ⟨_, .noMember, (LaidBefore.of_skipSpace ['{'] skipped).trans
        (.of_skipSpace ['}'] skippedToo)⟩
    · obtain ⟨⟨members, rest⟩, readMembers, same⟩ := Option.map_eq_some_iff.mp read
      obtain ⟨rfl, rfl⟩ := Prod.mk.inj same
      obtain ⟨lexemes, forms, laid⟩ := taken.members _ _ _ readMembers
      exact ⟨_, .obj forms, (LaidBefore.of_skipSpace ['{'] skipped).trans
        (.skip rfl laid (by simp))⟩
  · obtain ⟨numeral, skipped, isNumeral⟩ := of_readNumber read
    exact ⟨_, .scalar (.number isNumeral), .of_skipSpace _ skipped⟩

theorem TakenLaid.items_succ {fuel : Nat} (taken : TakenLaid fuel) (items : List Json)
    (text rest : List Char) (read : readItems (fuel + 1) text = some (items, rest)) :
    ∃ lexemes, FormsItems items lexemes ∧ LaidBefore (lexemes ++ [[']']]) text rest := by
  unfold readItems at read
  split at read
  · cases read
  · next item behind readItem =>
    obtain ⟨lexemes, forms, laid⟩ := taken.value _ _ _ readItem
    split at read
    · next skipped =>
      obtain ⟨⟨others, tail⟩, readOthers, same⟩ := Option.map_eq_some_iff.mp read
      obtain ⟨rfl, rfl⟩ := Prod.mk.inj same
      obtain ⟨more, formsOthers, laidOthers⟩ := taken.items _ _ _ readOthers
      have comma := LaidBefore.of_skipSpace [','] skipped
      exact ⟨_, .cons forms formsOthers, by simpa using laid.trans (comma.trans laidOthers)⟩
    · next skipped =>
      obtain ⟨rfl, rfl⟩ := Prod.mk.inj (Option.some.inj read)
      exact ⟨_, .last forms, laid.trans (.of_skipSpace _ skipped)⟩
    · cases read

theorem TakenLaid.members_succ {fuel : Nat} (taken : TakenLaid fuel)
    (members : List (Option String × Json)) (text rest : List Char)
    (read : readMembers (fuel + 1) text = some (members, rest)) :
    ∃ lexemes, FormsMembers members lexemes ∧ LaidBefore (lexemes ++ [['}']]) text rest := by
  unfold readMembers at read
  split at read
  · next skippedQuote =>
    split at read
    · cases read
    · next readName =>
      obtain ⟨body, rfl, quoted⟩ := of_readString readName
      have name := LaidBefore.of_skipSpace ('"' :: body) skippedQuote
      split at read
      · next skippedColon =>
        have colon := LaidBefore.of_skipSpace [':'] skippedColon
        split at read
        · cases read
        · next readValue =>
          obtain ⟨lexemes, forms, laid⟩ := taken.value _ _ _ readValue
          have member := name.trans (colon.trans laid)
          split at read
          · next skipped =>
            obtain ⟨⟨others, tail⟩, readOthers, same⟩ := Option.map_eq_some_iff.mp read
            obtain ⟨rfl, rfl⟩ := Prod.mk.inj same
            obtain ⟨more, formsOthers, laidOthers⟩ := taken.members _ _ _ readOthers
            have comma := LaidBefore.of_skipSpace [','] skipped
            exact ⟨_, .cons quoted forms formsOthers, by
              simpa using member.trans (comma.trans laidOthers)⟩
          · next skipped =>
            obtain ⟨rfl, rfl⟩ := Prod.mk.inj (Option.some.inj read)
            exact ⟨_, .last quoted forms, member.trans (.of_skipSpace _ skipped)⟩
          · cases read
      · cases read
  · cases read

theorem takenLaid (fuel : Nat) : TakenLaid fuel := by
  induction fuel with
  | zero => exact ⟨nofun, nofun, nofun⟩
  | succ fuel ih => exact ⟨ih.value_succ, ih.items_succ, ih.members_succ⟩

def Spells (source : String) (doc : Json) : Prop :=
  ∃ lexemes, Forms doc lexemes ∧ LaidOut lexemes source

theorem parse?_of_spells {source : String} {doc : Json} (spells : Spells source doc) :
    parse? source = some doc := by
  obtain ⟨lexemes, forms, text, blank, whole, laid, isBlank⟩ := spells
  have ends : Spares InNumeral blank := fun c first =>
    not_inNumeral (isBlank c (List.mem_of_head? first))
  have read := (takesLaid (2 * source.toList.length + 2)).value blank forms laid
    (by rw [whole, List.length_append]; omega) ends
  have skipped : skipSpace blank = [] := by
    have nothing : Spares (fun c => isSpace c) [] := nofun
    rw [← List.append_nil blank, skipSpace_append isBlank nothing]
  rw [← whole] at read
  simp only [parse?, read, skipped, List.isEmpty_nil, if_true]

theorem spells_of_parse? {source : String} {doc : Json} (parsed : parse? source = some doc) :
    Spells source doc := by
  unfold parse? at parsed
  dsimp only at parsed
  split at parsed
  · next value rest read =>
    split at parsed
    · next empty =>
      obtain rfl := Option.some.inj parsed
      obtain ⟨lexemes, forms, front, whole, laid⟩ := (takenLaid _).value _ _ _ read
      obtain ⟨blank, isBlank, rfl⟩ := blank_of_skipSpace (List.isEmpty_iff.mp empty)
      rw [List.append_nil] at whole
      exact ⟨lexemes, forms, front, blank, whole, laid, isBlank⟩
    · cases parsed
  · cases parsed

theorem parse?_eq_some_iff {source : String} {doc : Json} :
    parse? source = some doc ↔ Spells source doc :=
  ⟨spells_of_parse?, parse?_of_spells⟩

end ModelHub.Json
