import ModelHub.Json.Writer
import ModelHub.Proofs.Json.Grammar

namespace ModelHub.Json

/-- The document can be written: its strings have characters, its numbers are numerals. -/
inductive Legible : Json → Prop where
  | null : Legible .null
  | bool (value : Bool) : Legible (.bool value)
  | int (value : Int) : Legible (.int value)
  | real {literal : String} (isNumeral : Numeral literal.toList (.real literal)) :
      Legible (.real literal)
  | str (value : String) : Legible (.str (some value))
  | arr {items : List Json} (all : ∀ item ∈ items, Legible item) : Legible (.arr items)
  | obj {members : List (Option String × Json)} (named : ∀ member ∈ members, member.1.isSome)
      (all : ∀ member ∈ members, Legible member.2) : Legible (.obj members)

theorem readUnit_hexDigit : ∀ n < 0x20,
    readUnit ['0', '0', hexDigit (n / 16), hexDigit (n % 16)] = some (n, []) := by
  decide

theorem unitChar_control : ∀ n < 0x20, unitChar n = some (Char.ofNat n) ∧ isLeadUnit n = false := by
  decide

theorem spelling_escape (c : Char) : ∃ piece, Spelling piece (escape c) ∧
    ∀ pieces, characters (piece :: pieces) = withFirst (some c) (characters pieces) := by
  unfold escape
  split
  · next same => exact ⟨.char c, .short (by simp [shortEscapes, same]), fun _ => rfl⟩
  split
  · next same => exact ⟨.char c, .short (by simp [shortEscapes, same]), fun _ => rfl⟩
  split
  · next same => exact ⟨.char c, .short (by simp [shortEscapes, same]), fun _ => rfl⟩
  split
  · next same => exact ⟨.char c, .short (by simp [shortEscapes, same]), fun _ => rfl⟩
  split
  · next same => exact ⟨.char c, .short (by simp [shortEscapes, same]), fun _ => rfl⟩
  split
  · next same => exact ⟨.char c, .short (by simp [shortEscapes, same]), fun _ => rfl⟩
  split
  · next same => exact ⟨.char c, .short (by simp [shortEscapes, same]), fun _ => rfl⟩
  split
  · next control =>
    obtain ⟨value, noLead⟩ := unitChar_control c.toNat control
    refine ⟨.unit c.toNat, .unit (readUnit_hexDigit c.toNat control), fun pieces => ?_⟩
    rw [characters_unit (by simp [noLead]), value, Char.ofNat_toNat]
  · next noQuote noEscape _ _ _ _ _ visible =>
    exact ⟨.char c, .plain noQuote noEscape visible, fun _ => rfl⟩

theorem spellings_escape (chars : List Char) :
    ∃ pieces, Spellings pieces (chars.flatMap escape) ∧ characters pieces = some chars := by
  induction chars with
  | nil => exact ⟨[], .nil, rfl⟩
  | cons c rest ih =>
    obtain ⟨pieces, spelled, value⟩ := ih
    obtain ⟨piece, first, found⟩ := spelling_escape c
    exact ⟨piece :: pieces, .cons first spelled, by rw [found, value]; rfl⟩

theorem quoted_quote (text : String) : Quoted (quote text).toList (some text) := by
  obtain ⟨pieces, spelled, value⟩ := spellings_escape text.toList
  refine ⟨pieces, _, spelled, by simp [quote], ?_⟩
  rw [value, Option.map_some, String.ofList_toList]

theorem valueOf_toDigits (n : Nat) : valueOf (Nat.toDigits 10 n) = n := by
  have folded : valueOf (Nat.toDigits 10 n) = Nat.ofDigitChars 10 (Nat.toDigits 10 n) 0 := by
    rw [Nat.ofDigitChars_eq_foldl]
    unfold valueOf Text.digitValue
    congr 1
    funext n c
    rw [Nat.mul_comm]
  rw [folded, Nat.ofDigitChars_ten_toDigits]

theorem isDigits_toDigits (n : Nat) : IsDigits (Nat.toDigits 10 n) :=
  ⟨Nat.toDigits_ne_nil, fun _ member => Nat.isDigit_of_mem_toDigits (by decide) (by decide) member⟩

theorem head?_toDigits {n : Nat} (positive : 0 < n) : (Nat.toDigits 10 n).head? ≠ some '0' := by
  induction n using Nat.strongRecOn with
  | ind n ih =>
    by_cases small : n < 10
    · have digit : ∀ n < 10, 0 < n → Nat.digitChar n ≠ '0' := by decide
      rw [Nat.toDigits_of_lt_base small, List.head?_singleton]
      exact fun same => digit n small positive (Option.some.inj same)
    · rw [Nat.toDigits_of_base_le (by decide) (by omega), List.head?_append,
        List.head?_eq_some_head Nat.toDigits_ne_nil, Option.some_or,
        ← List.head?_eq_some_head Nat.toDigits_ne_nil]
      exact ih (n / 10) (by omega) (by omega)

theorem numeral_toDigits (negative : Bool) (n : Nat) (noZero : negative = true → 0 < n) :
    Numeral ((if negative then ['-'] else []) ++ Nat.toDigits 10 n)
      (.int (if negative then -(n : Int) else n)) := by
  have noLeadingZero : (Nat.toDigits 10 n).head? = some '0' → Nat.toDigits 10 n = ['0'] := by
    intro zero
    have isZero : n = 0 := Nat.eq_zero_of_not_pos fun positive => head?_toDigits positive zero
    rw [isZero, Nat.toDigits_zero]
  have numeral := Numeral.intro negative (isDigits_toDigits n) noLeadingZero .none .none
  have noMinusZero : (negative && Nat.toDigits 10 n = ['0']) = false := by
    refine Bool.and_eq_false_imp.mpr fun minus => decide_eq_false fun zero => ?_
    exact head?_toDigits (noZero minus) (by rw [zero]; rfl)
  simpa [makeNumber, noMinusZero, valueOf_toDigits] using numeral

theorem numeral_toString (value : Int) : Numeral (toString value).toList (.int value) := by
  cases value with
  | ofNat n =>
    have digits : (toString (Int.ofNat n)).toList = Nat.toDigits 10 n := by
      rw [Int.toString_eq_repr, Int.repr, Nat.repr_eq_ofList_toDigits, String.toList_ofList]
    rw [digits]
    exact numeral_toDigits false n nofun
  | negSucc n =>
    have digits : (toString (Int.negSucc n)).toList = '-' :: Nat.toDigits 10 (n + 1) := by
      rw [Int.toString_eq_repr, Int.repr, Nat.repr_eq_ofList_toDigits, String.toList_append,
        String.toList_ofList, String.toList_ofList]
      rfl
    rw [digits]
    exact numeral_toDigits true (n + 1) fun _ => n.succ_pos

theorem isBlank_lineStart (indented : Bool) (depth : Nat) :
    IsBlank (lineStart indented depth).toList := by
  intro c member
  cases indented with
  | false => cases member
  | true =>
    simp only [lineStart, if_true, String.toList_append, String.toList_ofList, List.mem_append] at member
    rcases member with line | indent
    · rw [List.mem_singleton.mp line]
      rfl
    · rw [List.eq_of_mem_replicate indent]
      rfl

theorem Forms.ne_nil {doc : Json} {lexemes : List (List Char)} (forms : Forms doc lexemes) :
    lexemes ≠ [] := by
  obtain ⟨_, _, rfl, -⟩ := forms.begins
  exact List.cons_ne_nil _ _

section

variable {indented : Bool} {depth : Nat}

theorem laid_writeItems {item : Json} {items : List Json}
    (all : ∀ each ∈ item :: items, ∃ lexemes, Forms each lexemes ∧
      Laid lexemes (write indented depth each).toList) :
    ∃ lexemes, FormsItems (item :: items) lexemes ∧
      Laid lexemes (writeItems indented depth true (item :: items)).toList := by
  induction items generalizing item with
  | nil =>
    obtain ⟨lexemes, forms, laid⟩ := all item List.mem_cons_self
    refine ⟨lexemes, .last forms, ?_⟩
    simpa [writeItems] using laid.behind (isBlank_lineStart indented depth) forms.ne_nil
  | cons next items ih =>
    obtain ⟨lexemes, forms, laid⟩ := all item List.mem_cons_self
    obtain ⟨more, formsOthers, laidOthers⟩ := ih fun each member => all each (.tail _ member)
    refine ⟨_, .cons forms formsOthers, ?_⟩
    have nothing : IsBlank [] := nofun
    have comma : Laid ([','] :: more) _ := .cons nothing laidOthers
    have whole := (laid.behind (isBlank_lineStart indented depth) forms.ne_nil).append comma
    simpa [writeItems] using whole

theorem laid_member (name : String) {lexemes : List (List Char)} {value : List Char}
    (laid : Laid lexemes value) (some : lexemes ≠ []) :
    Laid ((quote name).toList :: [':'] :: lexemes)
      ((lineStart indented depth).toList ++ ((quote name).toList ++
        ((if indented then ": " else ":").toList ++ value))) := by
  have nothing : IsBlank [] := nofun
  refine .cons (isBlank_lineStart indented depth) ?_
  cases indented with
  | false => exact .cons nothing laid
  | true =>
    have blank : IsBlank [' '] := by simp [IsBlank, isSpace]
    exact .cons nothing (laid.behind blank some)

theorem laid_writeMembers {member : Option String × Json} {members : List (Option String × Json)}
    (named : ∀ each ∈ member :: members, each.1.isSome)
    (all : ∀ each ∈ member :: members, ∃ lexemes, Forms each.2 lexemes ∧
      Laid lexemes (write indented depth each.2).toList) :
    ∃ lexemes, FormsMembers (member :: members) lexemes ∧
      Laid lexemes (writeMembers indented depth true (member :: members)).toList := by
  have nothing : IsBlank [] := nofun
  induction members generalizing member with
  | nil =>
    obtain ⟨lexemes, forms, laid⟩ := all member List.mem_cons_self
    obtain ⟨name, value⟩ := member
    obtain ⟨name, rfl⟩ := Option.isSome_iff_exists.mp (named _ List.mem_cons_self)
    refine ⟨_, .last (quoted_quote name) forms, ?_⟩
    simpa [writeMembers] using laid_member name laid forms.ne_nil
  | cons next members ih =>
    obtain ⟨lexemes, forms, laid⟩ := all member List.mem_cons_self
    obtain ⟨more, formsOthers, laidOthers⟩ := ih (fun each member => named each (.tail _ member))
      fun each member => all each (.tail _ member)
    obtain ⟨name, value⟩ := member
    obtain ⟨name, rfl⟩ := Option.isSome_iff_exists.mp (named _ List.mem_cons_self)
    refine ⟨_, .cons (quoted_quote name) forms formsOthers, ?_⟩
    have comma : Laid ([','] :: more) _ := .cons nothing laidOthers
    have first := @laid_member indented depth name _ _ laid forms.ne_nil
    have whole := first.append comma
    simpa [writeMembers] using whole

end

theorem Legible.laid {doc : Json} (legible : Legible doc) (indented : Bool) (depth : Nat) :
    ∃ lexemes, Forms doc lexemes ∧ Laid lexemes (write indented depth doc).toList := by
  have nothing : IsBlank [] := nofun
  have sole : ∀ {doc lexeme}, Scalar doc lexeme →
      ∃ lexemes, Forms doc lexemes ∧ Laid lexemes lexeme := fun isScalar =>
    ⟨_, .scalar isScalar, laid_singleton _ nothing⟩
  induction legible generalizing depth with
  | null => rw [write]; exact sole .null
  | bool value => cases value with
    | true => rw [write]; exact sole .yes
    | false => rw [write]; exact sole .no
  | int value => exact sole (.number (numeral_toString value))
  | real isNumeral => exact sole (.number isNumeral)
  | str value => exact sole (.string (quoted_quote value))
  | @arr items _ ih =>
    cases items with
    | nil => rw [write]; exact ⟨_, .noItem, .cons nothing (.cons nothing .nil)⟩
    | cons item items =>
      obtain ⟨lexemes, forms, laid⟩ := laid_writeItems fun each member =>
        ih each member (depth + 1)
      have closing := laid.append (laid_singleton [']'] (isBlank_lineStart indented depth))
      refine ⟨_, .arr forms, ?_⟩
      have whole : Laid (['['] :: _) _ := .cons nothing closing
      simpa [write] using whole
  | @obj members named _ ih =>
    cases members with
    | nil => rw [write]; exact ⟨_, .noMember, .cons nothing (.cons nothing .nil)⟩
    | cons member members =>
      obtain ⟨lexemes, forms, laid⟩ := laid_writeMembers named fun each member =>
        ih each member (depth + 1)
      have closing := laid.append (laid_singleton ['}'] (isBlank_lineStart indented depth))
      refine ⟨_, .obj forms, ?_⟩
      have whole : Laid (['{'] :: _) _ := .cons nothing closing
      simpa [write] using whole

theorem Legible.spells {doc : Json} (legible : Legible doc) (indented : Bool) (depth : Nat) :
    Spells (write indented depth doc) doc := by
  obtain ⟨lexemes, forms, laid⟩ := legible.laid indented depth
  exact ⟨lexemes, forms, _, [], (List.append_nil _).symm, laid, nofun⟩

end ModelHub.Json
