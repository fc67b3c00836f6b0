import Mathlib.Data.List.TakeWhile
import ModelHub.Json.Reader

namespace ModelHub.Json

open Text (isDigit)

def IsDigits (text : List Char) : Prop := text ≠ [] ∧ ∀ c ∈ text, isDigit c

inductive Fraction : List Char → Prop where
  | none : Fraction []
  | some {digits : List Char} (places : IsDigits digits) : Fraction ('.' :: digits)

inductive Exponent : List Char → Prop where
  | none : Exponent []
  | some {mark : Char} {sign digits : List Char} (isMark : mark = 'e' ∨ mark = 'E')
      (isSign : sign = [] ∨ sign = ['+'] ∨ sign = ['-']) (places : IsDigits digits) :
      Exponent (mark :: sign ++ digits)

inductive Numeral : List Char → Json → Prop where
  | intro (negative : Bool) {whole fraction exponent : List Char} (digits : IsDigits whole)
      (noLeadingZero : whole.head? = some '0' → whole = ['0']) (hasFraction : Fraction fraction)
      (hasExponent : Exponent exponent) :
      Numeral ((if negative then ['-'] else []) ++ whole ++ fraction ++ exponent)
        (makeNumber negative whole fraction exponent)

/-- The text goes on with none of these characters. -/
def Spares (allowed : Char → Prop) (rest : List Char) : Prop :=
  ∀ c, rest.head? = some c → ¬allowed c

theorem Spares.mono {allowed fewer : Char → Prop} {rest : List Char} (spares : Spares allowed rest)
    (subset : ∀ c, fewer c → allowed c) : Spares fewer rest :=
  fun c first isFewer => spares c first (subset c isFewer)

theorem spares_cons {allowed : Char → Prop} {c : Char} {rest : List Char} (other : ¬allowed c) :
    Spares allowed (c :: rest) := by
  intro d first
  rwa [← Option.some.inj first]

def InNumeral (c : Char) : Prop := isDigit c ∨ c = '.' ∨ c = 'e' ∨ c = 'E'

theorem takeDigits_append {digits rest : List Char} (all : ∀ c ∈ digits, isDigit c)
    (ends : Spares (fun c => isDigit c) rest) : takeDigits (digits ++ rest) = (digits, rest) := by
  have stops : rest.takeWhile isDigit = [] ∧ rest.dropWhile isDigit = rest := by
    cases rest with
    | nil => exact ⟨rfl, rfl⟩
    | cons c rest =>
      have other : ¬isDigit c := ends c rfl
      exact ⟨List.takeWhile_cons_of_neg other, List.dropWhile_cons_of_neg other⟩
  rw [takeDigits, List.takeWhile_append_of_pos all, List.dropWhile_append_of_pos all, stops.1,
    stops.2, List.append_nil]

theorem of_takeDigits {text digits rest : List Char} (taken : takeDigits text = (digits, rest)) :
    text = digits ++ rest ∧ ∀ c ∈ digits, isDigit c := by
  obtain ⟨rfl, rfl⟩ := Prod.mk.inj taken
  exact ⟨List.takeWhile_append_dropWhile.symm, fun c member => List.mem_takeWhile_imp member⟩

theorem readWhole_append {whole rest : List Char} (digits : IsDigits whole)
    (noLeadingZero : whole.head? = some '0' → whole = ['0'])
    (ends : Spares (fun c => isDigit c) rest) : readWhole (whole ++ rest) = some (whole, rest) := by
  unfold readWhole
  rw [takeDigits_append digits.2 ends]
  split
  · next same => exact absurd (Prod.mk.inj same).1 digits.1
  · next second tail _ same =>
    obtain ⟨rfl, rfl⟩ := Prod.mk.inj same
    cases noLeadingZero rfl
  · rfl

theorem readFraction_append {fraction rest : List Char} (isFraction : Fraction fraction)
    (ends : Spares (fun c => isDigit c ∨ c = '.') rest) :
    readFraction (fraction ++ rest) = some (fraction, rest) := by
  cases isFraction with
  | none =>
    unfold readFraction
    split
    · next same => exact absurd (Or.inr rfl) (ends '.' (by rw [← List.nil_append rest, same]; rfl))
    · rfl
  | some places =>
    have noDigit : Spares (fun c => isDigit c) rest := fun c first digit =>
      ends c first (Or.inl digit)
    rw [List.cons_append, readFraction, takeDigits_append places.2 noDigit]
    split
    · next same => exact absurd (Prod.mk.inj same).1 places.1
    · next same =>
      obtain ⟨rfl, rfl⟩ := Prod.mk.inj same
      rfl

def splitSign : List Char → List Char × List Char
  | '+' :: rest => (['+'], rest)
  | '-' :: rest => (['-'], rest)
  | rest => ([], rest)

theorem readExponent_cons (c : Char) (rest : List Char) :
    readExponent (c :: rest) = if c = 'e' || c = 'E' then
        match takeDigits (splitSign rest).2 with
        | ([], _) => none
        | (digits, more) => some (c :: (splitSign rest).1 ++ digits, more)
      else some ([], c :: rest) := by
  unfold readExponent splitSign
  rfl

theorem splitSign_append {sign rest : List Char} (isSign : sign = [] ∨ sign = ['+'] ∨ sign = ['-'])
    (noSign : Spares (fun c => c = '+' ∨ c = '-') rest) : splitSign (sign ++ rest) = (sign, rest) := by
  rcases isSign with rfl | rfl | rfl
  · unfold splitSign
    split
    · next same => exact absurd (Or.inl rfl) (noSign '+' (congrArg List.head? same))
    · next same => exact absurd (Or.inr rfl) (noSign '-' (congrArg List.head? same))
    · rfl
  · rfl
  · rfl

theorem of_splitSign (text : List Char) :
    text = (splitSign text).1 ++ (splitSign text).2 ∧
      ((splitSign text).1 = [] ∨ (splitSign text).1 = ['+'] ∨ (splitSign text).1 = ['-']) := by
  unfold splitSign
  split <;> simp

theorem readExponent_append {exponent rest : List Char} (isExponent : Exponent exponent)
    (ends : Spares InNumeral rest) : readExponent (exponent ++ rest) = some (exponent, rest) := by
  cases isExponent with
  | none =>
    cases rest with
    | nil => rfl
    | cons c rest =>
      have other : ¬(c = 'e' || c = 'E') = true := by
        simp only [Bool.or_eq_true, decide_eq_true_eq]
        exact fun isMark => ends c rfl (Or.inr (Or.inr isMark))
      rw [List.nil_append, readExponent_cons, if_neg other]
  | @some mark sign digits isMark isSign places =>
    have noDigit : Spares (fun c => isDigit c) rest := fun c first digit =>
      ends c first (Or.inl digit)
    have noSign : Spares (fun c => c = '+' ∨ c = '-') (digits ++ rest) := by
      obtain ⟨first, others, rfl⟩ := List.exists_cons_of_ne_nil places.1
      rintro c isFirst (rfl | rfl)
      all_goals exact absurd (places.2 _ (List.mem_of_head? isFirst)) (by decide)
    have marked : (mark = 'e' || mark = 'E') = true := by simpa using isMark
    rw [List.append_assoc, List.cons_append, readExponent_cons, if_pos marked,
      splitSign_append isSign noSign, takeDigits_append places.2 noDigit]
    split
    · next same => exact absurd (Prod.mk.inj same).1 places.1
    · next same =>
      obtain ⟨rfl, rfl⟩ := Prod.mk.inj same
      rfl

def readUnsigned (negative : Bool) (text : List Char) : Option (Json × List Char) := do
  let (whole, rest) ← readWhole text
  let (fraction, rest) ← readFraction rest
  let (exponent, rest) ← readExponent rest
  some (makeNumber negative whole fraction exponent, rest)

theorem readNumber_minus (text : List Char) : readNumber ('-' :: text) = readUnsigned true text := rfl

theorem readNumber_of_spares {text : List Char} (noSign : Spares (· = '-') text) :
    readNumber text = readUnsigned false text := by
  unfold readNumber
  split
  · next same =>
    split at same
    · next text => exact absurd rfl (noSign '-' rfl)
    · obtain ⟨rfl, rfl⟩ := Prod.mk.inj same
      rfl

theorem readUnsigned_append {negative : Bool} {whole fraction exponent rest : List Char}
    (digits : IsDigits whole) (noLeadingZero : whole.head? = some '0' → whole = ['0'])
    (hasFraction : Fraction fraction) (hasExponent : Exponent exponent)
    (ends : Spares InNumeral rest) :
    readUnsigned negative (whole ++ fraction ++ exponent ++ rest) =
      some (makeNumber negative whole fraction exponent, rest) := by
  have behindFraction : Spares (fun c => isDigit c ∨ c = '.') (exponent ++ rest) := by
    cases hasExponent with
    | none => exact ends.mono fun c => Or.imp_right Or.inl
    | some isMark => rcases isMark with rfl | rfl <;> exact spares_cons (by decide)
  have behindWhole : Spares (fun c => isDigit c) (fraction ++ (exponent ++ rest)) := by
    cases hasFraction with
    | none => exact behindFraction.mono fun c => Or.inl
    | some => exact spares_cons (by decide)
  rw [List.append_assoc, List.append_assoc, readUnsigned,
    readWhole_append digits noLeadingZero behindWhole]
  simp only [Option.bind_eq_bind, Option.bind_some, readFraction_append hasFraction behindFraction,
    readExponent_append hasExponent ends]

theorem readNumber_append {numeral rest : List Char} {value : Json} (isNumeral : Numeral numeral value)
    (ends : Spares InNumeral rest) : readNumber (numeral ++ rest) = some (value, rest) := by
  obtain ⟨negative, digits, noLeadingZero, hasFraction, hasExponent⟩ := isNumeral
  have unsigned := @readUnsigned_append negative _ _ _ _ digits noLeadingZero hasFraction
    hasExponent ends
  cases negative with
  | true => exact (readNumber_minus _).trans unsigned
  | false =>
    refine (readNumber_of_spares ?_).trans unsigned
    obtain ⟨first, others, rfl⟩ := List.exists_cons_of_ne_nil digits.1
    refine spares_cons ?_
    rintro rfl
    exact absurd (digits.2 _ List.mem_cons_self) (by decide)

theorem of_readWhole {text whole rest : List Char} (read : readWhole text = some (whole, rest)) :
    text = whole ++ rest ∧ IsDigits whole ∧ (whole.head? = some '0' → whole = ['0']) := by
  unfold readWhole at read
  split at read
  · cases read
  · cases read
  · next found noDigits noMore =>
    obtain ⟨split, digits⟩ := of_takeDigits (Option.some.inj read)
    rw [Option.some.inj read] at noDigits noMore
    refine ⟨split, ⟨?_, digits⟩, fun zero => ?_⟩
    · rintro rfl
      exact noDigits _ rfl
    · obtain ⟨tail, rfl⟩ := List.head?_eq_some_iff.mp zero
      cases tail with
      | nil => rfl
      | cons second more => exact (noMore second more rest rfl).elim

theorem of_readFraction {text fraction rest : List Char}
    (read : readFraction text = some (fraction, rest)) :
    text = fraction ++ rest ∧ Fraction fraction := by
  unfold readFraction at read
  split at read
  · split at read
    · cases read
    · next digits more some taken =>
      obtain ⟨rfl, rfl⟩ := Prod.mk.inj (Option.some.inj read)
      obtain ⟨rfl, all⟩ := of_takeDigits taken
      exact ⟨rfl, .some ⟨some, all⟩⟩
  · obtain ⟨rfl, rfl⟩ := Prod.mk.inj (Option.some.inj read)
    exact ⟨rfl, .none⟩

theorem of_readExponent {text exponent rest : List Char}
    (read : readExponent text = some (exponent, rest)) :
    text = exponent ++ rest ∧ Exponent exponent := by
  cases text with
  | nil =>
    obtain ⟨rfl, rfl⟩ := Prod.mk.inj (Option.some.inj read)
    exact ⟨rfl, .none⟩
  | cons c text =>
    rw [readExponent_cons] at read
    split at read
    · next isMark =>
      obtain ⟨signed, isSign⟩ := of_splitSign text
      split at read
      · cases read
      · next digits more some taken =>
        obtain ⟨rfl, rfl⟩ := Prod.mk.inj (Option.some.inj read)
        obtain ⟨places, all⟩ := of_takeDigits taken
        rw [places, ← List.append_assoc] at signed
        exact ⟨congrArg (c :: ·) signed, .some (by simpa using isMark) isSign ⟨some, all⟩⟩
    · obtain ⟨rfl, rfl⟩ := Prod.mk.inj (Option.some.inj read)
      exact ⟨rfl, .none⟩

theorem of_readUnsigned {negative : Bool} {text rest : List Char} {value : Json}
    (read : readUnsigned negative text = some (value, rest)) :
    ∃ whole fraction exponent, text = whole ++ fraction ++ exponent ++ rest ∧
      Numeral ((if negative then ['-'] else []) ++ whole ++ fraction ++ exponent) value := by
  simp only [readUnsigned, Option.bind_eq_bind, Option.bind_eq_some_iff, Prod.exists,
    Option.some.injEq, Prod.mk.injEq] at read
  obtain ⟨whole, behind, wholeRead, fraction, more, fractionRead, exponent, rest, exponentRead,
    rfl, rfl⟩ := read
  obtain ⟨rfl, digits, noLeadingZero⟩ := of_readWhole wholeRead
  obtain ⟨rfl, hasFraction⟩ := of_readFraction fractionRead
  obtain ⟨rfl, hasExponent⟩ := of_readExponent exponentRead
  exact ⟨whole, fraction, exponent, by simp only [List.append_assoc],
    .intro negative digits noLeadingZero hasFraction hasExponent⟩

theorem of_readNumber {text rest : List Char} {value : Json}
    (read : readNumber text = some (value, rest)) :
    ∃ numeral, text = numeral ++ rest ∧ Numeral numeral value := by
  by_cases minus : ∃ unsigned, text = '-' :: unsigned
  · obtain ⟨unsigned, rfl⟩ := minus
    obtain ⟨whole, fraction, exponent, split, isNumeral⟩ :=
      of_readUnsigned ((readNumber_minus unsigned).symm.trans read)
    exact ⟨_, congrArg ('-' :: ·) split, isNumeral⟩
  · have noSign : Spares (· = '-') text := by
      rintro c first rfl
      obtain ⟨rest, same⟩ := List.head?_eq_some_iff.mp first
      exact minus ⟨rest, same⟩
    obtain ⟨whole, fraction, exponent, split, isNumeral⟩ :=
      of_readUnsigned (readNumber_of_spares noSign ▸ read)
    exact ⟨_, split, isNumeral⟩

end ModelHub.Json
