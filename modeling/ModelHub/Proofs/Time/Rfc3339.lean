import Mathlib.Data.List.TakeWhile
import Mathlib.Tactic.Ring
import ModelHub.Proofs.Time.Calendar
import ModelHub.Time.Rfc3339

/-! Written times read back. A written instant is read again as the same instant, except that the
reader takes no year of more than four digits, and none with a sign. -/

namespace ModelHub

variable {instant : Instant}

namespace Instant

/-- A leap second is the sixty-first of a minute. -/
structure Regular (instant : Instant) : Prop where
  nanos : instant.nanos < 2000000000
  leapSecond : 1000000000 ≤ instant.nanos → instant.seconds % 60 = 59

def InFourDigits (instant : Instant) : Prop :=
  0 ≤ instant.date.year ∧ instant.date.year ≤ 9999

instance (instant : Instant) : Decidable instant.InFourDigits :=
  inferInstanceAs (Decidable (_ ∧ _))

theorem clock_range (regular : instant.Regular) :
    instant.clock.hour ≤ 23 ∧ instant.clock.minute ≤ 59 ∧ instant.clock.second ≤ 60 ∧
      instant.clock.nanos < 1000000000 := by
  obtain ⟨nanos, leapSecond⟩ := regular
  simp only [clock]
  omega

theorem ofLocal_date_clock (regular : instant.Regular) :
    ofLocal instant.date instant.clock 0 = instant := by
  have day : instant.date.toDays = instant.seconds / 86400 := Calendar.Date.toDays_ofDays _
  obtain ⟨seconds, nanoseconds⟩ := instant
  obtain ⟨nanos, leapSecond⟩ := regular
  dsimp only at nanos leapSecond
  simp only [ofLocal, day]
  simp only [clock]
  by_cases leap : (seconds % 86400).toNat % 60 + nanoseconds / 1000000000 = 60
  · simp only [leap, if_true]
    congr 1
    · omega
    · omega
  · simp only [leap, if_false]
    congr 1
    · omega
    · omega

end Instant

namespace Rfc3339

open Text (isDigit digitValue)

theorem valueOf_eq (digits : List Char) : valueOf digits = Nat.ofDigitChars 10 digits 0 := by
  rw [Nat.ofDigitChars_eq_foldl]
  unfold valueOf digitValue
  congr 1
  funext n c
  rw [Nat.mul_comm]

theorem valueOf_lt {digits : List Char} (areDigits : ∀ c ∈ digits, isDigit c = true) :
    valueOf digits < 10 ^ digits.length := by
  rw [valueOf_eq]
  induction digits with
  | nil => decide
  | cons c rest ih =>
    have later := ih fun d member => areDigits d (List.mem_cons_of_mem c member)
    have first : c.toNat - '0'.toNat ≤ 9 := by
      have isDigit := areDigits c List.mem_cons_self
      simp only [Text.isDigit, Bool.and_eq_true, decide_eq_true_eq] at isDigit
      have nine : '9'.toNat = '0'.toNat + 9 := rfl
      omega
    have scaled := Nat.mul_le_mul_left (10 ^ rest.length) first
    rw [Nat.ofDigitChars_cons, Nat.mul_zero, Nat.zero_add, Nat.ofDigitChars_eq_ofDigitChars_zero,
      List.length_cons, pow_succ]
    omega

theorem toList_toString (n : Nat) : (toString n).toList = Nat.toDigits 10 n := by
  rw [Nat.toString_eq_ofList_toDigits, String.toList_ofList]

theorem valueOf_padded (width n : Nat) : valueOf (padded width n) = n := by
  unfold padded Duration.padLeft
  rw [valueOf_eq, toList_toString, Nat.ofDigitChars_append, Nat.ofDigitChars_replicate_zero,
    Nat.mul_zero, Nat.ofDigitChars_ten_toDigits]

theorem isDigit_of_mem_padded {width n : Nat} {c : Char} (member : c ∈ padded width n) :
    isDigit c = true := by
  unfold padded Duration.padLeft at member
  rcases List.mem_append.mp member with zero | digit
  · rw [List.eq_of_mem_replicate zero]
    rfl
  · rw [toList_toString] at digit
    have isDigit := Nat.isDigit_of_mem_toDigits (by decide) (by decide) digit
    exact isDigit

theorem length_padded {width n : Nat} (positive : 0 < width) (fits : n < 10 ^ width) :
    (padded width n).length = width := by
  have short := (Nat.length_toDigits_le_iff (by decide) positive).mpr fits
  unfold padded Duration.padLeft
  rw [List.length_append, List.length_replicate, toList_toString]
  omega

theorem takeWhile_padded (width n : Nat) (rest : List Char) :
    (padded width n ++ rest).takeWhile isDigit = padded width n ++ rest.takeWhile isDigit :=
  List.takeWhile_append_of_pos fun _ member => isDigit_of_mem_padded member

theorem number_padded (width : Nat) {n : Nat} (positive : 0 < width) (fits : n < 10 ^ width)
    (rest : List Char) : number width width (padded width n ++ rest) = some (n, rest) := by
  have length := length_padded positive fits
  have digits : ((padded width n ++ rest).take width).takeWhile isDigit = padded width n := by
    rw [List.take_left' length]
    exact List.takeWhile_eq_self_iff.mpr fun c member => isDigit_of_mem_padded member
  simp only [number, digits, length, valueOf_padded, List.drop_left' length, Nat.lt_irrefl,
    if_false]

theorem exactly_cons (c : Char) (rest : List Char) : exactly c (c :: rest) = some ((), rest) := by
  simp [exactly]

theorem fraction_padded {width n : Nat} (positive : 0 < width) (short : width ≤ 9)
    (fits : n < 10 ^ width) {rest : List Char} (ends : rest.takeWhile isDigit = []) :
    fraction ('.' :: (padded width n ++ rest)) = some (n * 10 ^ (9 - width), rest) := by
  have length := length_padded positive fits
  have noMore : (rest.take (9 - width)).takeWhile isDigit = [] := by
    cases rest with
    | nil => simp
    | cons c later =>
      cases isDigit : isDigit c with
      | true => simp [isDigit] at ends
      | false =>
        cases 9 - width with
        | zero => rfl
        | succ more => simp [isDigit]
  have digits : ((padded width n ++ rest).take 9).takeWhile isDigit = padded width n := by
    rw [List.take_append, length, List.take_of_length_le (by omega), takeWhile_padded, noMore,
      List.append_nil]
  have nonempty : (padded width n).isEmpty = false := by
    rw [List.isEmpty_eq_false_iff, ← List.length_pos_iff, length]
    exact positive
  have kept : rest.dropWhile isDigit = rest := by
    have whole := List.takeWhile_append_dropWhile (p := isDigit) (l := rest)
    rwa [ends, List.nil_append] at whole
  simp only [fraction, digits, nonempty, length, valueOf_padded, List.drop_left' length, kept]
  rfl

theorem fraction_fractionText {nanos : Nat} (small : nanos < 1000000000) {c : Char}
    {rest : List Char} (noDot : c ≠ '.') (noDigit : isDigit c = false) :
    fraction (fractionText nanos ++ c :: rest) = some (nanos, c :: rest) := by
  have ends : (c :: rest).takeWhile isDigit = [] := by simp [noDigit]
  unfold fractionText
  split
  · next zero =>
    rw [List.nil_append, zero]
    unfold fraction
    split
    · next same => exact absurd (List.cons.inj same).1 noDot
    · rfl
  · split
    · next millis =>
      rw [List.cons_append, fraction_padded (by decide) (by decide) (by omega) ends]
      have whole : nanos / 1000000 * 10 ^ (9 - 3) = nanos := by omega
      rw [whole]
    · split
      · next micros =>
        rw [List.cons_append, fraction_padded (by decide) (by decide) (by omega) ends]
        have whole : nanos / 1000 * 10 ^ (9 - 6) = nanos := by omega
        rw [whole]
      · rw [List.cons_append, fraction_padded (by decide) (by decide) (by omega) ends]
        simp

theorem fraction_lt {text rest : List Char} {nanos : Nat} (read : fraction text = some (nanos, rest)) :
    nanos < 1000000000 := by
  unfold fraction at read
  split at read
  · next digitsText =>
    dsimp only at read
    split at read
    · cases read
    · obtain ⟨rfl, -⟩ := Prod.mk.inj (Option.some.inj read)
      let digits := (digitsText.take 9).takeWhile isDigit
      have areDigits : ∀ c ∈ digits, isDigit c = true := fun c member =>
        List.mem_takeWhile_imp member
      have short : digits.length ≤ 9 := by
        have taken := List.takeWhile_prefix (l := digitsText.take 9) isDigit |>.length_le
        have bound := List.length_take_le 9 digitsText
        exact taken.trans bound
      have value := valueOf_lt areDigits
      have positive : 0 < 10 ^ (9 - digits.length) := by positivity
      calc valueOf digits * 10 ^ (9 - digits.length)
          < 10 ^ digits.length * 10 ^ (9 - digits.length) := Nat.mul_lt_mul_of_pos_right value positive
        _ = 10 ^ 9 := by rw [← pow_add, Nat.add_sub_cancel' short]
  · obtain ⟨rfl, -⟩ := Prod.mk.inj (Option.some.inj read)
    decide

theorem offset_whole_minutes {text rest : List Char} {offset : Int}
    (read : strictOffset text = some (offset, rest)) : (60 : Int) ∣ offset := by
  unfold strictOffset at read
  split at read
  · obtain ⟨rfl, -⟩ := Prod.mk.inj (Option.some.inj read)
    exact Int.dvd_zero 60
  · obtain ⟨rfl, -⟩ := Prod.mk.inj (Option.some.inj read)
    exact Int.dvd_zero 60
  · simp only [Option.bind_eq_bind, Option.bind_eq_some_iff, Prod.exists, Option.some.injEq,
      Prod.mk.injEq] at read
    obtain ⟨direction, -, -, -, -, -, -, -, -, -, -, -, minutes, -, hours, -, rfl, -⟩ := read
    refine ⟨direction * (hours * 60 + minutes), ?_⟩
    unfold secondsOf
    push_cast
    ring

theorem clock_nanos_lt {text rest : List Char} {clock : Instant.Clock}
    (read : strictClock text = some (clock, rest)) : clock.nanos < 1000000000 := by
  simp only [strictClock, makeClock, Option.bind_eq_bind, Option.bind_eq_some_iff, Prod.exists,
    Option.some.injEq, Prod.mk.injEq] at read
  obtain ⟨_, _, -, _, _, -, _, _, -, _, _, -, _, _, -, _, _, isFraction, _, made, rfl, -⟩ := read
  obtain ⟨_, -, _, -, _, -, rfl⟩ := made
  exact fraction_lt isFraction

theorem regular_ofLocal (date : Calendar.Date) {clock : Instant.Clock} {offset : Int}
    (nanos : clock.nanos < 1000000000) (minutes : (60 : Int) ∣ offset) :
    (Instant.ofLocal date clock offset).Regular := by
  unfold Instant.ofLocal
  by_cases leap : clock.second = 60
  · refine ⟨?_, fun _ => ?_⟩
    · simp only [leap, if_true]
      omega
    · simp only [leap, if_true]
      omega
  · refine ⟨?_, fun large => ?_⟩
    · simp only [leap, if_false]
      omega
    · simp only [leap, if_false] at large
      omega

theorem regular_of_parse {text : String} {instant : Instant} (read : parse? text = some instant) :
    instant.Regular := by
  simp only [parse?, Option.bind_eq_bind, Option.bind_eq_some_iff, Prod.exists] at read
  obtain ⟨date, _, -, _, _, -, clock, _, isClock, offset, rest, isOffset, made⟩ := read
  split at made
  · obtain rfl := Option.some.inj made
    exact regular_ofLocal date (clock_nanos_lt isClock) (offset_whole_minutes isOffset)
  · cases made

theorem strictDate_padded {year month day : Nat} (yearFits : year < 10000) (monthFits : month < 100)
    (dayFits : day < 100) (rest : List Char) :
    strictDate (padded 4 year ++ '-' :: (padded 2 month ++ '-' :: (padded 2 day ++ rest))) =
      some (⟨year, month, day⟩, rest) := by
  simp only [strictDate, number_padded 4 (by decide) yearFits,
    number_padded 2 (by decide) monthFits, number_padded 2 (by decide) dayFits,
    exactly_cons, Option.bind_eq_bind, Option.bind_some]

theorem strictClock_padded {hour minute second nanos : Nat} (hourFits : hour ≤ 23)
    (minuteFits : minute ≤ 59) (secondFits : second ≤ 60) (nanosFit : nanos < 1000000000) {c : Char}
    {rest : List Char} (noDot : c ≠ '.') (noDigit : isDigit c = false) :
    strictClock (padded 2 hour ++ ':' :: (padded 2 minute ++ ':' :: (padded 2 second ++
        (fractionText nanos ++ c :: rest)))) = some (⟨hour, minute, second, nanos⟩, c :: rest) := by
  simp only [strictClock, number_padded 2 (by decide) (show hour < 100 by omega),
    number_padded 2 (by decide) (show minute < 100 by omega),
    number_padded 2 (by decide) (show second < 100 by omega), exactly_cons,
    fraction_fractionText nanosFit noDot noDigit, makeClock, inRange, Nat.zero_le, hourFits,
    minuteFits, secondFits, true_and, if_true, Option.bind_eq_bind, Option.bind_some]

theorem separator_time (rest : List Char) : separator ('T' :: rest) = some ((), rest) := rfl

theorem offset_none : strictOffset ('+' :: ['0', '0', ':', '0', '0']) = some (0, []) := by decide

theorem render_toList (years : instant.InFourDigits) :
    (render instant).toList = padded 4 instant.date.year.toNat ++ '-' ::
      (padded 2 instant.date.month ++ '-' :: (padded 2 instant.date.day ++ 'T' ::
        (padded 2 instant.clock.hour ++ ':' :: (padded 2 instant.clock.minute ++ ':' ::
          (padded 2 instant.clock.second ++ (fractionText instant.clock.nanos ++
            '+' :: ['0', '0', ':', '0', '0'])))))) := by
  have isYear : yearText instant.date.year = padded 4 instant.date.year.toNat := if_pos years
  have zone : "+00:00".toList = ['+', '0', '0', ':', '0', '0'] := rfl
  unfold render localText
  simp only [String.toList_ofList, isYear, zone, List.append_assoc, List.cons_append]

theorem parse?_render_of_inFourDigits (regular : instant.Regular) (years : instant.InFourDigits) :
    parse? (render instant) = some instant := by
  obtain ⟨hour, minute, second, nanos⟩ := Instant.clock_range regular
  have valid : instant.date.isValid = true := Calendar.Date.ofDays_isValid _
  have ranges := valid
  simp only [Calendar.Date.isValid, Bool.and_eq_true, decide_eq_true_eq] at ranges
  have isDate : (⟨instant.date.year.toNat, instant.date.month, instant.date.day⟩ : Calendar.Date) =
      instant.date := by
    have year : ((instant.date.year.toNat : Nat) : Int) = instant.date.year :=
      Int.toNat_of_nonneg years.1
    rw [year]
  have yearFits : instant.date.year.toNat < 10000 := by
    have := years.2
    omega
  have monthFits : instant.date.month < 100 := by omega
  have dayFits : instant.date.day < 100 := by
    have length := Calendar.monthLength_le instant.date.year instant.date.month
    omega
  have noDot : '+' ≠ '.' := by decide
  have noDigit : isDigit '+' = false := by decide
  simp only [parse?, render_toList years, strictDate_padded yearFits monthFits dayFits,
    separator_time, strictClock_padded hour minute second nanos noDot noDigit, offset_none, isDate,
    valid, Option.bind_eq_bind, Option.bind_some, List.isEmpty_nil, Bool.and_true, if_true,
    Instant.ofLocal_date_clock regular]

theorem parse?_render_of_signed (years : ¬instant.InFourDigits) : parse? (render instant) = none := by
  have signed : ∃ c rest, (render instant).toList = c :: rest ∧ isDigit c = false := by
    have isYear : yearText instant.date.year =
        (if instant.date.year < 0 then '-' else '+') :: padded 4 instant.date.year.natAbs :=
      if_neg years
    unfold render localText
    simp only [String.toList_ofList, isYear, List.cons_append]
    refine ⟨_, _, rfl, ?_⟩
    split <;> rfl
  obtain ⟨c, rest, same, noDigit⟩ := signed
  have noYear : number 4 4 (c :: rest) = none := by
    simp [number, noDigit]
  simp only [parse?, same, strictDate, noYear, Option.bind_eq_bind, Option.bind_none]

theorem parse?_render (regular : instant.Regular) :
    parse? (render instant) = if instant.InFourDigits then some instant else none := by
  split
  · next years => exact parse?_render_of_inFourDigits regular years
  · next years => exact parse?_render_of_signed years

end Rfc3339

end ModelHub
