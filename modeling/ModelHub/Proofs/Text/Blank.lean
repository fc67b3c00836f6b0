import Mathlib.Data.List.TakeWhile
import ModelHub.Numeric.Shortest
import ModelHub.Text.Blank

namespace ModelHub

namespace Text

def Trimmed (text : List Char) : Prop :=
  (∀ c, text.head? = some c → isBlank c = false) ∧ ∀ c, text.getLast? = some c → isBlank c = false

def Solid (text : List Char) : Prop := ∀ c ∈ text, isBlank c = false

def Blank (text : List Char) : Prop := ∀ c ∈ text, isBlank c = true

def Pads (text word : List Char) : Prop :=
  ∃ left right, text = left ++ word ++ right ∧ Blank left ∧ Blank right

theorem head?_dropWhile_isBlank {text : List Char} {c : Char}
    (first : (text.dropWhile isBlank).head? = some c) : isBlank c = false := by
  have left := List.head?_dropWhile_not isBlank text
  rw [first] at left
  simpa using left

theorem trimmed_trim (text : List Char) : Trimmed (trim text) := by
  constructor
  · intro c first
    obtain ⟨blanks, split⟩ := List.dropWhile_suffix isBlank (l := (text.dropWhile isBlank).reverse)
    rw [trim, List.head?_reverse] at first
    -- What is cut off at the end leaves the first character where it was.
    have firstBefore : (text.dropWhile isBlank).head? = some c := by
      rw [← List.getLast?_reverse, ← split, List.getLast?_append, first]
      rfl
    exact head?_dropWhile_isBlank firstBefore
  · intro c last
    rw [trim, List.getLast?_reverse] at last
    exact head?_dropWhile_isBlank last

theorem blank_takeWhile (text : List Char) : Blank (text.takeWhile isBlank) :=
  fun _ member => List.mem_takeWhile_imp member

theorem Blank.reverse {text : List Char} (blank : Blank text) : Blank text.reverse :=
  fun c member => blank c (List.mem_reverse.mp member)

theorem pads_trim (text : List Char) : Pads text (trim text) := by
  refine ⟨text.takeWhile isBlank, ((text.dropWhile isBlank).reverse.takeWhile isBlank).reverse, ?_,
    blank_takeWhile text, (blank_takeWhile _).reverse⟩
  rw [trim, List.append_assoc, ← List.reverse_append, List.takeWhile_append_dropWhile,
    List.reverse_reverse, List.takeWhile_append_dropWhile]

theorem dropWhile_isBlank_append {blank rest : List Char} (isBlank : Blank blank)
    (stops : ∀ c, rest.head? = some c → Text.isBlank c = false) :
    (blank ++ rest).dropWhile Text.isBlank = rest := by
  rw [List.dropWhile_append_of_pos isBlank]
  cases rest with
  | nil => rfl
  | cons c rest => exact List.dropWhile_cons_of_neg (by simp [stops c rfl])

theorem trim_eq_iff {text word : List Char} (trimmed : Trimmed word) :
    trim text = word ↔ Pads text word := by
  constructor
  · rintro rfl
    exact pads_trim text
  · rintro ⟨left, right, rfl, blankLeft, blankRight⟩
    cases word with
    | nil =>
      have blank : Blank (left ++ [] ++ right) := by
        rw [List.append_nil]
        exact List.forall_mem_append.mpr ⟨blankLeft, blankRight⟩
      have nothing : (left ++ [] ++ right).dropWhile isBlank = [] :=
        List.dropWhile_eq_nil_iff.mpr blank
      rw [trim, nothing]
      rfl
    | cons c word =>
      have first : ∀ d, (c :: word ++ right).head? = some d → isBlank d = false := trimmed.1
      have last : ∀ d, (c :: word).reverse.head? = some d → isBlank d = false := by
        intro d isLast
        rw [List.head?_reverse] at isLast
        exact trimmed.2 d isLast
      rw [trim, List.append_assoc, dropWhile_isBlank_append blankLeft first, List.reverse_append,
        dropWhile_isBlank_append blankRight.reverse last, List.reverse_reverse]

namespace Solid

variable {text first second : List Char}

theorem trimmed (solid : Solid text) : Trimmed text :=
  ⟨fun c isFirst => solid c (List.mem_of_head? isFirst),
    fun c isLast => solid c (List.mem_of_getLast? isLast)⟩

theorem append (solid : Solid first) (solidToo : Solid second) : Solid (first ++ second) :=
  List.forall_mem_append.mpr ⟨solid, solidToo⟩

theorem of_subset (solid : Solid text) (subset : first ⊆ text) : Solid first :=
  fun c member => solid c (subset member)

end Solid

theorem isBlank_of_isDigit {c : Char} (isDigit : c.isDigit = true) : isBlank c = false := by
  have bounds : 48 ≤ c.toNat ∧ c.toNat ≤ 57 := by
    simpa [Char.isDigit, UInt32.le_iff_toNat_le] using isDigit
  simp only [isBlank, Bool.or_eq_false_iff, Bool.and_eq_false_iff, decide_eq_false_iff_not]
  omega

theorem solid_toString_nat (n : Nat) : Solid (toString n).toList := by
  intro c member
  rw [Nat.toString_eq_ofList_toDigits, String.toList_ofList] at member
  exact isBlank_of_isDigit (Nat.isDigit_of_mem_toDigits (by decide) (by decide) member)

theorem solid_toString_int (n : Int) : Solid (toString n).toList := by
  cases n with
  | ofNat n => exact solid_toString_nat n
  | negSucc n =>
    have minus : Solid "-".toList := by simp [Solid, isBlank]
    have printed : (toString (Int.negSucc n)).toList = "-".toList ++ (toString (n + 1)).toList := by
      rw [← String.toList_append]
      rfl
    rw [printed]
    exact minus.append (solid_toString_nat (n + 1))

end Text

namespace Double

open Text (Solid solid_toString_nat solid_toString_int)

theorem solid_zeros (count : Int) : Solid (zeros count).toList := by
  intro c member
  rw [zeros, String.toList_ofList] at member
  rw [List.eq_of_mem_replicate member]
  rfl

theorem solid_magnitudeText (x : Double) : Solid x.magnitudeText.toList := by
  unfold magnitudeText
  split
  · simp [Solid, Text.isBlank]
  · obtain ⟨digits, power⟩ := x.shortest
    have all := solid_toString_nat digits
    have front : ∀ count, Solid ((toString digits).toList.take count) :=
      fun count => all.of_subset (List.take_subset count _)
    have rest : ∀ count, Solid ((toString digits).toList.drop count) :=
      fun count => all.of_subset (List.drop_subset count _)
    have point : Solid ".".toList := by simp [Solid, Text.isBlank]
    dsimp only
    split
    · rw [String.toList_append, String.toList_append]
      refine (all.append (solid_zeros power)).append ?_
      simp [Solid, Text.isBlank]
    · split
      · simp only [String.toList_append, String.toList_ofList]
        exact ((front _).append point).append (rest _)
      · split
        · rw [String.toList_append, String.toList_append]
          refine Solid.append (Solid.append ?_ (solid_zeros _)) all
          simp [Solid, Text.isBlank]
        · simp only [String.toList_append, String.toList_ofList]
          have letter : Solid "e".toList := by simp [Solid, Text.isBlank]
          have fraction : ∀ digits : List Char, Solid digits →
              Solid (if digits.isEmpty then "" else "." ++ String.ofList digits).toList := by
            intro digits solid
            split
            · exact fun c member => nomatch member
            · rw [String.toList_append]
              exact point.append (String.toList_ofList ▸ solid)
          exact (((front 1).append (fraction _ (rest 1))).append letter).append
            (solid_toString_int _)

theorem solid_text (x : Double) : Solid x.text.toList := by
  rw [text, String.toList_append]
  refine Solid.append ?_ x.solid_magnitudeText
  split <;> simp [Solid, Text.isBlank]

end Double

end ModelHub
