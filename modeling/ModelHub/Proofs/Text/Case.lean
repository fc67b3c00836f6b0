import Mathlib.Data.List.Forall2
import ModelHub.Text.Case

namespace ModelHub.Text

def IsCapitalOf (capital small : Char) : Prop :=
  'A'.toNat ≤ capital.toNat ∧ capital.toNat ≤ 'Z'.toNat ∧ small.toNat = capital.toNat + 32

def SameLetter (a b : Char) : Prop := a = b ∨ IsCapitalOf a b ∨ IsCapitalOf b a

theorem toNat_lowerAscii (c : Char) :
    (lowerAscii c).toNat = if 'A'.toNat ≤ c.toNat ∧ c.toNat ≤ 'Z'.toNat then c.toNat + 32
      else c.toNat := by
  unfold lowerAscii
  split
  · next isCapital =>
    have isValid : (c.toNat + 32).isValidChar := by
      have bound : c.toNat ≤ 90 := isCapital.2
      exact Or.inl (by omega)
    rw [Char.ofNat, dif_pos isValid]
    rfl
  · rfl

theorem lowerAscii_eq_iff {a b : Char} : lowerAscii a = lowerAscii b ↔ SameLetter a b := by
  have toNat_inj : ∀ c d : Char, c = d ↔ c.toNat = d.toNat := fun c d => Char.toNat_inj.symm
  have capitals : 'A'.toNat = 65 ∧ 'Z'.toNat = 90 := ⟨rfl, rfl⟩
  simp only [SameLetter, IsCapitalOf, toNat_inj, toNat_lowerAscii, capitals.1, capitals.2]
  split <;> split <;> omega

theorem lowerAscii_eq_mark_iff {c mark : Char} (noLetter : isLetter mark = false) :
    lowerAscii c = mark ↔ c = mark := by
  have bounds : ¬(97 ≤ mark.toNat ∧ mark.toNat ≤ 122) ∧ ¬(65 ≤ mark.toNat ∧ mark.toNat ≤ 90) := by
    simpa [isLetter] using noLetter
  have capitals : 'A'.toNat = 65 ∧ 'Z'.toNat = 90 := ⟨rfl, rfl⟩
  rw [← Char.toNat_inj, ← Char.toNat_inj, toNat_lowerAscii, capitals.1, capitals.2]
  split <;> omega

theorem mem_map_lowerAscii_iff {mark : Char} {text : List Char} (noLetter : isLetter mark = false) :
    mark ∈ text.map lowerAscii ↔ mark ∈ text := by
  simp only [List.mem_map, lowerAscii_eq_mark_iff noLetter, exists_eq_right]

theorem map_lowerAscii_eq_iff {left right : List Char} :
    left.map lowerAscii = right.map lowerAscii ↔ left.Forall₂ SameLetter right := by
  rw [← List.forall₂_eq_eq_eq, List.forall₂_map_left_iff, List.forall₂_map_right_iff]
  simp only [lowerAscii_eq_iff]

theorem fold_eq_iff {a b : String} : fold a = fold b ↔ a.toList.Forall₂ SameLetter b.toList := by
  rw [← map_lowerAscii_eq_iff]
  exact String.ofList_inj

end ModelHub.Text
