import ModelHub.Proofs.Text.Case
import ModelHub.Url.Host

namespace ModelHub.Url

def dots : List (List Char) := [['.'], ['%', '2', 'e'], ['%', '2', 'E']]

theorem utf8_append_inj {c d : Char} {first second : List UInt8}
    (same : utf8 c ++ first = utf8 d ++ second) : c = d ∧ first = second := by
  have leads : ∀ (letter : Char) (rest : List UInt8),
      (utf8 letter ++ rest).toByteArray.utf8DecodeChar? 0 = some letter := by
    intro letter rest
    rw [List.toByteArray_append]
    exact ByteArray.utf8DecodeChar?_utf8EncodeChar_append
  have letters : c = d := by
    have lead := leads c first
    rw [same, leads d second] at lead
    exact (Option.some.inj lead).symm
  subst letters
  exact ⟨rfl, List.append_cancel_left same⟩

theorem decodeText?_eq_some_iff {encoded text : List Char} :
    Host.decodeText? encoded = some text ↔ decode encoded = text.flatMap utf8 := by
  unfold Host.decodeText? String.fromUTF8?
  constructor
  · intro read
    split at read
    · next valid =>
      obtain rfl := Option.some.inj read
      obtain ⟨letters, bytes⟩ := id valid
      have found : String.fromUTF8 (decode encoded).toByteArray valid = String.ofList letters :=
        String.toByteArray_inj.mp bytes
      rw [found, String.toList_ofList]
      exact List.toByteArray_inj.mp bytes
    · cases read
  · intro bytes
    have valid : (decode encoded).toByteArray.IsValidUTF8 :=
      ⟨text, congrArg List.toByteArray bytes⟩
    have found : String.fromUTF8 (decode encoded).toByteArray valid = String.ofList text :=
      String.toByteArray_inj.mp (congrArg List.toByteArray bytes)
    rw [dif_pos valid, found, Option.map_some, String.toList_ofList]

theorem decodeText?_encode {kept : Char → Bool} (encoded : kept '%' = false) (text : List Char) :
    Host.decodeText? (encode kept text) = some text :=
  decodeText?_eq_some_iff.mpr (decode_encode encoded text)

theorem of_hexValue? {c : Char} {n : Nat} (read : Text.hexValue? c = some n) :
    n < 10 ∧ c.toNat = 48 + n ∨ 10 ≤ n ∧ n < 16 ∧ (c.toNat = 87 + n ∨ c.toNat = 55 + n) := by
  have codes : '0'.toNat = 48 ∧ '9'.toNat = 57 ∧ 'a'.toNat = 97 ∧ 'f'.toNat = 102 ∧
      'A'.toNat = 65 ∧ 'F'.toNat = 70 := by decide
  simp only [Text.hexValue?, Text.isDigit, Text.digitValue, Bool.and_eq_true,
    decide_eq_true_eq] at read
  split at read
  · have value := Option.some.inj read
    omega
  · split at read
    · have value := Option.some.inj read
      omega
    · split at read
      · have value := Option.some.inj read
        omega
      · cases read

theorem of_byteOf?_dot {high low : Char} (read : byteOf? high low = some 46) :
    high = '2' ∧ (low = 'e' ∨ low = 'E') := by
  simp only [byteOf?, Option.bind_eq_bind, Option.bind_eq_some_iff, Option.some.injEq] at read
  obtain ⟨h, highRead, l, lowRead, byte⟩ := read
  have value : (16 * h + l) % 256 = 46 := by
    rw [← UInt8.toNat_ofNat', byte]
    rfl
  have highCode := of_hexValue? highRead
  have lowCode := of_hexValue? lowRead
  have twoFourteen : h = 2 ∧ l = 14 := by omega
  obtain ⟨rfl, rfl⟩ := twoFourteen
  refine ⟨Char.toNat_inj.mp ?_, ?_⟩
  · have code : '2'.toNat = 50 := rfl
    omega
  · have codes : 'e'.toNat = 101 ∧ 'E'.toNat = 69 := by decide
    simp only [← Char.toNat_inj]
    omega

theorem decode_eq_dot_cons {text : List Char} {bytes : List UInt8}
    (read : decode text = 46 :: bytes) :
    ∃ dot ∈ dots, ∃ rest, text = dot ++ rest ∧ decode rest = bytes := by
  have letterDot : ∀ {c : Char} {rest : List Char}, utf8 c ++ decode rest = 46 :: bytes →
      c = '.' ∧ decode rest = bytes := fun same => utf8_append_inj (d := '.') same
  fun_cases decode text with
  | case1 => rw [decode_nil] at read; cases read
  | case2 high low rest b byte =>
    simp only [decode, byte] at read
    obtain ⟨rfl, rfl⟩ := List.cons.inj read
    obtain ⟨rfl, rfl | rfl⟩ := of_byteOf?_dot byte
    · exact ⟨['%', '2', 'e'], by simp [dots], rest, rfl, rfl⟩
    · exact ⟨['%', '2', 'E'], by simp [dots], rest, rfl, rfl⟩
  | case3 high low rest byte =>
    simp only [decode, byte] at read
    exact absurd (letterDot read).1 (by decide)
  | case4 c rest plain =>
    rw [decode] at read
    · obtain ⟨rfl, behind⟩ := letterDot read
      exact ⟨['.'], by simp [dots], rest, rfl, behind⟩
    · exact plain

theorem isAlphanumeric_hexDigit {n : Nat} (small : n < 16) : isAlphanumeric (hexDigit n) := by
  have all : ∀ m ∈ List.range 16, isAlphanumeric (hexDigit m) := by decide
  exact all n (List.mem_range.mpr small)

theorem mem_encodeChar {kept : Char → Bool} {c d : Char} (member : d ∈ encodeChar kept c) :
    kept c ∧ d = c ∨ d = '%' ∨ isAlphanumeric d := by
  rw [encodeChar] at member
  split at member
  · next keeps => exact Or.inl ⟨keeps, List.mem_singleton.mp member⟩
  · obtain ⟨b, -, isDigit⟩ := List.mem_flatMap.mp member
    have size : b.toNat < 256 := b.toNat_lt
    simp only [encodeByte, List.mem_cons, List.not_mem_nil, or_false] at isDigit
    rcases isDigit with rfl | rfl | rfl
    · exact Or.inr (Or.inl rfl)
    · exact Or.inr (Or.inr (isAlphanumeric_hexDigit (by omega)))
    · exact Or.inr (Or.inr (isAlphanumeric_hexDigit (by omega)))

theorem mem_encode {kept : Char → Bool} {text : List Char} {d : Char}
    (member : d ∈ encode kept text) : kept d ∧ d ∈ text ∨ d = '%' ∨ isAlphanumeric d := by
  obtain ⟨c, inText, inChar⟩ := List.mem_flatMap.mp member
  rcases mem_encodeChar inChar with ⟨keeps, rfl⟩ | marked
  · exact Or.inl ⟨keeps, inText⟩
  · exact Or.inr marked

theorem toNat_of_isAlphanumeric {c : Char} (isLetter : isAlphanumeric c) : c.toNat < 128 := by
  have codes : '9'.toNat = 57 ∧ 'z'.toNat = 122 ∧ 'Z'.toNat = 90 := by decide
  simp only [isAlphanumeric, Text.isLetter, Text.isDigit, Bool.or_eq_true, Bool.and_eq_true,
    decide_eq_true_eq] at isLetter
  omega

/-- In a form that evaluates. -/
theorem contains_eq (text : String) (c : Char) : text.contains c = text.toList.contains c := by
  rw [String.contains_char_eq, List.contains_eq_mem]

theorem isUnreserved_eq : isUnreserved = fun c => isAlphanumeric c || "-._~".toList.contains c :=
  funext fun c => by rw [isUnreserved, contains_eq]

theorem isUnreserved_iff {c : Char} :
    isUnreserved c ↔ isAlphanumeric c ∨ c ∈ ['-', '.', '_', '~'] := by
  simp [isUnreserved, String.contains_char_eq]

theorem isPathText_iff {c : Char} : isPathText c ↔
    ¬isControl c ∧ c ∉ [' ', '"', '#', '<', '>', '?', Char.ofNat 96, '\x7b', '\x7d'] := by
  simp [isPathText, String.contains_char_eq]

/-- What is kept in a segment is kept in a path, and divides neither of them. -/
theorem isPathText_of_isUnreserved {c : Char} (kept : isUnreserved c) :
    isPathText c ∧ c ≠ '/' ∧ c ≠ '\\' := by
  have isBasic : c.toNat < 128 := by
    rcases isUnreserved_iff.mp kept with isLetter | isMark
    · exact toNat_of_isAlphanumeric isLetter
    · simp only [List.mem_cons, List.not_mem_nil, or_false] at isMark
      rcases isMark with rfl | rfl | rfl | rfl <;> decide
  have all : ∀ n ∈ List.range 128,
      (isAlphanumeric (Char.ofNat n) ∨ Char.ofNat n ∈ ['-', '.', '_', '~']) →
      (¬isControl (Char.ofNat n) ∧
        Char.ofNat n ∉ [' ', '"', '#', '<', '>', '?', Char.ofNat 96, '\x7b', '\x7d']) ∧
      Char.ofNat n ≠ '/' ∧ Char.ofNat n ≠ '\\' := by decide +kernel
  have here := all c.toNat (List.mem_range.mpr isBasic)
  rw [Char.ofNat_toNat] at here
  rw [isPathText_iff]
  exact here (isUnreserved_iff.mp kept)

theorem isFormText_iff {c : Char} :
    isFormText c ↔ isAlphanumeric c ∨ c ∈ ['*', '-', '.', '_'] := by
  simp [isFormText, String.contains_char_eq]

theorem mem_encodeForm {text : List Char} {c : Char} (member : c ∈ encodeForm text) :
    isFormText c ∨ c ∈ ['+', '%'] := by
  obtain ⟨d, -, inChar⟩ := List.mem_flatMap.mp member
  split at inChar
  · rw [List.mem_singleton.mp inChar]
    exact Or.inr (by decide)
  · rcases mem_encodeChar inChar with ⟨kept, rfl⟩ | rfl | isLetter
    · exact Or.inl kept
    · exact Or.inr (by decide)
    · exact Or.inl (isFormText_iff.mpr (Or.inl isLetter))

/-- Once plus signs are blanks again, a form field is percent-encoded text. -/
theorem map_encodeForm (text : List Char) :
    ((encodeForm text).map fun c => if c = '+' then ' ' else c) =
      encode (fun c => c = ' ' || isFormText c) text := by
  rw [encodeForm, encode, List.map_flatMap]
  refine congrArg (List.flatMap · text) (funext fun c => ?_)
  split
  · next blank => simp [encodeChar, blank]
  · next other =>
    have same : encodeChar isFormText c = encodeChar (fun c => c = ' ' || isFormText c) c := by
      simp [encodeChar, other]
    rw [← same]
    refine (List.map_congr_left fun d member => if_neg ?_).trans (List.map_id _)
    rintro rfl
    rcases mem_encodeChar member with ⟨kept, rfl⟩ | isPercent | isLetter
    · exact absurd (isFormText_iff.mp kept) (by decide)
    · exact absurd isPercent (by decide)
    · exact absurd isLetter (by decide)

theorem encode_append (kept : Char → Bool) (first second : List Char) :
    encode kept (first ++ second) = encode kept first ++ encode kept second :=
  List.flatMap_append

theorem encode_of_kept {kept : Char → Bool} {text : List Char} (keeps : ∀ c ∈ text, kept c) :
    encode kept text = text := by
  induction text with
  | nil => rfl
  | cons c text ih =>
    have ih := ih fun d member => keeps d (List.mem_cons_of_mem _ member)
    rw [encode, List.flatMap_cons, encodeChar, if_pos (keeps c List.mem_cons_self)]
    exact congrArg (c :: ·) ih

end ModelHub.Url
