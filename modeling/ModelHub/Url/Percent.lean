import ModelHub.Text.Case

/-!
Percent encoding: a byte as a percent sign and two digits. Main statement: a text in which every
percent sign was encoded reads back.
-/

namespace ModelHub.Url

def utf8 (c : Char) : List UInt8 := String.utf8EncodeChar c

def hexDigit (n : Nat) : Char :=
  if n < 10 then Char.ofNat ('0'.toNat + n) else Char.ofNat ('A'.toNat + (n - 10))

def encodeByte (b : UInt8) : List Char := ['%', hexDigit (b.toNat / 16), hexDigit (b.toNat % 16)]

def encodeChar (kept : Char → Bool) (c : Char) : List Char :=
  if kept c then [c] else (utf8 c).flatMap encodeByte

def encode (kept : Char → Bool) (text : List Char) : List Char := text.flatMap (encodeChar kept)

def byteOf? (high low : Char) : Option UInt8 := do
  some (UInt8.ofNat (16 * (← Text.hexValue? high) + (← Text.hexValue? low)))

/-- The bytes of a text. A percent sign without two digits stands for itself. -/
def decode : List Char → List UInt8
  | [] => []
  | '%' :: high :: low :: rest =>
    match byteOf? high low with
    | some b => b :: decode rest
    | none => utf8 '%' ++ decode (high :: low :: rest)
  | c :: rest => utf8 c ++ decode rest

def isAlphanumeric (c : Char) : Bool := Text.isLetter c || Text.isDigit c

def isControl (c : Char) : Bool := c.toNat < 32 || 126 < c.toNat

/-- Kept in the name of one path segment that is written as data. -/
def isUnreserved (c : Char) : Bool := isAlphanumeric c || "-._~".contains c

/-- Kept in the value of a form field; a blank is a plus sign there. -/
def isFormText (c : Char) : Bool := isAlphanumeric c || "*-._".contains c

/-- Kept in the path of an address that was written by hand. -/
def isPathText (c : Char) : Bool := !isControl c && !" \"#<>?`\x7b\x7d".contains c

def isUserText (c : Char) : Bool := isPathText c && !"/:;=@[\\]^|".contains c

def isQueryText (isSpecial : Bool) (c : Char) : Bool :=
  !isControl c && !" \"#<>".contains c && !(isSpecial && c = '\'')

def isFragmentText (c : Char) : Bool := !isControl c && !" \"<>`".contains c

def encodeForm (text : List Char) : List Char :=
  text.flatMap fun c => if c = ' ' then ['+'] else encodeChar isFormText c

theorem hexValue?_hexDigit {n : Nat} (small : n < 16) : Text.hexValue? (hexDigit n) = some n := by
  have all : ∀ m ∈ List.range 16, Text.hexValue? (hexDigit m) = some m := by decide
  exact all n (List.mem_range.2 small)

@[simp] theorem decode_nil : decode [] = [] := by simp [decode]

theorem decode_encodeByte (b : UInt8) (rest : List Char) :
    decode (encodeByte b ++ rest) = b :: decode rest := by
  have size : b.toNat < 256 := b.toNat_lt
  have high : b.toNat / 16 < 16 := by omega
  have low : b.toNat % 16 < 16 := by omega
  have whole : byteOf? (hexDigit (b.toNat / 16)) (hexDigit (b.toNat % 16)) = some b := by
    simp only [byteOf?, hexValue?_hexDigit high, hexValue?_hexDigit low, Option.bind_eq_bind,
      Option.bind_some, Nat.div_add_mod, UInt8.ofNat_toNat]
  simp [encodeByte, decode, whole]

theorem decode_encodeBytes (bytes : List UInt8) (rest : List Char) :
    decode (bytes.flatMap encodeByte ++ rest) = bytes ++ decode rest := by
  induction bytes with
  | nil => simp
  | cons b bytes ih => simp [decode_encodeByte, ih]

theorem decode_cons {c : Char} (plain : c ≠ '%') (rest : List Char) :
    decode (c :: rest) = utf8 c ++ decode rest := by
  match rest with
  | [] => simp [decode]
  | [_] => simp [decode]
  | _ :: _ :: _ => rw [decode]; exact fun _ _ _ h => absurd h plain

theorem decode_encode {kept : Char → Bool} (encoded : kept '%' = false) (text : List Char) :
    decode (encode kept text) = text.flatMap utf8 := by
  induction text with
  | nil => simp [encode]
  | cons c text ih =>
    have ih : decode (text.flatMap (encodeChar kept)) = text.flatMap utf8 := ih
    simp only [encode, List.flatMap_cons, encodeChar]
    split
    · next keeps =>
      have plain : c ≠ '%' := fun h => by simp [h, encoded] at keeps
      rw [List.singleton_append, decode_cons plain, ih]
    · rw [decode_encodeBytes, ih]

end ModelHub.Url
