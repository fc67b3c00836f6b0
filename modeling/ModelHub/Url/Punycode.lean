import ModelHub.Text.Split

/-!
The written form of a host label in letters, digits and hyphens alone.

The basic characters come first, in order. What follows tells, for the others in the order of their
code points, how many places to go on from the one before, as numbers of base 36 whose digits have
thresholds that adapt to the size of the numbers so far.
-/

namespace ModelHub.Url.Punycode

def digitChar (d : Nat) : Char :=
  if d < 26 then Char.ofNat ('a'.toNat + d) else Char.ofNat ('0'.toNat + (d - 26))

/-- Labels are folded before, so capital letters are no digits. -/
def digitValue? (c : Char) : Option Nat :=
  if 'a'.toNat ≤ c.toNat && c.toNat ≤ 'z'.toNat then some (c.toNat - 'a'.toNat)
  else if '0'.toNat ≤ c.toNat && c.toNat ≤ '9'.toNat then some (c.toNat - '0'.toNat + 26)
  else none

def isBasic (c : Char) : Bool := c.toNat < 128

/-- The least value of a digit that is followed by more. Places count in steps of 36. -/
def threshold (place bias : Nat) : Nat := min 26 (max 1 (place - bias))

theorem threshold_pos (place bias : Nat) : 0 < threshold place bias := by
  unfold threshold; omega

/-- Scales a number down to at most 455, counting the steps. -/
def scaleDown (n steps : Nat) : Nat × Nat :=
  if 455 < n then scaleDown (n / 35) (steps + 36) else (n, steps)
termination_by n
decreasing_by omega

def adapt (n placed : Nat) (isFirst : Bool) : Nat :=
  let damped := if isFirst then n / 700 else n / 2
  let (rest, steps) := scaleDown (damped + damped / placed) 0
  steps + 36 * rest / (rest + 38)

/-- A number as digits, least one first. -/
def writeNumber (bias place n : Nat) : List Char :=
  let t := threshold place bias
  if n < t then [digitChar n]
  else digitChar (t + (n - t) % (36 - t)) :: writeNumber bias (place + 36) ((n - t) / (36 - t))
termination_by n
decreasing_by
  have pos := threshold_pos place bias
  have := Nat.div_le_self (n - threshold place bias) (36 - threshold place bias)
  omega

structure Progress where
  bias : Nat := 72
  passed : Nat := 0
  placed : Nat

def placeAll (basics code : Nat) : List Char → Progress → List Char × Progress
  | [], progress => ([], progress)
  | c :: rest, progress =>
    if c.toNat < code then placeAll basics code rest { progress with passed := progress.passed + 1 }
    else if c.toNat = code then
      let number := writeNumber progress.bias 36 progress.passed
      let bias := adapt progress.passed (progress.placed + 1) (progress.placed = basics)
      let (digits, progress) := placeAll basics code rest
        { bias := bias, passed := 0, placed := progress.placed + 1 }
      (number ++ digits, progress)
    else placeAll basics code rest progress

def writeNumbers (label : List Char) (basics : Nat) : List Nat → Nat → Progress → List Char
  | [], _, _ => []
  | code :: codes, least, progress =>
    let passed := progress.passed + (code - least) * (progress.placed + 1)
    let (digits, progress) := placeAll basics code label { progress with passed := passed }
    digits ++ writeNumbers label basics codes (code + 1)
      { progress with passed := progress.passed + 1 }

def insertCode (code : Nat) : List Nat → List Nat
  | [] => [code]
  | head :: tail =>
    if code < head then code :: head :: tail
    else if code = head then head :: tail
    else head :: insertCode code tail

def otherCodes (label : List Char) : List Nat :=
  ((label.filter fun c => !isBasic c).map Char.toNat).foldr insertCode []

def encode (label : List Char) : List Char :=
  let basics := label.filter isBasic
  let digits := writeNumbers label basics.length (otherCodes label) 128 { placed := basics.length }
  if basics.isEmpty then digits else basics ++ '-' :: digits

def readNumber (bias : Nat) : Nat → Nat → List Char → Option (Nat × List Char)
  | _, _, [] => none
  | place, unit, c :: rest => do
    let digit ← digitValue? c
    let t := threshold place bias
    if digit < t then some (digit * unit, rest)
    else
      let (more, rest) ← readNumber bias (place + 36) (unit * (36 - t)) rest
      some (digit * unit + more, rest)

theorem length_of_readNumber {bias place unit n : Nat} {text rest : List Char}
    (read : readNumber bias place unit text = some (n, rest)) : rest.length < text.length := by
  induction text generalizing place unit n rest with
  | nil => simp [readNumber] at read
  | cons c text ih =>
    simp only [readNumber, Option.bind_eq_bind, Option.bind_eq_some_iff] at read
    obtain ⟨digit, _, read⟩ := read
    split at read
    · simp only [Option.some.injEq, Prod.mk.injEq] at read
      simp [read.2]
    · simp only [Option.bind_eq_some_iff] at read
      obtain ⟨⟨more, behind⟩, inner, equal⟩ := read
      simp only [Option.some.injEq, Prod.mk.injEq] at equal
      have shorter := ih inner
      rw [← equal.2, List.length_cons]
      omega

def insertAt (c : Char) : Nat → List Char → List Char
  | 0, label => c :: label
  | _ + 1, [] => [c]
  | n + 1, head :: tail => head :: insertAt c n tail

def placeNumbers (bias place code : Nat) (isFirst : Bool) (label text : List Char) :
    Option (List Char) :=
  if text.isEmpty then some label
  else
    match read : readNumber bias 36 1 text with
    | none => none
    | some (n, rest) =>
      let count := label.length + 1
      let code := code + (place + n) / count
      let place := (place + n) % count
      if code.isValidChar then
        placeNumbers (adapt n count isFirst) (place + 1) code false
          (insertAt (Char.ofNat code) place label) rest
      else none
termination_by text.length
decreasing_by exact length_of_readNumber read

def decode (text : List Char) : Option (List Char) :=
  match Text.splitLast '-' text with
  | none => placeNumbers 72 0 128 true [] text
  | some (basics, digits) =>
    if basics.isEmpty then none
    else if basics.all isBasic then placeNumbers 72 0 128 true basics digits
    else none

end ModelHub.Url.Punycode
