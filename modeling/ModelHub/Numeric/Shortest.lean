import ModelHub.Numeric.Double

/-!
The shortest decimal text that reads back as the same double.

Of the decimals with the fewest digits that read back, the nearest one is taken, and the even one of
two that are equally near. Numbers from 1e-5 to 1e16 are written in positional notation.
-/

namespace ModelHub.Double

def numerator (x : Double) : Nat := x.mantissa <<< x.exponent.toNat
def denominator (x : Double) : Nat := 1 <<< (-x.exponent).toNat

/-- Half the distance to the next greater double is one part in `2 * denominator` of this. -/
def spacing (x : Double) : Nat := 1 <<< x.exponent.toNat

/-- The double below a power of two is half as far away, unless the exponent is the least one. -/
def isPowerOfTwo (x : Double) : Bool :=
  x.mantissa = 1 <<< (mantissaBits - 1) && leastExponent < x.exponent

/-- Whether `digits * 10 ^ power` rounds to the value: it lies between the middles to both
neighbours, which belong to it when its mantissa is even. All is counted in quarters. -/
def readsBack (x : Double) (digits : Nat) (power : Int) : Bool :=
  let scale := 4 * x.denominator * Nat.pow 10 power.toNat
  let decimal := digits * scale
  let unit := Nat.pow 10 (-power).toNat
  let value := 4 * x.numerator * unit
  let above := value + 2 * x.spacing * unit
  let below := value - (if x.isPowerOfTwo then 1 else 2) * x.spacing * unit
  if x.mantissa % 2 = 0 then below ≤ decimal && decimal ≤ above
  else below < decimal && decimal < above

def decimalLength (x : Double) : Int :=
  let whole := x.numerator / x.denominator
  if whole ≠ 0 then (toString whole).length
  else
    let inverse := x.denominator / x.numerator
    let zeros : Int := -((toString inverse).length : Int)
    if x.numerator * Nat.pow 10 (-zeros).toNat < x.denominator then zeros
    else zeros + 1

def gridNeighbours (x : Double) (power : Int) : List Nat :=
  let n := x.numerator * Nat.pow 10 (-power).toNat
  let d := x.denominator * Nat.pow 10 power.toNat
  let below := n / d
  let rounded := roundDiv n d
  if rounded = below then [below, below + 1] else [below + 1, below]

/-- Digits and power of ten of the shortest decimal, tried by growing length. -/
def shortestFrom (x : Double) (length : Int) : Nat → Nat → Nat × Int
  | 0, _ => (0, 0)
  | fuel + 1, count =>
    let power := length - count
    match (x.gridNeighbours power).find? fun digits => x.readsBack digits power with
    | some digits => (digits, power)
    | none => shortestFrom x length fuel (count + 1)

def dropZeros : Nat → Nat → Int → Nat × Int
  | 0, digits, power => (digits, power)
  | fuel + 1, digits, power =>
    if digits % 10 = 0 then dropZeros fuel (digits / 10) (power + 1) else (digits, power)

def shortest (x : Double) : Nat × Int :=
  let (digits, power) := shortestFrom x x.decimalLength 18 1
  dropZeros 18 digits power

def zeros (count : Int) : String := String.ofList (List.replicate count.toNat '0')

def magnitudeText (x : Double) : String :=
  if x.mantissa = 0 then "0.0"
  else
    let (digits, power) := x.shortest
    let text := toString digits
    let point : Int := text.length + power
    if 0 ≤ power && point ≤ 16 then text ++ zeros power ++ ".0"
    else if 0 < point && point ≤ 16 then
      String.ofList (text.toList.take point.toNat) ++ "." ++
        String.ofList (text.toList.drop point.toNat)
    else if -5 < point && point ≤ 0 then "0." ++ zeros (-point) ++ text
    else
      let fraction := text.toList.drop 1
      String.ofList (text.toList.take 1) ++
        (if fraction.isEmpty then "" else "." ++ String.ofList fraction) ++
        "e" ++ toString (point - 1)

def text (x : Double) : String := (if x.negative then "-" else "") ++ x.magnitudeText

end ModelHub.Double
