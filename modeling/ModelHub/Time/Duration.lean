namespace ModelHub

structure Duration where
  nanos : Nat
  deriving DecidableEq, Repr, Inhabited

namespace Duration

def ofMillis (n : Nat) : Duration := ⟨n * 1000000⟩
def ofSeconds (n : Nat) : Duration := ⟨n * 1000000000⟩

def wholeSeconds (d : Duration) : Nat := d.nanos / 1000000000
def wholeMillis (d : Duration) : Nat := d.nanos / 1000000

def dropTrailingZeros (digits : List Char) : List Char :=
  (digits.reverse.dropWhile (· = '0')).reverse

def padLeft (width : Nat) (digits : List Char) : List Char :=
  List.replicate (width - digits.length) '0' ++ digits

def decimal (value unit places : Nat) : String :=
  let fraction := dropTrailingZeros (padLeft places (toString (value % unit)).toList)
  toString (value / unit) ++ if fraction.isEmpty then "" else "." ++ String.ofList fraction

/-- The largest unit that gives a whole part above zero; zero is written in nanoseconds. -/
def text (d : Duration) : String :=
  if 1000000000 ≤ d.nanos then decimal d.nanos 1000000000 9 ++ "s"
  else if 1000000 ≤ d.nanos then decimal d.nanos 1000000 6 ++ "ms"
  else if 1000 ≤ d.nanos then decimal d.nanos 1000 3 ++ "µs"
  else toString d.nanos ++ "ns"

end Duration

end ModelHub
