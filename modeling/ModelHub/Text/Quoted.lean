import ModelHub.Text.Property

namespace ModelHub.Text

def hexDigits (n : Nat) : List Char := Nat.toDigits 16 n

/-- An apostrophe stays; what has no name of its own and cannot be seen becomes its code. -/
def visible (c : Char) : List Char :=
  if c = '\x00' then ['\\', '0']
  else if c = '\t' then ['\\', 't']
  else if c = '\r' then ['\\', 'r']
  else if c = '\n' then ['\\', 'n']
  else if c = '"' || c = '\\' then ['\\', c]
  else if isExtender c || isUnprintable c then
    ['\\', 'u', '\x7b'] ++ hexDigits c.toNat ++ ['\x7d']
  else [c]

def quoted (text : String) : String :=
  "\"" ++ String.ofList (text.toList.flatMap visible) ++ "\""

end ModelHub.Text
