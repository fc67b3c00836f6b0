import ModelHub.Json.Value

namespace ModelHub.Json

def hexDigit (n : Nat) : Char := (Nat.toDigits 16 n).headD '0'

/-- Only the quote, the backslash and the controls are escaped. -/
def escape (c : Char) : List Char :=
  if c = '"' then ['\\', '"']
  else if c = '\\' then ['\\', '\\']
  else if c = '\n' then ['\\', 'n']
  else if c = '\r' then ['\\', 'r']
  else if c = '\t' then ['\\', 't']
  else if c = '\x08' then ['\\', 'b']
  else if c = '\x0c' then ['\\', 'f']
  else if c.toNat < 0x20 then ['\\', 'u', '0', '0', hexDigit (c.toNat / 16), hexDigit (c.toNat % 16)]
  else [c]

def quote (text : String) : String :=
  "\"" ++ String.ofList (text.toList.flatMap escape) ++ "\""

def lineStart (indented : Bool) (depth : Nat) : String :=
  if indented then "\n" ++ String.ofList (List.replicate (2 * depth) ' ') else ""

mutual

def write (indented : Bool) (depth : Nat) : Json → String
  | .null => "null"
  | .bool true => "true"
  | .bool false => "false"
  | .int n => toString n
  | .real literal => literal
  | .str text => quote (text.getD "")
  | .arr [] => "[]"
  | .arr items =>
    "[" ++ writeItems indented (depth + 1) true items ++ lineStart indented depth ++ "]"
  | .obj [] => "\x7b\x7d"
  | .obj members =>
    "\x7b" ++ writeMembers indented (depth + 1) true members ++ lineStart indented depth ++ "\x7d"

def writeItems (indented : Bool) (depth : Nat) (isFirst : Bool) : List Json → String
  | [] => ""
  | item :: rest =>
    (if isFirst then "" else ",") ++ lineStart indented depth ++ write indented depth item ++
      writeItems indented depth false rest

def writeMembers (indented : Bool) (depth : Nat) (isFirst : Bool) :
    List (Option String × Json) → String
  | [] => ""
  | (name, value) :: rest =>
    (if isFirst then "" else ",") ++ lineStart indented depth ++ quote (name.getD "") ++
      (if indented then ": " else ":") ++ write indented depth value ++
      writeMembers indented depth false rest

end

def compact (value : Json) : String := write false 0 value

def pretty (value : Json) : String := write true 0 value

end ModelHub.Json
