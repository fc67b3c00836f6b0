/-!
JSON documents as trees. Members keep their order and may repeat a name.
-/

namespace ModelHub

inductive Json where
  | null
  | bool (value : Bool)
  /-- A number written without fraction and exponent, other than `-0`. -/
  | int (value : Int)
  | real (literal : String)
  /-- A string; none when an escape in it names no character. -/
  | str (text : Option String)
  | arr (items : List Json)
  | obj (members : List (Option String × Json))
  deriving Repr, Inhabited

namespace Json

def text (s : String) : Json := .str (some s)

def object (members : List (String × Json)) : Json :=
  .obj (members.map fun member => (some member.1, member.2))

def texts (items : List String) : Json := .arr (items.map text)

def ofOption {α : Type} (encode : α → Json) : Option α → Json
  | none => .null
  | some a => encode a

def get? (name : String) : Json → Option Json
  | .obj members => (members.find? fun member => member.1 = some name).map Prod.snd
  | _ => none

end Json

end ModelHub
