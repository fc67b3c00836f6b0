import ModelHub.Json.Value

/-!
Reading records out of JSON documents.

A record is an object, whose unknown members are ignored, or an array of its fields in order. A
field may be given once; whether it may be missing is the field's own affair.
-/

namespace ModelHub.Json

abbrev Decoder (α : Type) := Json → Option α

def asText : Decoder String
  | .str text => text
  | _ => none

def asBool : Decoder Bool
  | .bool value => some value
  | _ => none

/-- Numbers with a fraction or an exponent are no integers. -/
def asInt (low high : Int) : Decoder Int
  | .int value => if low ≤ value ∧ value ≤ high then some value else none
  | _ => none

def asInt64 : Decoder Int := asInt (-9223372036854775808) 9223372036854775807
def asInt32 : Decoder Int := asInt (-2147483648) 2147483647
def asNat64 : Decoder Nat := fun value => (asInt 0 18446744073709551615 value).map Int.toNat

def asList {α : Type} (decode : Decoder α) : Decoder (List α)
  | .arr items => items.mapM decode
  | _ => none

/-- A name by itself, or as the only member of an object with the value null. -/
def asName {α : Type} (ofName? : String → Option α) : Decoder α
  | .str (some name) => ofName? name
  | .obj [(some name, .null)] => ofName? name
  | _ => none

inductive Found where
  | missing
  | cut
  | given (value : Json)

def named (name : String) (members : List (Option String × Json)) : List Json :=
  (members.filter fun member => member.1 = some name).map Prod.snd

def findField (members : List (Option String × Json)) (name : String) : Option Found :=
  match named name members with
  | [] => some .missing
  | [value] => some (.given value)
  | _ => none

def fields (names : List String) : Json → Option (List Found)
  | .obj members =>
    if members.all fun member => member.1.isSome then names.mapM (findField members) else none
  | .arr items =>
    if items.length ≤ names.length then
      some (items.map .given ++ List.replicate (names.length - items.length) .cut)
    else none
  | _ => none

def required {α : Type} (decode : Decoder α) : Found → Option α
  | .given value => decode value
  | _ => none

def withDefault {α : Type} (otherwise : α) (decode : Decoder α) : Found → Option α
  | .given value => decode value
  | _ => some otherwise

def nullable {α : Type} (decode : Decoder α) : Decoder (Option α)
  | .null => some none
  | value => (decode value).map some

/-- May be missing from an object, but not from an array. -/
def optional {α : Type} (decode : Decoder α) : Found → Option (Option α)
  | .given value => nullable decode value
  | .missing => some none
  | .cut => none

end ModelHub.Json
