import ModelHub.Numeric.Shortest
import ModelHub.Yaml.Node

namespace ModelHub.Yaml

inductive Real where
  | finite (value : Double)
  | infinite (negative : Bool)
  | undefined
  deriving Repr, DecidableEq

namespace Real

/-- The two zeros are the same key. -/
def same : Real → Real → Bool
  | finite a, finite b => a.sameValue b
  | infinite a, infinite b => a = b
  | undefined, undefined => true
  | _, _ => false

def text : Real → String
  | finite value => value.text
  | infinite true => "-.inf"
  | infinite false => ".inf"
  | undefined => ".nan"

end Real

inductive Value where
  | null
  | bool (value : Bool)
  | int (value : Int)
  | real (value : Real)
  | text (value : String)
  | sequence (items : List Value)
  | mapping (entries : List (Value × Value))
  | tagged (tag : String) (value : Value)
  deriving Repr, Inhabited

namespace Value

mutual

/-- Equality of keys: the order of a mapping does not matter. -/
def same : Value → Value → Bool
  | .null, .null => true
  | .bool a, .bool b => a = b
  | .int a, .int b => a = b
  | .real a, .real b => a.same b
  | .text a, .text b => a = b
  | .sequence a, .sequence b => sameItems a b
  | .mapping a, .mapping b => a.length = b.length && sameEntries a b
  | .tagged s a, .tagged t b => s = t && same a b
  | _, _ => false

def sameItems : List Value → List Value → Bool
  | [], [] => true
  | a :: as, b :: bs => same a b && sameItems as bs
  | _, _ => false

def sameEntries : List (Value × Value) → List (Value × Value) → Bool
  | [], _ => true
  | (key, value) :: rest, entries =>
    entries.any (fun entry => same key entry.1 && same value entry.2) && sameEntries rest entries

end

def get? (key : String) (entries : List (Value × Value)) : Option Value :=
  (entries.find? fun entry => same (.text key) entry.1).map Prod.snd

end Value

namespace Plain

def null? (text : String) : Option Unit :=
  if ["null", "Null", "NULL", "~"].contains text then some () else none

def bool? (text : String) : Option Bool :=
  if ["true", "True", "TRUE"].contains text then some true
  else if ["false", "False", "FALSE"].contains text then some false
  else none

def dropSign : List Char → List Char
  | '+' :: rest => rest
  | '-' :: rest => rest
  | text => text

def dropPlus : List Char → List Char
  | '+' :: rest => rest
  | text => text

def isSigned : List Char → Bool
  | '+' :: _ => true
  | '-' :: _ => true
  | _ => false

/-- Digits behind a leading zero are text. -/
def isPaddedNumber (text : List Char) : Bool :=
  match dropSign text with
  | '0' :: d :: rest => (d :: rest).all Text.isDigit
  | _ => false

def magnitude? : List Char → Option Nat
  | '0' :: 'x' :: rest => Text.readNat? 16 rest
  | '0' :: 'o' :: rest => Text.readNat? 8 rest
  | '0' :: 'b' :: rest => Text.readNat? 2 rest
  | text => if isPaddedNumber text then none else Text.readNat? 10 text

def integer? : List Char → Option Int
  | '-' :: rest => (magnitude? rest).map fun n => -(n : Int)
  | text => (magnitude? (dropPlus text)).map Int.ofNat

def capacity (bits : Nat) : Int := Nat.pow 2 bits

/-- Whole numbers are kept in 64 bits. -/
def isNarrow (n : Int) : Bool := -capacity 63 ≤ n && n < capacity 64

/-- Greater ones are refused as long as they fit into 128 bits. -/
def isWide (n : Int) : Bool := -capacity 127 ≤ n && n < capacity 128

def digitsOf (text : List Char) : List Char × List Char :=
  (text.takeWhile Text.isDigit, text.dropWhile Text.isDigit)

def fractionDigits : List Char → List Char × List Char
  | '.' :: rest => digitsOf rest
  | text => ([], text)

def exponent? : List Char → Option Int
  | [] => some 0
  | c :: rest =>
    if c = 'e' || c = 'E' then
      match rest with
      | '-' :: digits => (Text.readNat? 10 digits).map fun n => -(n : Int)
      | digits => (Text.readNat? 10 (dropPlus digits)).map Int.ofNat
    else none

def decimal? (text : List Char) : Option Double := do
  let negative := text.head? = some '-'
  let (whole, rest) := digitsOf (dropSign text)
  let (fraction, rest) := fractionDigits rest
  let exponent ← exponent? rest
  let digits := whole ++ fraction
  let value ← Text.readNat? 10 digits
  Double.ofDecimal? negative value digits.length (exponent - fraction.length)

def real? (text : List Char) : Option Real :=
  let positive := dropPlus text
  if text.head? = some '+' && isSigned positive then none
  else if [".inf", ".Inf", ".INF"].contains (String.ofList positive) then some (.infinite false)
  else if ["-.inf", "-.Inf", "-.INF"].contains (String.ofList text) then some (.infinite true)
  else if [".nan", ".NaN", ".NAN"].contains (String.ofList text) then some .undefined
  else (decimal? positive).map .finite

/-- Text that is no whole number; a refused number has no value at all. -/
inductive Whole where
  | number (value : Int)
  | refused
  | other

def whole (text : List Char) : Whole :=
  match integer? text with
  | none => .other
  | some n => if isNarrow n then .number n else if isWide n then .refused else .other

def value? (text : String) : Option Value :=
  if text = "" || (null? text).isSome then some .null
  else match bool? text with
    | some b => some (.bool b)
    | none =>
      match whole text.toList with
      | .number n => some (.int n)
      | .refused => none
      | .other =>
        if isPaddedNumber text.toList then some (.text text)
        else some (match real? text.toList with
          | some x => .real x
          | none => .text text)

end Plain

namespace Value

def untagged (text : String) (isPlain : Bool) : Option Value :=
  if isPlain then Plain.value? text else some (.text text)

def standard (name : String) : String := "tag:yaml.org,2002:" ++ name

/-- A scalar under a standard tag must have the form the tag asks for; any other tag makes it a
text. -/
def ofStandard (tag text : String) : Option Value :=
  if tag = standard "bool" then (Plain.bool? text).map .bool
  else if tag = standard "int" then
    match Plain.whole text.toList with
    | .number n => some (.int n)
    | _ => none
  else if tag = standard "float" then (Plain.real? text.toList).map .real
  else if tag = standard "null" then (Plain.null? text).map fun _ => .null
  else some (.text text)

def localName? (tag : String) : Option String :=
  match tag.toList with
  | ['!'] => some "!"
  | ['!', '!'] => some "!"
  | '!' :: '!' :: name => some (String.ofList name)
  | '!' :: name => some (String.ofList name)
  | _ => none

def insertEntry (key value : Value) (entries : List (Value × Value)) :
    Option (List (Value × Value)) :=
  if entries.any fun entry => entry.1.same key then none else some (entries ++ [(key, value)])

def collect (pairs : List (Value × Value)) : Option (List (Value × Value)) :=
  pairs.foldlM (fun entries pair => insertEntry pair.1 pair.2 entries) []

structure Expansion where
  anchored : List (Nat × Node)
  limit : Nat

def follow (expansion : Expansion) : Node → StateT Nat Option Node
  | .alias number => do
    modify (· + 1)
    if expansion.limit < (← get) then failure
    match expansion.anchored.lookup number with
    | some target => return target
    | none => failure
  | found => return found

def underTag (tag : Option String) (plain : Option Value)
    (standardized : String → Option Value) : Option Value :=
  match tag with
  | none => plain
  | some tag =>
    match localName? tag with
    | some name => plain.map (.tagged name)
    | none => standardized tag

/-- The value of a node in so many levels of collections at most. -/
def ofNode (expansion : Expansion) : Nat → Node → StateT Nat Option Value
  | room, node => do
    match ← follow expansion node with
    | .alias _ => failure
    | .scalar _ tag content isPlain =>
      StateT.lift (underTag tag (untagged content isPlain) fun tag => ofStandard tag content)
    | .sequence _ tag items =>
      match room with
      | 0 => failure
      | room + 1 =>
        let values ← items.mapM (ofNode expansion room)
        StateT.lift (underTag tag (some (.sequence values)) fun _ => some (.sequence values))
    | .mapping _ tag entries =>
      match room with
      | 0 => failure
      | room + 1 =>
        let pairs ← entries.mapM fun entry => do
          let key ← ofNode expansion room entry.1
          let value ← ofNode expansion room entry.2
          return (key, value)
        let collected ← StateT.lift (collect pairs)
        StateT.lift (underTag tag (some (.mapping collected)) fun _ => some (.mapping collected))

def greatestDepth : Nat := 128

def ofTree? (root : Node) : Option Value :=
  let expansion : Expansion := { anchored := root.anchored, limit := 100 * root.eventCount }
  ((ofNode expansion greatestDepth root).run 0).map Prod.fst

def parse? (text : String) : Option Value :=
  ((Token.scan text.toList).bind Node.ofTokens?).bind ofTree?

end Value

end ModelHub.Yaml
