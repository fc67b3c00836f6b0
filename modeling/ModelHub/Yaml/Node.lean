import ModelHub.Yaml.Token

/-!
The tree of a YAML document before its scalars are given a meaning. Aliases are not yet expanded.
-/

namespace ModelHub.Yaml

inductive Node where
  | alias (anchor : Nat)
  | scalar (anchor : Option Nat) (tag : Option String) (text : String) (isPlain : Bool)
  | sequence (anchor : Option Nat) (tag : Option String) (items : List Node)
  | mapping (anchor : Option Nat) (tag : Option String) (entries : List (Node × Node))
  deriving Repr, Inhabited

namespace Node

def empty : Node := .scalar none none "" true

mutual

/-- An alias and a scalar take one event each, a collection one more than its content at each end. -/
def eventCount : Node → Nat
  | .alias _ => 1
  | .scalar .. => 1
  | .sequence _ _ items => 2 + itemEvents items
  | .mapping _ _ entries => 2 + entryEvents entries

def itemEvents : List Node → Nat
  | [] => 0
  | item :: rest => eventCount item + itemEvents rest

def entryEvents : List (Node × Node) → Nat
  | [] => 0
  | (key, value) :: rest => eventCount key + eventCount value + entryEvents rest

end

def labelled (anchor : Option Nat) (node : Node) : List (Nat × Node) :=
  match anchor with
  | none => []
  | some number => [(number, node)]

mutual

def anchored : Node → List (Nat × Node)
  | .alias _ => []
  | .scalar anchor tag text isPlain => labelled anchor (.scalar anchor tag text isPlain)
  | .sequence anchor tag items =>
    itemAnchored items ++ labelled anchor (.sequence anchor tag items)
  | .mapping anchor tag entries =>
    entryAnchored entries ++ labelled anchor (.mapping anchor tag entries)

def itemAnchored : List Node → List (Nat × Node)
  | [] => []
  | item :: rest => itemAnchored rest ++ anchored item

def entryAnchored : List (Node × Node) → List (Nat × Node)
  | [] => []
  | (key, value) :: rest => entryAnchored rest ++ anchored value ++ anchored key

end

end Node

structure ParseState where
  tokens : List Token
  tagLeads : List (String × String) := []
  anchors : List (String × Nat) := []

abbrev Parse := StateT ParseState Option

namespace Parse

def peek : Parse (Option Token) := do return (← get).tokens.head?
def skip : Parse Unit := modify fun s => { s with tokens := s.tokens.drop 1 }

def sees (accept : Token → Bool) : Parse Bool := do
  match ← peek with
  | some token => return accept token
  | none => return false

def accept (token : Token) : Parse Bool := do
  if ← sees (· = token) then skip; return true
  else return false

def expect (token : Token) : Parse Unit := do
  if !(← accept token) then failure

/-- The number of an anchor is the number of other names before it: a name that is used again may
take the number of a later one. -/
def nameAnchor (name : String) : Parse Nat := do
  let s ← get
  let number := s.anchors.length
  set { s with anchors := (name, number) :: s.anchors.filter fun entry => entry.1 ≠ name }
  return number

def resolveAlias (name : String) : Parse Node := do
  match (← get).anchors.lookup name with
  | some number => return .alias number
  | none => failure

def defaultLeads : List (String × String) := [("!", "!"), ("!!", "tag:yaml.org,2002:")]

def resolveTag (handle suffix : String) : Parse String := do
  if handle = "" then return suffix
  else match ((← get).tagLeads ++ defaultLeads).lookup handle with
    | some lead => return lead ++ suffix
    | none => failure

def readProperties : Parse (Option String × Option (String × String)) := do
  match ← peek with
  | some (.anchor name) =>
    skip
    match ← peek with
    | some (.tag handle suffix) => skip; return (some name, some (handle, suffix))
    | _ => return (some name, none)
  | some (.tag handle suffix) =>
    skip
    match ← peek with
    | some (.anchor name) => skip; return (some name, some (handle, suffix))
    | _ => return (none, some (handle, suffix))
  | _ => return (none, none)

def endsBlockEntry : Token → Bool
  | .blockEntry => true
  | .blockEnd => true
  | _ => false

def endsIndentlessEntry : Token → Bool
  | .blockEntry => true
  | .key => true
  | .value => true
  | .blockEnd => true
  | _ => false

def endsMappingPart : Token → Bool
  | .key => true
  | .value => true
  | .blockEnd => true
  | _ => false

def endsFlowItem : Token → Bool
  | .flowEntry => true
  | .flowSequenceEnd => true
  | _ => false

def endsFlowKey (token : Token) : Bool := token = .value || endsFlowItem token

def endsFlowValue : Token → Bool
  | .flowEntry => true
  | .flowMappingEnd => true
  | _ => false

def endsFlowMappingKey (token : Token) : Bool := token = .value || endsFlowValue token

mutual

/-- A node. Block collections may begin only in a block, and sequences without indentation only as
parts of a block mapping. -/
def node (inBlock indentless : Bool) : Nat → Parse Node
  | 0 => failure
  | fuel + 1 => do
    if let some (.alias name) ← peek then
      skip
      resolveAlias name
    else
      let (name, shorthand) ← readProperties
      let tag ← shorthand.mapM fun parts => resolveTag parts.1 parts.2
      let number ← name.mapM nameAnchor
      let next ← peek
      if indentless && next = some .blockEntry then
        return .sequence number tag (← indentlessItems fuel)
      else match next with
        | some (.scalar text isPlain) =>
          skip
          return .scalar number (if tag = some "!" then none else tag) text isPlain
        | some .flowSequenceStart => skip; return .sequence number tag (← flowItems true fuel)
        | some .flowMappingStart => skip; return .mapping number tag (← flowEntries true fuel)
        | some .blockSequenceStart =>
          if inBlock then skip; return .sequence number tag (← blockItems fuel)
          else orEmpty number tag
        | some .blockMappingStart =>
          if inBlock then skip; return .mapping number tag (← blockEntries fuel)
          else orEmpty number tag
        | _ => orEmpty number tag

def orEmpty (number : Option Nat) (tag : Option String) : Parse Node :=
  if number.isSome || tag.isSome then return .scalar number tag "" true else failure

def nodeUnless (stops : Token → Bool) (inBlock indentless : Bool) : Nat → Parse Node
  | 0 => failure
  | fuel + 1 => do
    if ← sees stops then return .empty else node inBlock indentless fuel

def blockItems : Nat → Parse (List Node)
  | 0 => failure
  | fuel + 1 => do
    if ← accept .blockEntry then
      let item ← nodeUnless endsBlockEntry true false fuel
      return item :: (← blockItems fuel)
    else expect .blockEnd; return []

def indentlessItems : Nat → Parse (List Node)
  | 0 => failure
  | fuel + 1 => do
    if ← accept .blockEntry then
      let item ← nodeUnless endsIndentlessEntry true false fuel
      return item :: (← indentlessItems fuel)
    else return []

def blockEntries : Nat → Parse (List (Node × Node))
  | 0 => failure
  | fuel + 1 => do
    if ← accept .key then
      let key ← nodeUnless endsMappingPart true true fuel
      let value ← if ← accept .value then nodeUnless endsMappingPart true true fuel
        else pure .empty
      return (key, value) :: (← blockEntries fuel)
    else expect .blockEnd; return []

def flowItems (isFirst : Bool) : Nat → Parse (List Node)
  | 0 => failure
  | fuel + 1 => do
    if ← accept .flowSequenceEnd then return []
    else
      if !isFirst then expect .flowEntry
      if ← accept .flowSequenceEnd then return []
      else
        let item ← if ← accept .key then flowPair fuel else node false false fuel
        return item :: (← flowItems false fuel)

/-- A mapping of one entry inside a flow sequence. Where the key is empty, the token behind the
indicator is passed over. -/
def flowPair : Nat → Parse Node
  | 0 => failure
  | fuel + 1 => do
    let key ← if ← sees endsFlowKey then do skip; pure .empty else node false false fuel
    let value ← if ← accept .value then nodeUnless endsFlowItem false false fuel
      else pure .empty
    return .mapping none none [(key, value)]

def flowEntries (isFirst : Bool) : Nat → Parse (List (Node × Node))
  | 0 => failure
  | fuel + 1 => do
    if ← accept .flowMappingEnd then return []
    else
      if !isFirst then expect .flowEntry
      if ← accept .flowMappingEnd then return []
      else if ← accept .key then
        let key ← nodeUnless endsFlowMappingKey false false fuel
        let value ← if ← accept .value then nodeUnless endsFlowValue false false fuel
          else pure .empty
        return (key, value) :: (← flowEntries false fuel)
      else
        let key ← node false false fuel
        return (key, .empty) :: (← flowEntries false fuel)

end

/-- At most one version, of 1.1 or 1.2, and at most one prefix for each handle. -/
def directives : Nat → Bool → Parse Unit
  | 0, _ => failure
  | fuel + 1, hasVersion => do
    match ← peek with
    | some (.versionDirective major minor) =>
      if hasVersion || major ≠ 1 || (minor ≠ 1 && minor ≠ 2) then failure
      skip
      directives fuel true
    | some (.tagDirective handle lead) =>
      let s ← get
      if (s.tagLeads.lookup handle).isSome then failure
      set { s with tagLeads := (handle, lead) :: s.tagLeads }
      skip
      directives fuel hasVersion
    | _ => return ()

def isDirective : Token → Bool
  | .versionDirective .. => true
  | .tagDirective .. => true
  | _ => false

def isDocumentEdge (token : Token) : Bool :=
  isDirective token || token = .documentStart || token = .documentEnd

def content (fuel : Nat) : Parse Node := do
  match ← peek with
  | none => return .empty
  | some token => if isDocumentEdge token then return .empty else node true false fuel

def root (fuel : Nat) : Parse Node := do
  match ← peek with
  | none => return .empty
  | some token =>
    if isDirective token || token = .documentStart then
      directives fuel false
      expect .documentStart
      content fuel
    else node true false fuel

def skipEnds : Nat → Parse Unit
  | 0 => return ()
  | fuel + 1 => do if ← accept .documentEnd then skipEnds fuel

def document (fuel : Nat) : Parse Node := do
  let found ← root fuel
  skipEnds fuel
  match ← peek with
  | none => return found
  | some _ => failure

end Parse

/-- Every step of the grammar takes a token, or is followed by one that does. -/
def Node.ofTokens? (tokens : List Token) : Option Node :=
  ((Parse.document (3 * tokens.length + 10)).run { tokens := tokens }).map Prod.fst

end ModelHub.Yaml
