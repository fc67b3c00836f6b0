import ModelHub.Domain.Record
import ModelHub.Failure.Error
import ModelHub.Manifest.FrontMatter
import ModelHub.Push.Setting
import ModelHub.Text.Blank
import ModelHub.Yaml.Value

namespace ModelHub.MetaTags

open Yaml (Value)

def groups : List String :=
  ["tags", "license", "language", "task_categories", "task_ids", "pipeline_tag",
   "size_categories", "frameworks"]

def failure (message : String) : HubError := .malformed readmeFile message

def notYaml : HubError := failure "invalid front matter: not a document"
def notMapping : HubError := failure "front matter is not a mapping"

def scalarText : Value → Option String
  | .text text => some (Text.trimString text)
  | .int n => some (toString n)
  | .real x => some x.text
  | .bool true => some "true"
  | .bool false => some "false"
  | _ => none

/-- The name a scalar declares. Blank texts declare nothing. -/
def scalarName (value : Value) : Option String := (scalarText value).filter (· ≠ "")

def namesOf : Value → List String
  | .sequence items => items.filterMap scalarName
  | value => (scalarName value).toList

def insert (tag : DeclaredTag) : List DeclaredTag → List DeclaredTag
  | [] => [tag]
  | head :: tail =>
    if tag = head then head :: tail
    else if tag.le head then tag :: head :: tail
    else head :: insert tag tail

def ofGroup (entries : List (Value × Value)) (group : String) : List DeclaredTag :=
  match Value.get? group entries with
  | none => []
  | some value => (namesOf value).map fun name => { group := group, name := name }

def ofMapping (entries : List (Value × Value)) : List DeclaredTag :=
  (groups.flatMap (ofGroup entries)).foldr insert []

/-- A document without front matter, or with a blank one, declares nothing. -/
def declared (content : String) : Except HubError (List DeclaredTag) :=
  match FrontMatter.block? content with
  | none => .ok []
  | some block =>
    if Text.trimString block = "" then .ok []
    else match Value.parse? block with
      | none => .error notYaml
      | some (.mapping entries) => .ok (ofMapping entries)
      | some .null => .ok []
      | some _ => .error notMapping

end ModelHub.MetaTags
