import ModelHub.Failure.Error
import ModelHub.Json.Decoder
import ModelHub.Json.Reader
import ModelHub.Push.Setting
import ModelHub.Text.Blank

/-!
The architecture a model configuration declares: the first entry of its list `architectures` that
is not blank.
-/

namespace ModelHub.ModelConfig

open Json (fields withDefault asText asList)

def failure (message : String) : HubError := .malformed modelConfigFile message

def unreadable : HubError := failure "not a model configuration"
def undeclared : HubError := failure "no architecture declared"

def ofJson? (value : Json) : Option (List String) := do
  let [architectures] ← fields ["architectures"] value | none
  withDefault [] (asList asText) architectures

def architectures? (content : String) : Option (List String) :=
  (Json.parse? content).bind ofJson?

def architecture (content : String) : Except HubError String :=
  match architectures? content with
  | none => .error unreadable
  | some listed =>
    match (listed.map Text.trimString).find? fun entry => entry ≠ "" with
    | none => .error undeclared
    | some found => .ok found

end ModelHub.ModelConfig
