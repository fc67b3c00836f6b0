import ModelHub.Text.Blank

namespace ModelHub

inductive RepoType where
  | dataset | model | prompt | code | space
  deriving DecidableEq, Repr, Inhabited

namespace RepoType

def all : List RepoType := [dataset, model, prompt, code, space]

def name : RepoType → String
  | dataset => "dataset"
  | model => "model"
  | prompt => "prompt"
  | code => "code"
  | space => "space"

def plural (t : RepoType) : String := t.name ++ "s"

def ofName? : String → Option RepoType
  | "dataset" => some dataset
  | "model" => some model
  | "prompt" => some prompt
  | "code" => some code
  | "space" => some space
  | _ => none

def singular (token : List Char) : List Char :=
  if token.getLast? = some 's' then token.dropLast else token

/-- Surrounding white space is ignored; singular and plural are both accepted. -/
def ofToken? (token : String) : Option RepoType :=
  ofName? (String.ofList (singular (Text.trim token.toList)))

@[simp] theorem ofName?_name (t : RepoType) : ofName? t.name = some t := by cases t <;> rfl

theorem name_injective {s t : RepoType} (same : s.name = t.name) : s = t := by
  have := congrArg ofName? same
  simpa using this

end RepoType

/-- The repositories that bear tags, each a namespace of tags of its own. -/
inductive TagScope where
  | dataset | model | prompt
  deriving DecidableEq, Repr, Inhabited

namespace TagScope

def repoType : TagScope → RepoType
  | dataset => .dataset
  | model => .model
  | prompt => .prompt

def name (scope : TagScope) : String := scope.repoType.name

/-- Code and space repositories bear no tags. -/
def ofRepoType? : RepoType → Option TagScope
  | .dataset => some dataset
  | .model => some model
  | .prompt => some prompt
  | .code => none
  | .space => none

def ofName? (text : String) : Option TagScope := (RepoType.ofName? text).bind ofRepoType?

def ofToken? (token : String) : Option TagScope := (RepoType.ofToken? token).bind ofRepoType?

@[simp] theorem ofName?_name (scope : TagScope) : ofName? scope.name = some scope := by
  cases scope <;> rfl

end TagScope

inductive TagCategory where
  | library | declared | runtimeFramework | resource
  deriving DecidableEq, Repr, Inhabited

namespace TagCategory

def all : List TagCategory := [library, declared, runtimeFramework, resource]

def name : TagCategory → String
  | library => "library"
  | declared => "meta"
  | runtimeFramework => "runtime_framework"
  | resource => "resource"

def ofName? : String → Option TagCategory
  | "library" => some library
  | "meta" => some declared
  | "runtime_framework" => some runtimeFramework
  | "resource" => some resource
  | _ => none

@[simp] theorem ofName?_name (category : TagCategory) :
    ofName? category.name = some category := by cases category <;> rfl

theorem name_injective {c d : TagCategory} (same : c.name = d.name) : c = d := by
  have := congrArg ofName? same
  simpa using this

end TagCategory

end ModelHub
