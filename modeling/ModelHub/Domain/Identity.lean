import ModelHub.Domain.Kind
import ModelHub.Failure.Error
import ModelHub.Text.Split

/-!
The identity of a repository in its full name, `types_owner/name`.
-/

namespace ModelHub

structure RepoIdentity where
  typeToken : String
  /-- No type for a token the hub does not know. -/
  repoType : Option RepoType
  owner : String
  name : String
  deriving DecidableEq, Repr

namespace RepoIdentity

/-- The name is all that follows the first slash, the owner all between the first underscore
and that slash. -/
def parse (fullName : String) : Except HubError RepoIdentity :=
  match Text.splitFirst '/' fullName.toList with
  | none => .error (.invalidEvent ("repository full name has no '/': " ++ fullName))
  | some (left, name) =>
    match Text.splitFirst '_' left with
    | none => .error (.invalidEvent ("repository namespace has no type prefix: " ++ fullName))
    | some (token, owner) =>
      if owner.isEmpty || name.isEmpty then
        .error (.invalidEvent ("repository full name is incomplete: " ++ fullName))
      else
        .ok { typeToken := String.ofList token
              repoType := RepoType.ofToken? (String.ofList token)
              owner := String.ofList owner
              name := String.ofList name }

def display (identity : RepoIdentity) : String :=
  identity.typeToken ++ "_" ++ identity.owner ++ "/" ++ identity.name

def path (identity : RepoIdentity) : String := identity.owner ++ "/" ++ identity.name

def scope (identity : RepoIdentity) : Option TagScope :=
  identity.repoType.bind TagScope.ofRepoType?

end RepoIdentity

end ModelHub
