import ModelHub.Engine.Call
import ModelHub.Failure.Error
import ModelHub.Files.Tree

/-!
A directory of working trees, `types/owner/name` each. A working tree has one revision, so the
reference does not matter.
-/

namespace ModelHub

structure Checkout where
  root : String
  deriving DecidableEq, Repr

namespace Checkout

def escapes (path : String) : HubError :=
  .invalidEvent ("file path escapes the repository: " ++ path)

/-- The path of a file. Owner and name are taken as they are. -/
def resolve (checkout : Checkout) (request : FileRequest) : Except HubError String :=
  if Files.isPlain request.path then
    .ok ([request.repoType.plural, request.owner, request.name, request.path].foldl Files.join
      checkout.root)
  else .error (escapes request.path)

def unreadable (path reason : String) : HubError :=
  .unavailable "checkout" ("failed to read " ++ path ++ ": " ++ reason)

def noText : String := "not UTF-8"

def answer (request : FileRequest) (path : String) :
    Except FileFault ByteArray → Except HubError String
  | .ok content =>
    match String.fromUTF8? content with
    | some text => .ok text
    | none => .error (unreadable path noText)
  | .error .absent => .error (.manifestMissing request.path request.reference)
  | .error (.unreadable reason) => .error (unreadable path reason)

def fetch (checkout : Checkout) (tree : FileTree) (request : FileRequest) :
    Except HubError String := do
  let path ← checkout.resolve request
  answer request path (tree.read [] path)

end Checkout

end ModelHub
