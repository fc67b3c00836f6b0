import ModelHub.Files.Path
import ModelHub.Url.Percent

namespace ModelHub

inductive StoreAccess where
  | create
  | update
  | read
  deriving DecidableEq, Repr

inductive StorePlace where
  | memory
  | file (path : String) (access : StoreAccess)
  deriving DecidableEq, Repr

namespace StorePlace

def memoryName : String := ":memory:"

def ofPath (path : String) (access : StoreAccess) : StorePlace :=
  if path = "" || path = memoryName then memory else file (Files.direct path) access

def adjust? : StorePlace → String × String → Option StorePlace
  | _, ("mode", "memory") => some memory
  | memory, ("mode", mode) => if ["ro", "rw", "rwc"].contains mode then some memory else none
  | file path _, ("mode", "ro") => some (file path .read)
  | file path _, ("mode", "rw") => some (file path .update)
  | file path _, ("mode", "rwc") => some (file path .create)
  | _, ("mode", _) => none
  | place, ("cache", cache) => if ["shared", "private"].contains cache then some place else none
  | place, ("vfs", "unix") => some place
  | _, ("vfs", _) => none
  | place, _ => some place

def decodeText? (text : List Char) : Option String :=
  String.fromUTF8? (Url.decode text).toByteArray

def option? (text : List Char) : Option (String × String) :=
  match Text.splitFirst '=' text with
  | none => (decodeText? text).map fun name => (name, "")
  | some (name, value) => do some (← decodeText? name, ← decodeText? value)

/-- The path in an address; the only other computer that it may name is this one. -/
def localPath? (text : List Char) : Option (List Char) :=
  match Text.dropLead? ['/', '/'] text with
  | none => some text
  | some rest =>
    let (authority, path) := rest.span (· ≠ '/')
    if authority.isEmpty || authority = "localhost".toList then some path else none

def ofAddress? (text : List Char) : Option StorePlace := do
  let text := text.takeWhile (· ≠ '#')
  let (path, options) := (Text.splitFirst '?' text).getD (text, [])
  let options ← ((Text.segments '&' options).filter (!·.isEmpty)).mapM option?
  let path ← decodeText? (← localPath? path)
  options.foldlM adjust? (ofPath path .create)

def ofText? (text : String) : Option StorePlace :=
  match Text.dropLead? "file:".toList text.toList with
  | some address => ofAddress? address
  | none => some (ofPath text .create)

end StorePlace

end ModelHub
