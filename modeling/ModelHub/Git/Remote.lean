import ModelHub.Engine.Call
import ModelHub.Failure.Error
import ModelHub.Url.Parser

namespace ModelHub

/-- The address of the server. Its path, if it has segments, ends in a slash. -/
structure RemoteGit where
  base : Url
  deriving DecidableEq, Repr

namespace RemoteGit

def unusable (text : String) : HubError :=
  .configuration ("Invalid git server URL '" ++ text ++ "': " ++ Url.complaint)

def unaddressable (path : String) : HubError :=
  .configuration ("Invalid raw file path '" ++ path ++ "': " ++ Url.complaint)

def closePath : UrlPath → UrlPath
  | .whole text => .whole text
  | .segments path => .segments (Url.Path.closed path)

def ofText (text : String) : Except HubError RemoteGit :=
  match Url.parse? text with
  | some url => .ok { base := { url with path := closePath url.path } }
  | none => .error (unusable text)

def serviceName : String := "git"

def unreachable : HubError := .unavailable serviceName Url.noConnection

def encodeSegment (text : String) : String :=
  String.ofList (Url.encode Url.isUnreserved text.toList)

def fileSegments (path : String) : List String :=
  ((Text.segments '/' path.toList).map String.ofList).filter (· ≠ "")

def location (request : FileRequest) : String :=
  "api/v1/repos/" ++ request.repoType.plural ++ "_" ++ encodeSegment request.owner ++ "/" ++
    encodeSegment request.name ++ "/raw/" ++
    Text.join "/" ((fileSegments request.path).map encodeSegment)

def referenceQuery (reference : String) : String :=
  "ref=" ++ String.ofList (Url.encodeForm reference.toList)

def fileUrl (server : RemoteGit) (request : FileRequest) : Except HubError Url :=
  match server.base.resolve? (location request).toList with
  | some url => .ok { url with query := some (referenceQuery request.reference) }
  | none => .error (unaddressable request.path)

end RemoteGit

end ModelHub
