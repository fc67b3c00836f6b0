import ModelHub.Failure.Error
import ModelHub.Url.Parser

namespace ModelHub.Review

def unusable (text : String) : HubError :=
  .configuration ("Invalid moderation URL '" ++ text ++ "': " ++ Url.complaint)

def unreachable : HubError := .unavailable "moderation" Url.noConnection

def location : String := "api/v1/repo/check"

/-- Where repositories are handed in. The last segment of the base does not count. -/
def endpoint (base : String) : Except HubError Url :=
  match (Url.parse? base).bind fun url => url.resolve? location.toList with
  | some url => .ok url
  | none => .error (unusable base)

end ModelHub.Review
