import ModelHub.Text.Quoted
import ModelHub.Time.Duration

namespace ModelHub

inductive ErrorKind where
  | absent
  | malformed
  | store
  | outage
  | cancelled
  | invalid
  deriving DecidableEq, Repr

inductive HubError where
  | repositoryMissing (repoType owner name : String)
  | manifestMissing (path reference : String)
  | malformed (file message : String)
  | invalidEvent (message : String)
  | database (message : String)
  | unavailable (service message : String)
  | timedOut (limit : Duration)
  | cancelled
  | io (message : String) (path : Option String)
  | configuration (message : String)
  deriving DecidableEq, Repr

namespace HubError

def kind : HubError → ErrorKind
  | repositoryMissing .. => .absent
  | manifestMissing .. => .absent
  | malformed .. => .malformed
  | invalidEvent _ => .invalid
  | database _ => .store
  | unavailable .. => .outage
  | timedOut _ => .outage
  | cancelled => .cancelled
  | io .. => .store
  | configuration _ => .invalid

/-- Redelivering the push could succeed where this attempt failed. -/
def isRetryable (e : HubError) : Bool :=
  match e.kind with
  | .store | .outage | .cancelled => true
  | .absent | .malformed | .invalid => false

def isSkippable (e : HubError) : Bool :=
  match e.kind with
  | .absent | .malformed => true
  | .store | .outage | .cancelled | .invalid => false

def placeText : Option String → String
  | none => "None"
  | some path => "Some(" ++ Text.quoted path ++ ")"

def message : HubError → String
  | repositoryMissing repoType owner name =>
    "Repository not found: " ++ repoType ++ "/" ++ owner ++ "/" ++ name
  | manifestMissing path reference => "Manifest " ++ path ++ " not found at " ++ reference
  | malformed file message => "Failed to parse " ++ file ++ ": " ++ message
  | invalidEvent message => "Invalid push event: " ++ message
  | database message => "Database error: " ++ message
  | unavailable service message => service ++ " unavailable: " ++ message
  | timedOut limit => "Request timeout after " ++ limit.text
  | cancelled => "Push processing cancelled"
  | io message path => "IO error at " ++ placeText path ++ ": " ++ message
  | configuration message => "Configuration error: " ++ message

end HubError

end ModelHub
