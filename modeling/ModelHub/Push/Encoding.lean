import ModelHub.Json.Decoder
import ModelHub.Push.Event
import ModelHub.Push.Setting

/-!
Push payloads and settings as JSON documents, written and read.

The lists of a commit and the list of commits may be left out, which means that they are empty.
-/

namespace ModelHub

open Json (fields required withDefault nullable asText asBool asNat64 asList asName)

def FileAction.toJson (action : FileAction) : Json := .text action.name
def FileAction.ofJson? : Json → Option FileAction := asName FileAction.ofName?

namespace Commit

def toJson (commit : Commit) : Json :=
  .object [("added", .texts commit.added), ("modified", .texts commit.modified),
    ("removed", .texts commit.removed)]

def ofJson? (value : Json) : Option Commit := do
  let [added, modified, removed] ← fields ["added", "modified", "removed"] value | none
  some { added := ← withDefault [] (asList asText) added
         modified := ← withDefault [] (asList asText) modified
         removed := ← withDefault [] (asList asText) removed }

end Commit

namespace PushEvent

def soleText (name : String) (value : Json) : Option String := do
  let [found] ← fields [name] value | none
  required asText found

def headMember (timestamp : String) : String × Json :=
  ("head_commit", .object [("timestamp", .text timestamp)])

def toJson (event : PushEvent) : Json :=
  .object ([("repository", .object [("full_name", .text event.fullName)]),
    ("ref", .text event.reference), ("commits", .arr (event.commits.map Commit.toJson))]
    ++ (event.headTimestamp.map headMember).toList)

def ofJson? (value : Json) : Option PushEvent := do
  let [repository, reference, commits, head] ←
    fields ["repository", "ref", "commits", "head_commit"] value | none
  some { fullName := ← required (soleText "full_name") repository
         reference := ← required asText reference
         commits := ← withDefault [] (asList Commit.ofJson?) commits
         headTimestamp := ← withDefault none (nullable (soleText "timestamp")) head }

end PushEvent

namespace SyncConfig

/-- Time limits are written in whole seconds, rounded down. -/
def toJson (config : SyncConfig) : Json :=
  .object [("default_branch", .text config.defaultBranch),
    ("fetch_timeout", .int config.fetchTimeout.wholeSeconds),
    ("moderation_timeout", .int config.moderationTimeout.wholeSeconds),
    ("sensitive_check", .bool config.sensitiveCheck)]

def ofJson? (value : Json) : Option SyncConfig := do
  let [defaultBranch, fetchTimeout, moderationTimeout, sensitiveCheck] ←
    fields ["default_branch", "fetch_timeout", "moderation_timeout", "sensitive_check"] value
    | none
  some { defaultBranch := ← required asText defaultBranch
         fetchTimeout := .ofSeconds (← required asNat64 fetchTimeout)
         moderationTimeout := .ofSeconds (← required asNat64 moderationTimeout)
         sensitiveCheck := ← required asBool sensitiveCheck }

end SyncConfig

end ModelHub
