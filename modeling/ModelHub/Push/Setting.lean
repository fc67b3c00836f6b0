import ModelHub.Time.Duration

namespace ModelHub

def readmeFile : String := "README.md"
def modelConfigFile : String := "config.json"

def branchReference (branch : String) : String := "refs/heads/" ++ branch

structure SyncConfig where
  /-- Stands in for repositories that record no default branch. -/
  defaultBranch : String := "main"
  fetchTimeout : Duration := .ofSeconds 10
  moderationTimeout : Duration := .ofSeconds 5
  sensitiveCheck : Bool := false
  deriving DecidableEq, Repr, Inhabited

end ModelHub
