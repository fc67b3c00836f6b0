import ModelHub.Command.Tasks
import ModelHub.Json.Writer
import Std.Time.DateTime.Timestamp

namespace ModelHub.Command

def faultOf : IO.Error → FileFault
  | .noFileOrDirectory .. => .absent
  | e => .unreadable (toString e)

def currentInstant : IO Instant := do
  let now ← Std.Time.Timestamp.now
  let nanos := now.toNanosecondsSinceUnixEpoch.val
  return { seconds := nanos / 1000000000, nanos := (nanos % 1000000000).toNat }

def isThere (path : String) : IO Bool := do
  match ← (IO.FS.Handle.mk path .read).toBaseIO with
  | .ok _ => return true
  | .error (.noFileOrDirectory ..) => return false
  | .error (.inappropriateType ..) => return false
  | .error _ => return true

def thisSite : Site IO where
  read path := do
    match ← (IO.FS.readBinFile path).toBaseIO with
    | .ok content => return .ok content
    | .error e => return .error (faultOf e)
  write path content := do
    match ← (IO.FS.writeBinFile path content).toBaseIO with
    | .ok _ => return .ok ()
    | .error e => return .error (faultOf e)
  isThere := isThere
  makeDirectories path := do
    match ← (IO.FS.createDirAll path).toBaseIO with
    | .ok _ => return true
    | .error _ => return false
  now := currentInstant

def variableNames : List String := ["HUBSYNC_DB", "HUBSYNC_GIT_URL", "HUBSYNC_MODERATION_URL"]

def environment : IO Environment := do
  let found ← variableNames.filterMapM fun name => do
    return (← IO.getEnv name).map fun value => (name, value)
  return fun name => found.lookup name

end ModelHub.Command

open ModelHub.Command in
def main (arguments : List String) : IO UInt32 := do
  let ending ← thisSite.runLine (← environment) arguments
  match ending.halt with
  | none => pure ()
  | some .help => IO.println usage
  | some (.misuse reason) => IO.eprintln ("error: " ++ reason ++ "\n\n" ++ usage)
  if let some report := ending.report then IO.println report.pretty
  if let some failure := ending.failure then IO.eprintln ("Error: " ++ failure.message)
  return ending.status.toUInt32
