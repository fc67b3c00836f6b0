import ModelHub.Failure.PushFailure
import ModelHub.Reconcile.Reconciliation
import ModelHub.Time.Rfc3339

/-!
The processing of a push: every commit in order, in each commit the modified, the removed and the
added files. A failing file never stops the others; cancellation stops all that follows.
-/

namespace ModelHub.Push

open Work (askStore attempt isCancelled)

structure Options where
  config : SyncConfig
  hasModeration : Bool
  deriving DecidableEq, Repr

structure Progress where
  errors : List HubError
  isStopped : Bool
  deriving DecidableEq, Repr

namespace Progress

def clean : Progress := { errors := [], isStopped := false }

/-- Cancellation stops, any other error is only noted. -/
def ofOutcome : Except HubError Unit → Progress
  | .ok _ => clean
  | .error e => { errors := [e], isStopped := e = .cancelled }

def after (earlier later : Progress) : Progress :=
  { later with errors := earlier.errors ++ later.errors }

def andThen (first second : Program Progress) : Program Progress := do
  let earlier ← first
  if earlier.isStopped then return earlier
  else return earlier.after (← second)

def each {α : Type} (step : α → Program Progress) : List α → Program Progress
  | [] => pure clean
  | value :: rest => andThen (step value) (each step rest)

def record (work : Work Unit) : Program Progress := do
  return ofOutcome (← attempt work)

end Progress

open Progress (andThen each record)

/-- The outcome of a reconciliation as progress. Missing and malformed files are passed over. -/
def reconciled : Except HubError Reconcile.Outcome → Progress
  | .ok (.reconciled report) => { errors := report.failures, isStopped := false }
  | .ok _ => .clean
  | .error e => if e.isSkippable then .clean else .ofOutcome (.error e)

def reconcileFile (options : Options) (identity : RepoIdentity) (reference path : String)
    (action : FileAction) : Program Progress :=
  if Reconcile.triggers identity path then do
    return reconciled (← attempt (Reconcile.reconcile options.config identity reference path action))
  else pure .clean

def readmeRequest (repoType : RepoType) (identity : RepoIdentity) (reference : String) :
    FileRequest :=
  { repoType := repoType, owner := identity.owner, name := identity.name
    reference := reference, path := readmeFile }

/-- Declared tags follow the README; without it there are none. -/
def applyReadme (options : Options) (identity : RepoIdentity) (reference : String)
    (action : FileAction) : Work Unit :=
  match identity.scope with
  | none => pure ()
  | some scope => do
    if action = .removed then
      let _ ← Tagging.clearDeclared scope identity.owner identity.name
    else
      let content ← Work.fetch (readmeRequest scope.repoType identity reference)
        options.config.fetchTimeout
      let _ ← Tagging.applyDeclared scope identity.owner identity.name content

def updateLibrary (identity : RepoIdentity) (path : String) : FileAction → Work Unit
  | .modified => pure ()
  | .removed => Tagging.updateLibrary identity.typeToken identity.owner identity.name path ""
  | .added => Tagging.updateLibrary identity.typeToken identity.owner identity.name "" path

def handleFile (options : Options) (identity : RepoIdentity) (reference : String)
    (action : FileAction) (path : String) : Program Progress := do
  if ← isCancelled then return .ofOutcome (.error .cancelled)
  else
    andThen (reconcileFile options identity reference path action)
      (record (if path = readmeFile then applyReadme options identity reference action
        else updateLibrary identity path action))

/-- The files of a list that are handled: nothing behind the first README. -/
def untilReadme : List String → List String
  | [] => []
  | path :: rest => if path = readmeFile then [path] else path :: untilReadme rest

def handleList (options : Options) (identity : RepoIdentity) (reference : String)
    (commit : Commit) (action : FileAction) : Program Progress :=
  each (handleFile options identity reference action) (untilReadme (commit.files action))

def handleCommit (options : Options) (identity : RepoIdentity) (reference : String)
    (commit : Commit) : Program Progress :=
  each (handleList options identity reference commit) FileAction.order

def updateInfos (options : Options) (event : PushEvent) : Program PushResult :=
  match event.identity with
  | .error e => pure (.error (.single e))
  | .ok identity => do
    let progress ← each (handleCommit options identity event.reference) event.commits
    return .ofErrors progress.errors

def headTime (event : PushEvent) : Except HubError Instant :=
  match event.headTimestamp with
  | none => .error (.malformed "head_commit" "mirror push without head commit")
  | some text =>
    match Rfc3339.parse? text with
    | some instant => .ok instant
    | none => .error (.malformed "head_commit.timestamp"
        ("invalid timestamp '" ++ text ++ "': " ++ Rfc3339.complaint))

/-- Records when a repository changed: a mirror takes the time of the head commit, and its mirror
record is stamped; all others take the current time. -/
def setUpdateTime (event : PushEvent) : Work Unit := do
  let identity ← ExceptT.mk (pure event.identity)
  match identity.repoType with
  | none => return ()
  | some repoType =>
    let repository ← Tagging.findRepository repoType identity.owner identity.name
    let now ← Work.ask .now
    if repository.isMirror then
      let instant ← ExceptT.mk (pure (headTime event))
      askStore (.setUpdatedAt repository.id instant)
      let _ ← askStore (.touchMirror repository.id now)
    else askStore (.setUpdatedAt repository.id now)

def submitForReview (options : Options) (event : PushEvent) : Work Unit := do
  if options.hasModeration && options.config.sensitiveCheck then
    let identity ← ExceptT.mk (pure event.identity)
    if let some repoType := identity.repoType then
      Work.ask (.submit repoType identity.owner identity.name options.config.moderationTimeout)

def errorsOf (work : Work Unit) : Program (List HubError) := do
  return Reconcile.errorOf (← attempt work)

/-- Processes a whole push: the update time, then all files, then the review unless the push has
been cancelled. -/
def handle (options : Options) (event : PushEvent) : Program PushResult :=
  match event.identity with
  | .error e => pure (.error (.single e))
  | .ok _ => do
    let timeErrors ← errorsOf (setUpdateTime event)
    let infoErrors := (← updateInfos options event).errors
    let reviewErrors ← if ← isCancelled then pure []
      else errorsOf (submitForReview options event)
    return .ofErrors (timeErrors ++ infoErrors ++ reviewErrors)

end ModelHub.Push
