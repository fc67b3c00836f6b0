import ModelHub.Command.Arguments
import ModelHub.Command.Site
import ModelHub.Domain.Encoding
import ModelHub.Git.Checkout
import ModelHub.Git.Remote
import ModelHub.Push.Encoding
import ModelHub.Push.Processing
import ModelHub.Review.Endpoint
import ModelHub.Store.Catalogue

namespace ModelHub.Command

inductive Failure where
  | hub (e : HubError)
  | other (message : String)
  deriving DecidableEq, Repr

def Failure.message : Failure → String
  | hub e => e.message
  | other message => message

inductive Verdict where
  | success
  | retry
  | failed
  deriving DecidableEq, Repr

def Verdict.ofResult : PushResult → Verdict
  | .ok _ => success
  | .error failure => if failure.isRetryable then retry else failed

structure Report where
  repository : Repository
  tags : List Tag
  associations : List Association
  deriving DecidableEq, Repr

namespace Report

def categories : List TagCategory := [.library, .declared, .resource, .runtimeFramework]

def tagsOf (report : Report) (category : TagCategory) : List String :=
  (report.tags.filter fun tag => tag.category = category).map Tag.name

/-- Categories without tags are left out. -/
def toJson (report : Report) : Json :=
  let groups := (categories.map fun category => (category.name, report.tagsOf category)).filter
    fun group => !group.2.isEmpty
  .object [("repository", report.repository.toJson),
    ("tags", .object (groups.map fun group => (group.1, .arr (group.2.map .text)))),
    ("runtime_frameworks", .arr (report.associations.map Association.toJson))]

end Report

inductive GitSource where
  | remote (server : RemoteGit)
  | checkout (checkout : Checkout)
  deriving DecidableEq, Repr

variable {m : Type → Type} [Monad m]

abbrev TaskM (m : Type → Type) := ExceptT Failure m

def ofHub {α : Type} (work : ExceptT HubError m α) : TaskM m α :=
  ExceptT.mk do
    match ← work.run with
    | .ok value => pure (.ok value)
    | .error e => pure (.error (.hub e))

def ofExcept {α : Type} (result : Except HubError α) : TaskM m α := ofHub (ExceptT.mk (pure result))

namespace Site

def readDocument {α : Type} (site : Site m) (role title path : String) (decode : Json → Option α) :
    TaskM m α := do
  let content ← ExceptT.lift (site.read path)
  let text := match content with
    | .ok content => String.fromUTF8? content
    | .error _ => none
  match text with
  | none => throw (.other ("Failed to read " ++ role ++ " " ++ path))
  | some text =>
    match (Json.parse? text).bind decode with
    | none => throw (.other ("Invalid " ++ title ++ " " ++ path))
    | some value => return value

def hasOrders (catalogue : Catalogue) : Bool :=
  !catalogue.repositories.isEmpty || !catalogue.frameworks.isEmpty || !catalogue.retired.isEmpty ||
    catalogue.resources.any fun resource => !resource.models.isEmpty

/-- What was loaded before a failure stays. -/
def load (site : Site m) (database file : String) : TaskM m Unit := do
  let catalogue ← site.readDocument "catalog" "catalog" file Catalogue.ofJson?
  let opened ← ofHub (site.openStore database)
  if opened.isReadOnly && hasOrders catalogue then throw (.hub OpenStore.readOnly)
  else
    let (outcome, store) := opened.store.load catalogue
    ofHub (site.save { opened with store := store })
    ofExcept outcome

/-- The content of a file. No server can be reached from here. -/
def fetch (site : Site m) (git : GitSource) (request : FileRequest) :
    m (Except HubError String) := do
  match git with
  | .remote server => return server.fileUrl request >>= fun _ => .error RemoteGit.unreachable
  | .checkout checkout =>
    match checkout.resolve request with
    | .error e => return .error e
    | .ok path => return Checkout.answer request path (← site.read path)

def isOver (site : Site m) (deadline : Option Int) : m Bool := do
  match deadline with
  | none => return false
  | some seconds => return decide (seconds ≤ (← site.now).seconds)

def answer (site : Site m) (git : GitSource) (deadline : Option Int) :
    (call : Call) → StateT OpenStore m (Except HubError call.Reply)
  | .store call => fun opened => pure (opened.perform call)
  | .fetch request _ => fun opened => do return (← site.fetch git request, opened)
  | .submit .. => pure (.error Review.unreachable)
  | .now => fun opened => do return (.ok (← site.now), opened)
  | .isCancelled => fun opened => do return (.ok (← site.isOver deadline), opened)
  | .acquire _ => pure (.ok ())
  | .release _ => pure (.ok ())

def gitSource (options : ApplyOptions) : TaskM m GitSource :=
  match options.gitUrl, options.checkout with
  | some url, _ => do return .remote (← ofExcept (RemoteGit.ofText url))
  | none, some root => return .checkout { root := root }
  | none, none => throw (.other "either --git-url or --checkout is required")

/-- With a moderation service, repositories are handed in for review. -/
def pushOptions (options : ApplyOptions) : Push.Options :=
  { config :=
      { defaultBranch := options.defaultBranch, sensitiveCheck := options.moderationUrl.isSome }
    hasModeration := options.moderationUrl.isSome }

def apply (site : Site m) (options : ApplyOptions) : TaskM m Verdict := do
  let event ← site.readDocument "event" "push event" options.event PushEvent.ofJson?
  let git ← gitSource options
  if let some url := options.moderationUrl then
    let _ ← ofExcept (Review.endpoint url)
  let opened ← ofHub (site.openStore options.database)
  let start ← ExceptT.lift site.now
  let deadline := options.deadline.map fun seconds => start.seconds + seconds
  let (result, opened) ← ExceptT.lift
    (((Push.handle (pushOptions options) event).interpret (site.answer git deadline)).run opened)
  ofHub (site.save opened)
  return .ofResult result

def report (site : Site m) (database fullName : String) : TaskM m Report := do
  let identity ← ofExcept (RepoIdentity.parse fullName)
  match identity.repoType with
  | none => throw (.other ("unsupported repository type '" ++ identity.typeToken ++ "'"))
  | some repoType =>
    let opened ← ofHub (site.openStore database)
    match ← ofExcept (opened.store.findRepository repoType identity.owner identity.name) with
    | none => throw (.other ("Repository " ++ identity.display ++ " not found"))
    | some repository =>
      return { repository := repository
               tags := ← ofExcept (opened.store.tagsOf repository.id none)
               associations := opened.store.associationsOf repository.id }

end Site

/-- The exit status that asks for the push to be delivered again. -/
def retryStatus : Nat := 75

def Verdict.status : Verdict → Nat
  | success => 0
  | retry => retryStatus
  | failed => 1

def Halt.status : Halt → Nat
  | help => 0
  | misuse _ => 2

structure Ending where
  status : Nat
  report : Option Json := none
  failure : Option Failure := none
  halt : Option Halt := none

def Site.run (site : Site m) : Task → m Ending
  | .load database file => do
    match ← (site.load database file).run with
    | .ok _ => return { status := 0 }
    | .error failure => return { status := 1, failure := some failure }
  | .apply options => do
    match ← (site.apply options).run with
    | .ok verdict => return { status := verdict.status }
    | .error failure => return { status := 1, failure := some failure }
  | .report database repository => do
    match ← (site.report database repository).run with
    | .ok report => return { status := 0, report := some report.toJson }
    | .error failure => return { status := 1, failure := some failure }

def Site.runLine (site : Site m) (environment : Environment) (arguments : List String) : m Ending :=
  match parse environment arguments with
  | .error halt => pure { status := halt.status, halt := some halt }
  | .ok invocation => site.run invocation.task

end ModelHub.Command
