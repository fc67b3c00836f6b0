import ModelHub.Engine.Program
import ModelHub.Manifest.ModelConfig
import ModelHub.Push.Event
import ModelHub.Push.Setting
import ModelHub.Reconcile.Difference
import ModelHub.Tagging.Service

/-!
Reconciliation of a model with the compatibility catalogue: its associations become those the
catalogue offers for its architecture and name, and its framework tags follow them.
-/

namespace ModelHub.Reconcile

open Work (askStore attempt attemptEach perform checkpoint)

/-- Only the configuration at the root of a model sets off a reconciliation. -/
def triggers (identity : RepoIdentity) (path : String) : Bool :=
  identity.repoType = some .model && path = modelConfigFile

def expectedReference (config : SyncConfig) (repository : Repository) : String :=
  branchReference
    (if repository.defaultBranch = "" then config.defaultBranch else repository.defaultBranch)

structure Report where
  architecture : String
  added : List Int
  removed : List Int
  unchanged : List Int
  resources : List String
  staleTags : List String
  failures : List HubError
  deriving DecidableEq, Repr

inductive Outcome where
  | notApplicable
  | notDefaultBranch (reference expected : String)
  | cleared (associations tags : Nat)
  | reconciled (report : Report)
  deriving DecidableEq, Repr

structure Desired where
  candidates : List Candidate := []
  frameworks : List Framework := []
  deriving DecidableEq, Repr

namespace Desired

def tagNames (desired : Desired) : List String := desired.frameworks.map Framework.tagName

/-- A framework takes the place of an earlier one of its number. -/
def add (candidate : Candidate) (framework : Framework) (desired : Desired) : Desired :=
  { candidates := Difference.insertCandidate candidate desired.candidates
    frameworks := framework :: desired.frameworks.filter fun other => other.id ≠ framework.id }

def framework? (desired : Desired) (id : Int) : Option Framework :=
  desired.frameworks.find? fun framework => framework.id = id

end Desired

/-- Looks up the frameworks of the candidates; the first candidate of a framework counts. -/
def resolve : List Candidate → Desired → Work Desired
  | [], desired => pure desired
  | candidate :: rest, desired =>
    if Difference.isDesired desired.candidates candidate.frameworkId then resolve rest desired
    else do
      match ← askStore (.findFramework candidate.frameworkId) with
      | some framework => resolve rest (desired.add candidate framework)
      | none => resolve rest desired

def desiredFor (architecture model : String) : Work Desired := do
  resolve (← askStore (.listCandidates architecture model)) {}

def linkResource (repositoryId : Int) (resource : String) : Work Unit := do
  let _ ← Tagging.link repositoryId .model .resource "" resource

/-- The tag of a removed framework stays linked if a desired framework bears it too. -/
def removeAssociation (repositoryId : Int) (desired : Desired) (stored : Association) :
    Work Unit := do
  let _ ← askStore (.dissociate { stored with repositoryId := repositoryId })
  match ← askStore (.findFramework stored.frameworkId) with
  | none => return ()
  | some framework =>
    if desired.tagNames.contains framework.tagName then return ()
    let _ ← Tagging.unlink repositoryId .model .runtimeFramework "" framework.tagName

def notInCatalogue (frameworkId : Int) : HubError :=
  .database ("runtime framework " ++ toString frameworkId ++ " missing from catalog")

def addAssociation (repositoryId : Int) (desired : Desired) (candidate : Candidate) :
    Work Unit := do
  match desired.framework? candidate.frameworkId with
  | none => throw (notInCatalogue candidate.frameworkId)
  | some framework =>
    let _ ← askStore (.associate
      { repositoryId := repositoryId, frameworkId := candidate.frameworkId
        associationType := candidate.associationType })
    let _ ← Tagging.link repositoryId .model .runtimeFramework "" framework.tagName

def tagNamesOf : List Association → Work (List String)
  | [] => pure []
  | stored :: rest => do
    let framework ← askStore (.findFramework stored.frameworkId)
    let later ← tagNamesOf rest
    return (framework.map Framework.tagName).toList ++ later

/-- Unlinks the framework tags whose names nothing backs, and gives the names that were linked. -/
def unlinkUnbacked (repositoryId : Int) (backed : List String) : List Tag → Work (List String)
  | [] => pure []
  | tag :: rest => do
    if backed.contains tag.name then unlinkUnbacked repositoryId backed rest
    else
      let present ←
        Tagging.unlink repositoryId tag.scope .runtimeFramework tag.group tag.name
      let later ← unlinkUnbacked repositoryId backed rest
      return if present then tag.name :: later else later

/-- A framework tag is backed by a desired framework or by a stored association. -/
def pruneTags (repositoryId : Int) (desired : Desired) : Work (List String) := do
  let stored ← askStore (.listAssociations repositoryId)
  let names ← tagNamesOf stored
  let tags ← askStore (.listTags repositoryId (some .runtimeFramework))
  unlinkUnbacked repositoryId (desired.tagNames ++ names) tags

def errorOf {α : Type} : Except HubError α → List HubError
  | .ok _ => []
  | .error e => [e]

def valuesOf {α : Type} : Except HubError (List α) → List α
  | .ok values => values
  | .error _ => []

/-- Brings a model to its desired state, as far as every single step succeeds. -/
def settle (repository : Repository) (architecture : String) : Work Report := do
  let resources ← askStore (.listResources repository.modelName)
  let linked ← attemptEach (linkResource repository.id) resources
  let desired ← desiredFor architecture repository.modelName
  let stored ← askStore (.listAssociations repository.id)
  let difference := Difference.between stored desired.candidates
  let removed ← attemptEach (removeAssociation repository.id desired) difference.toRemove
  let added ← attemptEach (addAssociation repository.id desired) difference.toAdd
  checkpoint
  let stale ← perform (attempt (pruneTags repository.id desired))
  return { architecture := architecture
           added := added.succeeded.map Candidate.frameworkId
           removed := removed.succeeded.map Association.frameworkId
           unchanged := difference.unchanged
           resources := linked.succeeded
           staleTags := valuesOf stale
           failures := linked.failures ++ removed.failures ++ added.failures ++ errorOf stale }

def configRequest (repository : Repository) (reference : String) : FileRequest :=
  { repoType := .model, owner := repository.owner, name := repository.name
    reference := reference, path := modelConfigFile }

def recompute (config : SyncConfig) (repository : Repository) (reference : String) :
    Work Outcome := do
  let content ← Work.fetch (configRequest repository reference) config.fetchTimeout
  let architecture ← ExceptT.mk (pure (ModelConfig.architecture content))
  return .reconciled (← settle repository architecture)

def unlinkAll (repositoryId : Int) : List Tag → Work Nat
  | [] => pure 0
  | tag :: rest => do
    let present ← Tagging.unlink repositoryId tag.scope .runtimeFramework tag.group tag.name
    let later ← unlinkAll repositoryId rest
    return if present then later + 1 else later

def clear (repository : Repository) : Work Outcome := do
  checkpoint
  let associations ← askStore (.dissociateAll repository.id)
  let tags ← askStore (.listTags repository.id (some .runtimeFramework))
  return .cleared associations (← unlinkAll repository.id tags)

def revise (config : SyncConfig) (repository : Repository) (reference : String) :
    FileAction → Work Outcome
  | .removed => clear repository
  | .added => recompute config repository reference
  | .modified => recompute config repository reference

def reconcile (config : SyncConfig) (identity : RepoIdentity) (reference path : String)
    (action : FileAction) : Work Outcome := do
  if !triggers identity path then return .notApplicable
  let repository ← Tagging.findRepository .model identity.owner identity.name
  let expected := expectedReference config repository
  if reference ≠ expected then return .notDefaultBranch reference expected
  Work.holding repository.id (revise config repository reference action)

end ModelHub.Reconcile
