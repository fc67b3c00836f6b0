import ModelHub.Domain.Encoding
import ModelHub.Push.Encoding
import ModelHub.Failure.PushFailure
import ModelHub.Manifest.LibraryTag
import ModelHub.Manifest.ModelConfig
import ModelHub.Manifest.FrontMatter
import ModelHub.Manifest.MetaTags
import ModelHub.Reconcile.Difference
import ModelHub.Json.Reader
import ModelHub.Json.Writer
import ModelHub.Concurrency.LockDesk
import ModelHub.Concurrency.Tokens
import ModelHub.Engine.Trial
import ModelHub.Push.Processing
import ModelHub.Store.Catalogue
import ModelHub.Git.Remote
import ModelHub.Review.Endpoint
import ModelHub.Git.Checkout
import ModelHub.Command.Workspace
import ModelHub.Store.Raw
import ModelHub.Store.Schema
import ModelHub.Main
import ModelHub.Proofs.Engine.Conditions
import ModelHub.Proofs.Engine.Leads
import ModelHub.Proofs.Store.Lawful
import ModelHub.Proofs.Store.Profile
import ModelHub.Proofs.Store.Revision
import ModelHub.Proofs.Engine.Answers
import ModelHub.Proofs.Push.Change
import ModelHub.Proofs.Engine.Scene
import ModelHub.Proofs.Tagging.Service
import ModelHub.Proofs.Push.Agenda
import ModelHub.Proofs.Reconcile.Desired
import ModelHub.Proofs.Reconcile.Settling
import ModelHub.Proofs.Reconcile.Settlement
import ModelHub.Proofs.Push.Effect
import ModelHub.Proofs.Push.Idempotence
import ModelHub.Proofs.Push.Redelivery
import ModelHub.Proofs.Push.Reachable
import ModelHub.Proofs.Push.Mirror
import ModelHub.Proofs.Time.Calendar
import ModelHub.Proofs.Time.Rfc3339
import ModelHub.Proofs.Engine.Dialogue
import ModelHub.Proofs.Engine.Account
import ModelHub.Proofs.Reconcile.Account
import ModelHub.Proofs.Push.Account
import ModelHub.Proofs.Push.Dispatch
import ModelHub.Proofs.Push.Outage
import ModelHub.Proofs.Push.Review
import ModelHub.Proofs.Push.UpdateTime
import ModelHub.Proofs.Engine.Abides
import ModelHub.Proofs.Reconcile.Belongings
import ModelHub.Proofs.Engine.Precinct
import ModelHub.Proofs.Push.Confinement
import ModelHub.Proofs.Concurrency.LockLine
import ModelHub.Proofs.Concurrency.LockPool
import ModelHub.Proofs.Engine.Calm
import ModelHub.Proofs.Reconcile.Descent
import ModelHub.Proofs.Reconcile.Pass
import ModelHub.Proofs.Concurrency.Crew
import ModelHub.Proofs.Concurrency.CrewHistory
import ModelHub.Proofs.Concurrency.CrewOrder
import ModelHub.Proofs.Concurrency.Serial
import ModelHub.Proofs.Files.Beneath
import ModelHub.Proofs.Git.Checkout
import ModelHub.Proofs.Engine.Keeps
import ModelHub.Proofs.Store.Categories
import ModelHub.Proofs.Store.WellFormed
import ModelHub.Proofs.Store.Regime
import ModelHub.Proofs.Tagging.Regime
import ModelHub.Proofs.Reconcile.Regime
import ModelHub.Proofs.Push.Handlers
import ModelHub.Proofs.Push.Gates
import ModelHub.Proofs.Push.Growth
import ModelHub.Proofs.Engine.Unfailing
import ModelHub.Proofs.Manifest.LibraryView
import ModelHub.Proofs.Tagging.Library
import ModelHub.Proofs.Push.LibraryHistory
import ModelHub.Proofs.Concurrency.WakeUps
import ModelHub.Proofs.Concurrency.TokenMoves
import ModelHub.Proofs.Concurrency.TokenSchedule
import ModelHub.Proofs.Concurrency.Cancellation
import ModelHub.Proofs.Push.Calls
import ModelHub.Proofs.Push.Records
import ModelHub.Proofs.Push.Unresolved
import ModelHub.Proofs.Engine.Transcript
import ModelHub.Proofs.Reconcile.Breach
import ModelHub.Proofs.Push.Passes
import ModelHub.Proofs.Engine.Attempts
import ModelHub.Proofs.Reconcile.Proceedings
import ModelHub.Proofs.Reconcile.Pieces
import ModelHub.Proofs.Reconcile.Convergence
import ModelHub.Proofs.Push.Complaints
import ModelHub.Proofs.Push.Commuting
import ModelHub.Proofs.Reconcile.Removal
import ModelHub.Proofs.Tagging.Replacement
import ModelHub.Proofs.Push.Walk
import ModelHub.Proofs.Push.Toggles
import ModelHub.Proofs.Engine.Heeding
import ModelHub.Proofs.Push.Interruption
import ModelHub.Proofs.Text.Case
import ModelHub.Proofs.Text.Split
import ModelHub.Proofs.Text.Pattern
import ModelHub.Proofs.Store.Compatibility
import ModelHub.Proofs.Reconcile.LookUp
import ModelHub.Proofs.Store.Register
import ModelHub.Proofs.Store.Loading
import ModelHub.Proofs.Manifest.FrontMatter
import ModelHub.Proofs.Manifest.FrontMatterPattern
import ModelHub.Proofs.Text.Blank
import ModelHub.Proofs.Yaml.Mapping
import ModelHub.Proofs.Manifest.DeclaredTags
import ModelHub.Proofs.Url.Percent
import ModelHub.Proofs.Url.Path
import ModelHub.Proofs.Url.Parser
import ModelHub.Proofs.Git.Remote
import ModelHub.Proofs.Review.Endpoint
import ModelHub.Proofs.Json.Numeral
import ModelHub.Proofs.Json.Quoted
import ModelHub.Proofs.Json.Grammar
import ModelHub.Proofs.Json.Writer
import ModelHub.Proofs.Json.Revision
import ModelHub.Proofs.Push.Encoding
import ModelHub.Proofs.Domain.Identity
import ModelHub.Proofs.Reconcile.Difference
import ModelHub.Proofs.Concurrency.Fetching
import ModelHub.Proofs.Engine.Fetching
import ModelHub.Proofs.Manifest.ModelConfig
import ModelHub.Proofs.Manifest.LibraryRules
