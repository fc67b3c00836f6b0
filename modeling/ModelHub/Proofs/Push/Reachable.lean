import ModelHub.Proofs.Engine.Conditions
import ModelHub.Proofs.Store.Lawful
import ModelHub.Push.Processing

namespace ModelHub

theorem Program.run_keeps {σ α : Type} {handler : Handler σ} {kept : σ → Prop}
    (step : ∀ call state, kept state → kept (handler call state).2) (program : Program α)
    {state : σ} (holds : kept state) : kept (run handler program state).2 := by
  induction program generalizing state with
  | done value => exact holds
  | ask call next ih =>
    have after := step call state holds
    unfold run
    split
    · next reply state' answered =>
      rw [answered] at after
      exact ih reply after
    · next state' answered =>
      rw [answered] at after
      exact after

namespace Store

theorem Lawful.run {store : Store} (lawful : store.Lawful) {α : Type} (conditions : Conditions)
    (program : Program α) : (conditions.run program store).2.store.Lawful := by
  let kept (course : Course) : Prop := course.store.Lawful
  refine @Program.run_keeps _ _ _ kept ?_ program _ lawful
  intro call course isLawful
  cases call with
  | store request =>
    show (conditions.reply course.log.length (.store request) course.store).2.Lawful
    unfold Conditions.reply
    split
    · exact isLawful.perform request
    · exact isLawful
  | _ => exact isLawful

inductive Reachable : Store → Prop where
  | empty : Reachable {}
  | upsertRepository {store : Store} (repoType : RepoType) (owner name defaultBranch : String)
      (reachable : Reachable store) :
      Reachable (store.upsertRepository repoType owner name defaultBranch)
  | markMirror {store : Store} (repositoryId : Int) (source : String)
      (reachable : Reachable store) : Reachable (store.markMirror repositoryId source)
  /-- The framework may be there, under another name and with another tag. -/
  | upsertFramework {store : Store} (framework : Framework) (reachable : Reachable store) :
      Reachable (store.upsertFramework framework)
  | removeFramework {store : Store} (id : Int) (reachable : Reachable store) :
      Reachable (store.removeFramework id).2
  | addArchitecture {store : Store} (frameworkId : Int) (architecture : String)
      (reachable : Reachable store) : Reachable (store.addArchitecture frameworkId architecture)
  | addModel {store : Store} (frameworkId : Int) (model : String) (reachable : Reachable store) :
      Reachable (store.addModel frameworkId model)
  | addResource {store : Store} (resource model : String) (reachable : Reachable store) :
      Reachable (store.addResource resource model)
  | push {store : Store} (conditions : Conditions) (options : Push.Options) (event : PushEvent)
      (reachable : Reachable store) :
      Reachable (conditions.run (Push.handle options event) store).2.store

theorem Reachable.lawful {store : Store} (reachable : store.Reachable) : store.Lawful := by
  induction reachable with
  | empty => exact lawful_empty
  | upsertRepository repoType owner name defaultBranch _ ih =>
    exact ih.upsertRepository repoType owner name defaultBranch
  | markMirror repositoryId source _ ih => exact ih.markMirror repositoryId source
  | upsertFramework framework _ ih => exact ih.upsertFramework framework
  | removeFramework id _ ih => exact ih.removeFramework id
  | addArchitecture frameworkId architecture _ ih => exact ih.addCompatibility _
  | addModel frameworkId model _ ih => exact ih.addCompatibility _
  | addResource resource model _ ih => exact ih.addResource resource model
  | push conditions options event _ ih => exact ih.run conditions (Push.handle options event)

def bert : Store :=
  let registered := ({} : Store).upsertRepository .model "acme" "bert" "main"
  let catalogued := registered.upsertFramework
    { id := 7, name := "vLLM", tagName := "vllm", frameworkType := 1 }
  catalogued.addArchitecture 7 "BertModel"

theorem bert_reachable : bert.Reachable :=
  .addArchitecture _ _ (.upsertFramework _ (.upsertRepository _ _ _ _ .empty))

end Store

def bertConfig : String := "\x7b\"architectures\": [\"BertModel\"]\x7d"

def bertFiles (_ : FileRequest) : Except HubError String := .ok bertConfig

theorem bertConfig_architecture : ModelConfig.architecture bertConfig = .ok "BertModel" := by
  decide +kernel

theorem bertFiles_steady : (Conditions.calm bertFiles).Steady :=
  Conditions.calm_steady fun _ => by simp [bertFiles]

def bertPush : PushEvent where
  fullName := "models_acme/bert"
  reference := "refs/heads/main"
  commits := [{ modified := [modelConfigFile] }]

def bertPlace : RepositoryPlace where
  id := 1
  repoType := .model
  owner := "acme"
  name := "bert"
  defaultBranch := "main"

def Push.Options.plain : Push.Options := { config := {}, hasModeration := false }

end ModelHub
