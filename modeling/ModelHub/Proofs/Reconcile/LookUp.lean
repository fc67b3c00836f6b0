import ModelHub.Proofs.Engine.Unfailing
import ModelHub.Proofs.Push.Reachable
import ModelHub.Proofs.Reconcile.Breach
import ModelHub.Proofs.Store.Compatibility

namespace ModelHub

def Exchange.isVain : Exchange → Bool
  | ⟨.store (.findFramework _), .ok none⟩ => true
  | _ => false

theorem Program.Transcript.keeps {σ α : Type} {answers : Answers σ} (kept : σ → Prop)
    (step : ∀ call state reply after, answers call state reply after → kept state → kept after)
    {program : Program α} {state last : σ} {said : List Exchange} {value : α}
    (transcript : Transcript answers program state said value last) (holds : kept state) :
    kept last := by
  induction program generalizing state said with
  | done result =>
    obtain ⟨-, -, rfl⟩ := transcript
    exact holds
  | ask call next ih =>
    obtain ⟨reply, rest, middle, -, answered, onward⟩ := transcript
    exact ih reply onward (step call state reply middle answered holds)

namespace Store

structure Continues (store after : Store) : Prop where
  lawful : after.Lawful
  catalogue : store.SameCatalogue after

theorem continues_of_transcript {α : Type} {faults : HubError → Prop} {program : Program α}
    {store after : Store} {said : List Exchange} {value : α} (lawful : store.Lawful)
    (transcript : Program.Transcript (possibleAnswers faults) program store said value after) :
    store.Continues after := by
  refine transcript.keeps store.Continues ?_ ⟨lawful, .rfl⟩
  intro call before reply after answered continues
  cases call with
  | store request =>
    rcases anyAnswers_of_possible answered with performed | ⟨-, rfl⟩
    · obtain rfl : (before.perform request).2 = after := congrArg Prod.snd performed
      exact ⟨continues.lawful.perform request,
        continues.catalogue.trans (perform_sameCatalogue request before)⟩
    · exact continues
  | _ =>
    obtain rfl : after = before := anyAnswers_of_possible answered
    exact continues

end Store

namespace Reconcile

open Program (Transcript)
open Store (possibleAnswers)

variable {faults : HubError → Prop} {store after : Store} {said : List Exchange}

/-- A map from frameworks to candidates and one to frameworks, both with the same keys: some candidates
have been added, each with the framework that the store has under its number. -/
structure Desired.Extends (desired : Desired) (store : Store) (added : List Candidate)
    (last : Desired) : Prop where
  candidates : last.candidates = desired.candidates ++ added
  frameworks : ∀ id, last.framework? id =
    if Difference.isDesired added id then store.framework? id else desired.framework? id

theorem insertCandidate_last {candidate : Candidate} {candidates : List Candidate}
    (behind : ∀ other ∈ candidates, other.Before candidate) :
    Difference.insertCandidate candidate candidates = candidates ++ [candidate] := by
  induction candidates with
  | nil => rfl
  | cons head tail ih =>
    obtain ⟨first, later⟩ := List.forall_mem_cons.mp behind
    have notBefore : ¬candidate.frameworkId < head.frameworkId := not_lt_of_gt first
    have differs : ¬candidate.frameworkId = head.frameworkId := ne_of_gt first
    rw [Difference.insertCandidate, if_neg notBefore, if_neg differs, ih later]
    rfl

theorem Desired.framework?_add (candidate : Candidate) (framework : Framework) (desired : Desired)
    (id : Int) : (desired.add candidate framework).framework? id =
      if framework.id = id then some framework else desired.framework? id := by
  unfold Desired.framework? Desired.add
  by_cases same : framework.id = id
  · rw [if_pos same]
    exact List.find?_cons_of_pos (decide_eq_true same)
  · rw [if_neg same, List.find?_cons_of_neg (by simpa using same), List.find?_filter]
    congr 1
    funext other
    by_cases found : other.id = id
    · simp [found, Ne.symm same]
    · simp [found]

/-- Every candidate stands for a framework of the store, and a later one for one of a greater number,
so that none gives way to another. -/
theorem transcript_resolve (lawful : store.Lawful) {candidates : List Candidate} {desired : Desired}
    (ascending : (desired.candidates ++ candidates).Pairwise Candidate.Before)
    (backed : ∀ candidate ∈ candidates, ∃ framework ∈ store.frameworks,
      framework.candidate = candidate) {outcome : Except HubError Desired}
    (transcript : Transcript (possibleAnswers faults) (resolve candidates desired).run store said
      outcome after) :
    (∀ exchange ∈ said, exchange.isVain = false) ∧
      Work.either (fun last _ => desired.Extends store candidates last)
        (fun _ said => ∃ exchange ∈ said, exchange.isStoreFailure) outcome said := by
  induction candidates generalizing desired store said with
  | nil =>
    obtain ⟨rfl, rfl, rfl⟩ := transcript
    exact ⟨by simp, by simp, fun id => by simp [Difference.isDesired]⟩
  | cons candidate rest ih =>
    obtain ⟨⟨framework, present, rfl⟩, backedRest⟩ := List.forall_mem_cons.mp backed
    have behind : ∀ other ∈ desired.candidates, other.Before framework.candidate :=
      fun other member => (List.pairwise_append.mp ascending).2.2 other member _ List.mem_cons_self
    -- The candidates ascend, so none of those before is for the same framework.
    have isNew : ¬Difference.isDesired desired.candidates framework.candidate.frameworkId = true := by
      intro isDesired
      obtain ⟨other, member, same⟩ := isDesired_iff.mp isDesired
      exact ne_of_lt (behind other member) same
    have found : store.framework? framework.candidate.frameworkId = some framework :=
      lawful.framework?_eq present
    unfold resolve at transcript
    rw [if_neg isNew] at transcript
    rcases Work.transcript_bind transcript with
      ⟨e, rfl, failed⟩ | ⟨first, later, answer, middle, rfl, asked, onward⟩
    · obtain ⟨rfl, -⟩ := Work.transcript_ask failed
      exact ⟨by simp [Exchange.isVain], _, List.mem_singleton_self _, rfl⟩
    · obtain ⟨rfl, performed | ⟨_, _, failed, _⟩⟩ := Work.transcript_ask asked
      · obtain ⟨replied, rfl⟩ := Prod.mk.inj performed
        obtain rfl : store.framework? framework.candidate.frameworkId = answer :=
          Except.ok.inj replied
        rw [found] at onward
        have extended : (desired.add framework.candidate framework).candidates =
            desired.candidates ++ [framework.candidate] := insertCandidate_last behind
        obtain ⟨useful, result⟩ := ih lawful
          (by rw [extended, List.append_assoc]; exact ascending) backedRest onward
        refine ⟨List.forall_mem_cons.mpr ⟨by rw [found]; rfl, useful⟩, ?_⟩
        cases outcome with
        | error e =>
          obtain ⟨exchange, member, isFailure⟩ := result
          exact ⟨exchange, List.mem_cons_of_mem _ member, isFailure⟩
        | ok last =>
          refine ⟨by rw [result.candidates, extended, List.append_assoc]; rfl, fun id => ?_⟩
          rw [result.frameworks, Desired.framework?_add]
          have isFirst : Difference.isDesired (framework.candidate :: rest) id =
              (decide (framework.id = id) || Difference.isDesired rest id) := rfl
          rw [isFirst]
          by_cases same : framework.id = id
          · subst same
            simp only [decide_true, Bool.true_or, if_true]
            rw [lawful.framework?_eq present, ite_self]
          · simp only [same, decide_false, Bool.false_or, if_false]
      · cases failed

theorem transcript_desiredFor (lawful : store.Lawful) {architecture model : String}
    {outcome : Except HubError Desired}
    (transcript : Transcript (possibleAnswers faults) (desiredFor architecture model).run store said
      outcome after) :
    (∀ exchange ∈ said, exchange.isVain = false) ∧
      Work.either (fun last _ => Desired.Extends {} store (store.candidates architecture model) last)
        (fun _ said => ∃ exchange ∈ said, exchange.isStoreFailure) outcome said := by
  rcases Work.transcript_bind transcript with
    ⟨e, rfl, failed⟩ | ⟨first, later, candidates, middle, rfl, asked, onward⟩
  · obtain ⟨rfl, -⟩ := Work.transcript_ask failed
    exact ⟨by simp [Exchange.isVain], _, List.mem_singleton_self _, rfl⟩
  · obtain ⟨rfl, performed | ⟨_, _, failed, _⟩⟩ := Work.transcript_ask asked
    · obtain ⟨replied, rfl⟩ := Prod.mk.inj performed
      obtain rfl : store.candidates architecture model = candidates := Except.ok.inj replied
      obtain ⟨useful, result⟩ := transcript_resolve lawful
        (List.nil_append _ ▸ lawful.candidates_ascending) (fun candidate member => by
          obtain ⟨framework, runs, same⟩ := Store.mem_candidates_iff.mp member
          exact ⟨framework, runs.1, same⟩) onward
      refine ⟨List.forall_mem_cons.mpr ⟨rfl, useful⟩, ?_⟩
      cases outcome with
      | error e =>
        obtain ⟨exchange, member, isFailure⟩ := result
        exact ⟨exchange, List.mem_cons_of_mem _ member, isFailure⟩
      | ok desired => exact result
    · cases failed

/-- Frameworks are looked up in vain only after the associations have been listed: those of stored
associations may be gone. -/
def VainOnceListed : List Exchange → Prop
  | [] => True
  | exchange :: rest => exchange.lists ∨ exchange.isVain = false ∧ VainOnceListed rest

theorem vainOnceListed_append {first rest : List Exchange}
    (useful : ∀ exchange ∈ first, exchange.isVain = false) (later : VainOnceListed rest) :
    VainOnceListed (first ++ rest) := by
  induction first with
  | nil => exact later
  | cons exchange first ih =>
    obtain ⟨head, tail⟩ := List.forall_mem_cons.mp useful
    exact Or.inr ⟨head, ih tail⟩

theorem vainOnceListed_of_useful (useful : ∀ exchange ∈ said, exchange.isVain = false) :
    VainOnceListed said := by
  have whole : VainOnceListed (said ++ []) := vainOnceListed_append useful trivial
  rwa [List.append_nil] at whole

theorem VainOnceListed.listed {earlier later : List Exchange} {exchange : Exchange}
    (vain : VainOnceListed (earlier ++ exchange :: later)) (isVain : exchange.isVain) :
    ∃ listing ∈ earlier, listing.lists := by
  induction earlier with
  | nil =>
    rcases vain with lists | ⟨useful, -⟩
    · obtain ⟨call, reply⟩ := exchange
      unfold Exchange.isVain at isVain
      split at isVain
      · next same =>
        rw [same] at lists
        cases lists
      · cases isVain
    · rw [useful] at isVain
      cases isVain
  | cons head tail ih =>
    rcases vain with lists | ⟨-, onward⟩
    · exact ⟨head, List.mem_cons_self, lists⟩
    · obtain ⟨listing, member, lists⟩ := ih onward
      exact ⟨listing, List.mem_cons_of_mem _ member, lists⟩

def IsNoLookUp (call : Call) (_ : Store) : Prop := ∀ id, call ≠ .store (.findFramework id)

theorem useful_of_abides {α : Type} {program : Program α} {value : α}
    (abides : Program.Abides IsNoLookUp program store)
    (transcript : Transcript (possibleAnswers faults) program store said value after) :
    ∀ exchange ∈ said, exchange.isVain = false := by
  intro exchange member
  obtain ⟨_, _, isNoLookUp, -⟩ := transcript.allowed
    (fun _ _ _ _ => Store.anyAnswers_of_possible) abides exchange member
  obtain ⟨call, reply⟩ := exchange
  unfold Exchange.isVain
  split
  · next _ id same => exact absurd (congrArg Exchange.call same) (isNoLookUp id)
  · rfl

theorem abides_linkResources (repositoryId : Int) (resources : List String) :
    Work.Abides IsNoLookUp (Work.attemptEach (linkResource repositoryId) resources) := by
  refine Work.abides_attemptEach (fun _ _ => nofun) (fun resource => ?_) resources
  refine Work.abides_bind ?_ fun _ => Work.abides_pure ()
  exact Work.abides_bind (Work.abides_askStore fun _ _ => nofun) fun _ =>
    Work.abides_askStore fun _ _ => nofun

def Useful {α : Type} (faults : HubError → Prop) (work : Work α) (store : Store) : Prop :=
  ∀ said outcome after, Transcript (possibleAnswers faults) work.run store said outcome after →
    ∀ exchange ∈ said, exchange.isVain = false

/-- Look-ups are useful until the associations are listed, in every transcript from the store on. -/
def Searches {α : Type} (faults : HubError → Prop) (work : Work α) (store : Store) : Prop :=
  ∀ said outcome after, Transcript (possibleAnswers faults) work.run store said outcome after →
    VainOnceListed said

theorem searches_bind {α β : Type} {work : Work α} {next : α → Work β} (lawful : store.Lawful)
    (useful : Useful faults work store)
    (rest : ∀ value after, store.Continues after → Searches faults (next value) after) :
    Searches faults (work >>= next) store := by
  intro said outcome after transcript
  rcases Work.transcript_bind transcript with
    ⟨e, -, failed⟩ | ⟨first, later, value, middle, rfl, begun, onward⟩
  · exact vainOnceListed_of_useful (useful _ _ _ failed)
  · exact vainOnceListed_append (useful _ _ _ begun)
      (rest value middle (Store.continues_of_transcript lawful begun) _ _ _ onward)

theorem useful_of_noLookUp {α : Type} {work : Work α} (abides : Work.Abides IsNoLookUp work) :
    Useful faults work store :=
  fun _ _ _ transcript => useful_of_abides (abides store) transcript

theorem searches_listing {α : Type} {repositoryId : Int} {next : List Association → Work α} :
    Searches faults (Work.askStore (.listAssociations repositoryId) >>= next) store := by
  intro said outcome after transcript
  rcases Work.transcript_bind transcript with
    ⟨e, -, failed⟩ | ⟨first, later, stored, middle, rfl, begun, -⟩
  · obtain ⟨rfl, -⟩ := Work.transcript_ask failed
    exact Or.inr ⟨rfl, trivial⟩
  · obtain ⟨rfl, -⟩ := Work.transcript_ask begun
    exact Or.inl rfl

theorem searches_settle (lawful : store.Lawful) (repository : Repository) (architecture : String) :
    Searches faults (settle repository architecture) store := by
  refine searches_bind lawful (useful_of_noLookUp (Work.abides_askStore fun _ _ => nofun)) ?_
  intro resources listed continues
  refine searches_bind continues.lawful
    (useful_of_noLookUp (abides_linkResources repository.id resources)) ?_
  intro linked after continues
  refine searches_bind continues.lawful ?_ fun desired _ _ => searches_listing
  exact fun _ _ _ transcript => (transcript_desiredFor continues.lawful transcript).1

theorem searches_recompute (lawful : store.Lawful) (config : SyncConfig) (repository : Repository)
    (reference : String) : Searches faults (recompute config repository reference) store := by
  refine searches_bind lawful (useful_of_noLookUp ?_) ?_
  · refine Work.abides_bind (Work.abides_checkpoint fun _ _ => nofun) fun _ => ?_
    exact fun _ => ⟨fun _ => nofun, fun _ _ _ => trivial⟩
  intro content fetched continues
  refine searches_bind continues.lawful (useful_of_noLookUp fun _ => trivial) ?_
  intro architecture parsed continues said outcome after transcript
  rcases Work.transcript_bind transcript with
    ⟨e, -, failed⟩ | ⟨first, later, report, middle, rfl, settled, ended⟩
  · exact searches_settle continues.lawful repository architecture _ _ _ failed
  · obtain ⟨rfl, -⟩ := ended
    rw [List.append_nil]
    exact searches_settle continues.lawful repository architecture _ _ _ settled

theorem failure?_of_breach? {listed : Bool} {exchange : Exchange} {e : HubError}
    (broken : exchange.breach? listed = some e) : exchange.failure? = some e := by
  unfold Exchange.breach? at broken
  split at broken
  · exact broken
  · exact broken
  · exact broken
  · exact broken
  · exact (Option.ite_none_left_eq_some.mp broken).2
  · exact (Option.ite_none_left_eq_some.mp broken).2
  · cases broken

theorem mem_failures_of_breach? {listed : Bool} {e : HubError} (broken : breach? listed said = some e) :
    e ∈ Exchange.failures said := by
  induction said generalizing listed with
  | nil => cases broken
  | cons exchange rest ih =>
    rcases Option.or_eq_some_iff.mp broken with here | ⟨-, later⟩
    · exact List.mem_filterMap.mpr ⟨exchange, List.mem_cons_self, failure?_of_breach? here⟩
    · obtain ⟨other, member, met⟩ := List.mem_filterMap.mp (ih later)
      exact List.mem_filterMap.mpr ⟨other, List.mem_cons_of_mem _ member, met⟩

/-- What a reconciliation says about a framework that is missing is what a call has said. -/
theorem missing_of_recompute {config : SyncConfig} {repository : Repository} {reference : String}
    {outcome : Except HubError Outcome}
    (transcript : Transcript (possibleAnswers faults) (recompute config repository reference).run store
      said outcome after) (id : Int)
    (reported : outcome = .error (notInCatalogue id) ∨
      ∃ result, outcome = .ok result ∧ notInCatalogue id ∈ result.failures) :
    notInCatalogue id ∈ Exchange.failures said := by
  have noted := notes_recompute config repository reference store said outcome after transcript
  rcases reported with rfl | ⟨result, rfl, member⟩
  · rcases noted with broken | ⟨skippable, -⟩
    · exact mem_failures_of_breach? broken
    · cases skippable
  · have failures : Exchange.failures said = result.failures := noted.2
    rwa [failures]

theorem Desired.framework?_of_extends (lawful : store.Lawful) {architecture model : String}
    {desired : Desired}
    (extended : Desired.Extends {} store (store.candidates architecture model) desired) (id : Int)
    (framework : Framework) : desired.framework? id = some framework ↔
      framework.id = id ∧ store.Runs architecture model framework := by
  have isOffered : Difference.isDesired (store.candidates architecture model) id = true ↔
      ∃ other, store.Runs architecture model other ∧ other.id = id := by
    rw [isDesired_iff]
    constructor
    · rintro ⟨candidate, member, same⟩
      obtain ⟨other, runs, rfl⟩ := Store.mem_candidates_iff.mp member
      exact ⟨other, runs, same⟩
    · rintro ⟨other, runs, same⟩
      exact ⟨other.candidate, Store.mem_candidates_iff.mpr ⟨other, runs, rfl⟩, same⟩
  have nothing : ({} : Desired).framework? id = none := rfl
  rw [extended.frameworks, nothing, Option.ite_none_right_eq_some, isOffered]
  constructor
  · rintro ⟨⟨other, runs, rfl⟩, found⟩
    rw [lawful.framework?_eq runs.1] at found
    obtain rfl := Option.some.inj found
    exact ⟨rfl, runs⟩
  · rintro ⟨rfl, runs⟩
    exact ⟨⟨framework, runs, rfl⟩, lawful.framework?_eq runs.1⟩

/-- The candidates for a model are the frameworks that have a row for it, each once and ascending; the
desired state that is looked up has just their numbers as keys, each with its own candidate and its own
framework. No candidate is ever without a framework: none is looked up in vain for the desired state,
and a reconciliation reports a framework as missing only if a failing call says so. -/
theorem catalogue_is_looked_up_exactly (reachable : store.Reachable) (architecture model : String) :
    (store.candidates architecture model).Pairwise Candidate.Before ∧
    (∀ candidate, candidate ∈ store.candidates architecture model ↔
      ∃ framework, store.Runs architecture model framework ∧ framework.candidate = candidate) ∧
    (∀ (surroundings : Surroundings) (outcome : Except HubError Desired) (dialogue : Dialogue),
      surroundings.run (Work.attempt (desiredFor architecture model)) store = (outcome, dialogue) →
        (∀ exchange ∈ dialogue.exchanges, exchange.isVain = false) ∧
        (dialogue.Unfailing → ∃ desired, outcome = .ok desired ∧
          desired.candidates = store.candidates architecture model ∧
          ∀ id framework, desired.framework? id = some framework ↔
            framework.id = id ∧ store.Runs architecture model framework)) ∧
    ∀ (surroundings : Surroundings) (config : SyncConfig) (repository : Repository)
      (reference : String) (outcome : Except HubError Outcome) (dialogue : Dialogue),
      surroundings.run (Work.attempt (recompute config repository reference)) store =
        (outcome, dialogue) →
      (∀ earlier exchange later, dialogue.exchanges.reverse = earlier ++ exchange :: later →
        exchange.isVain → ∃ listing ∈ earlier, listing.lists) ∧
      ∀ id, (outcome = .error (notInCatalogue id) ∨
          ∃ result, outcome = .ok result ∧ notInCatalogue id ∈ result.failures) →
        notInCatalogue id ∈ dialogue.failures := by
  have lawful := reachable.lawful
  have answered : ∀ (surroundings : Surroundings) (call : Call) (dialogue : Dialogue),
      possibleAnswers (fun _ => True) call dialogue.store (surroundings.reply dialogue call).1
        (surroundings.reply dialogue call).2 :=
    fun _ => Surroundings.possibleAnswers_reply fun _ _ _ _ => trivial
  refine ⟨lawful.candidates_ascending, fun _ => Store.mem_candidates_iff, ?_, ?_⟩
  · intro surroundings outcome dialogue ran
    obtain ⟨useful, result⟩ := transcript_desiredFor lawful
      (Surroundings.transcript_run (answered surroundings) ran)
    refine ⟨fun exchange member => useful exchange (List.mem_reverse.mpr member), fun unfailing => ?_⟩
    cases outcome with
    | error e =>
      obtain ⟨exchange, member, failed⟩ := result
      rw [unfailing exchange (List.mem_reverse.mp member)] at failed
      cases failed
    | ok desired =>
      exact ⟨desired, rfl, result.candidates, Desired.framework?_of_extends lawful result⟩
  · intro surroundings config repository reference outcome dialogue ran
    have transcript := Surroundings.transcript_run (answered surroundings) ran
    refine ⟨fun earlier exchange later whole isVain => ?_, missing_of_recompute transcript⟩
    have searched := searches_recompute lawful config repository reference _ _ _ transcript
    exact (whole ▸ searched).listed isVain

/-- Framework 9 runs another model by its name, and the one with a row behind its removal is gone. -/
def variedCatalogue : Store :=
  let named := (Store.bert.upsertFramework ⟨9, "TGI", "tgi", 2⟩).addModel 9 "roberta"
  ((named.upsertFramework ⟨12, "llama.cpp", "gguf", 1⟩).removeFramework 12).2.addArchitecture 12
    "BertModel"

theorem variedCatalogue_is_looked_up :
    variedCatalogue.candidates "BERTmodel" "bert" = [⟨7, 1⟩] ∧
    ∃ desired, ((Surroundings.calm bertFiles).run
      (Work.attempt (desiredFor "BERTmodel" "bert")) variedCatalogue).1 = .ok desired ∧
      desired.candidates = [⟨7, 1⟩] ∧
      desired.framework? 7 = some ⟨7, "vLLM", "vllm", 1⟩ ∧ desired.framework? 12 = none := by
  have reachable : variedCatalogue.Reachable :=
    .addArchitecture _ _ (.removeFramework _ (.upsertFramework _
      (.addModel _ _ (.upsertFramework _ Store.bert_reachable))))
  have listed : variedCatalogue.candidates "BERTmodel" "bert" = [⟨7, 1⟩] := by decide +kernel
  have runs : variedCatalogue.Runs "BERTmodel" "bert" ⟨7, "vLLM", "vllm", 1⟩ :=
    ⟨by decide, ⟨7, "BertModel", ""⟩, by decide, rfl,
      CompatibilityRow.covers_iff.mp (by decide)⟩
  have gone : ∀ framework ∈ variedCatalogue.frameworks, framework.id ≠ 12 := by decide
  obtain ⟨-, -, lookUps, -⟩ := catalogue_is_looked_up_exactly reachable "BERTmodel" "bert"
  obtain ⟨-, ends⟩ := lookUps (.calm bertFiles) _ _ (Prod.eta _).symm
  obtain ⟨desired, ended, candidates, frameworks⟩ := ends (by decide +kernel)
  refine ⟨listed, desired, ended, candidates.trans listed, (frameworks 7 _).mpr ⟨rfl, runs⟩, ?_⟩
  refine Option.eq_none_iff_forall_ne_some.mpr fun framework found => ?_
  obtain ⟨same, present, -⟩ := (frameworks 12 framework).mp found
  exact gone framework present same

end Reconcile

end ModelHub
