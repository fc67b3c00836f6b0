import Mathlib.Data.List.Induction
import ModelHub.Proofs.Push.LibraryHistory
import ModelHub.Proofs.Push.Walk

namespace ModelHub

open Tagging (toggledKeys)

theorem Commit.added_behind {commit : Commit} {front back : List (FileAction × String)}
    {path : String} (isSplit : commit.handled = front ++ (.added, path) :: back) :
    ∀ entry ∈ back, entry.1 = .added := by
  have ordered : commit.handled.Pairwise fun first second =>
      first.1 = .added → second.1 = .added := by
    have block : ∀ (action : FileAction) (files : List String),
        (files.map (action, ·)).Pairwise fun first second =>
          first.1 = .added → second.1 = .added := by
      intro action files
      rw [List.pairwise_map]
      exact List.pairwise_of_forall fun _ _ => id
    simp only [Commit.handled, FileAction.order, List.flatMap_cons, List.flatMap_nil,
      List.append_nil, List.pairwise_append, block, true_and]
    refine ⟨?_, ?_⟩
    · intro first inRemoved second _ isAdded
      obtain ⟨other, -, rfl⟩ := List.mem_map.mp inRemoved
      cases isAdded
    · intro first inModified second _ isAdded
      obtain ⟨other, -, rfl⟩ := List.mem_map.mp inModified
      cases isAdded
  rw [isSplit, List.pairwise_append] at ordered
  obtain ⟨-, behind, -⟩ := ordered
  exact fun entry member => List.rel_of_pairwise_cons behind member rfl

namespace Tagging

variable {scope : TagScope} {tag path : String} {keys : Set TagKey}
  {front back : List (FileAction × String)}

/-- The file takes the tag away or gives it. -/
def Toggles (scope : TagScope) (tag : String) (entry : FileAction × String) : Prop :=
  entry.1 ≠ .modified ∧ entry.2 ≠ readmeFile ∧ LibraryTag.ofFile? scope entry.2 = some tag

instance : DecidablePred (Toggles scope tag) := fun entry =>
  inferInstanceAs (Decidable (entry.1 ≠ .modified ∧ entry.2 ≠ readmeFile ∧
    LibraryTag.ofFile? scope entry.2 = some tag))

def lastToggle? (scope : TagScope) (tag : String) (files : List (FileAction × String)) :
    Option (FileAction × String) :=
  (files.filter (Toggles scope tag ·)).getLast?

theorem not_readme (tagged : LibraryTag.ofFile? scope path = some tag) : path ≠ readmeFile := by
  rintro rfl
  rw [Push.ofFile?_readme] at tagged
  cases tagged

theorem mem_toggledKeys (entry : FileAction × String) :
    libraryKey scope tag ∈ toggledKeys scope keys entry ↔
      if Toggles scope tag entry then entry.1 = .added else libraryKey scope tag ∈ keys := by
  obtain ⟨action, path⟩ := entry
  have isTag : libraryKey scope tag ∈ libraryKey scope '' LibraryTag.view scope {path} ↔
      LibraryTag.ofFile? scope path = some tag := by
    rw [(libraryKey_injective scope).mem_set_image]
    simp [LibraryTag.view]
  have toggles : Toggles scope tag (action, path) ↔
      action ≠ .modified ∧ LibraryTag.ofFile? scope path = some tag :=
    and_congr_right fun _ => ⟨And.right, fun tagged => ⟨not_readme tagged, tagged⟩⟩
  by_cases tagged : LibraryTag.ofFile? scope path = some tag <;>
    cases action <;> simp [toggledKeys, toggles, isTag, tagged]

theorem lastToggle?_append_singleton (files : List (FileAction × String))
    (entry : FileAction × String) :
    lastToggle? scope tag (files ++ [entry]) =
      if Toggles scope tag entry then some entry else lastToggle? scope tag files := by
  unfold lastToggle?
  rw [List.filter_append]
  split
  · next toggles => simp [toggles]
  · next idle => simp [idle]

theorem mem_foldl_toggledKeys (files : List (FileAction × String)) :
    libraryKey scope tag ∈ files.foldl (toggledKeys scope) keys ↔
      match lastToggle? scope tag files with
      | some entry => entry.1 = .added
      | none => libraryKey scope tag ∈ keys := by
  induction files using List.reverseRecOn with
  | nil => exact Iff.rfl
  | append_singleton files entry ih =>
    rw [List.foldl_append, List.foldl_cons, List.foldl_nil, mem_toggledKeys,
      lastToggle?_append_singleton]
    split
    · exact Iff.rfl
    · exact ih

theorem lastToggle?_of_added (tagged : LibraryTag.ofFile? scope path = some tag)
    (behind : ∀ entry ∈ back, Toggles scope tag entry → entry.1 = .added) :
    ∃ entry, lastToggle? scope tag (front ++ (.added, path) :: back) = some entry ∧
      entry.1 = .added := by
  have toggles : Toggles scope tag (.added, path) := ⟨nofun, not_readme tagged, tagged⟩
  have ends : lastToggle? scope tag (front ++ (.added, path) :: back) =
      ((.added, path) :: back.filter (Toggles scope tag ·)).getLast? := by
    unfold lastToggle?
    rw [List.filter_append, List.filter_cons, if_pos (decide_eq_true toggles)]
    exact List.getLast?_append_of_ne_nil _ (List.cons_ne_nil _ _)
  rw [ends, List.getLast?_eq_some_getLast (List.cons_ne_nil _ _)]
  refine ⟨_, rfl, ?_⟩
  rcases List.mem_cons.mp (List.getLast_mem (List.cons_ne_nil (FileAction.added, path)
    (back.filter (Toggles scope tag ·)))) with same | later
  · rw [same]
  · obtain ⟨inBack, togglesLater⟩ := List.mem_filter.mp later
    exact behind _ inBack (of_decide_eq_true togglesLater)

end Tagging

namespace Push

open Tagging (Toggles lastToggle?)

variable {surroundings : Surroundings} {options : Options} {identity : RepoIdentity}
  {event : PushEvent} {reference path : String} {action : FileAction} {place : RepositoryPlace}
  {scope : TagScope} {keys : Set TagKey} {store : Store} {before dialogue : Dialogue}
  {entry : FileAction × String} {result : PushResult}

theorem keeps_reconcileFile :
    Program.Keeps (fun store => store.Carries place keys)
      (reconcileFile options identity reference path action) fun _ => True := by
  refine keeps_carries fun start => ?_
  unfold reconcileFile
  split
  · refine Program.keeps_bind (Work.keeps_attempt (Regime.keeps_reconcile ?_)) fun _ _ =>
      Program.keeps_done trivial
    exact fun _ _ _ => ⟨nofun, nofun⟩
  · exact Program.keeps_done trivial

/-- As the store answers, a library tag is set without failure. Only the README may stop the push. -/
theorem carries_stopped_record (hits : Hits identity place scope)
    (carries : before.store.Carries place keys)
    (unfailing : (surroundings.converse (Progress.record (tagging options identity reference path
      action)) before).2.Unfailing)
    (stops : (surroundings.converse (Progress.record (tagging options identity reference path action))
      before).1.isStopped = true) :
    (surroundings.converse (Progress.record (tagging options identity reference path action))
      before).2.store.Carries place keys := by
  unfold tagging at unfailing stops ⊢
  split at stops
  · have applied : Program.Keeps (fun store => store.Carries place keys)
        (Progress.record (applyReadme options identity reference action)) fun _ => True := by
      refine keeps_carries fun _ => Program.keeps_bind (Work.keeps_attempt
        (Regime.keeps_applyReadme nofun)) fun _ _ => Program.keeps_done trivial
    rw [if_pos ‹path = readmeFile›]
    exact (surroundings.converse_of_leads (applied before.store carries)).1
  · next other =>
    exfalso
    rw [if_neg other] at unfailing
    have goesOn : Program.Leads Store.sureAnswers
        (Progress.record (updateLibrary identity path action)) before.store
        fun progress _ => progress.isStopped = false := by
      refine Program.leads_bind.mpr (Program.Leads.mono (Tagging.sure_leads_updateLibrary
        carries.lawful hits.known (hits.found carries) action path) ?_)
      intro outcome after ended
      cases outcome with
      | ok value => exact rfl
      | error e => exact ended.elim
    have going := Surroundings.converse_of_sure_leads goesOn unfailing
    exact Bool.false_ne_true (going.symm.trans stops)

theorem carries_stopped (hits : Hits identity place scope) (carries : before.store.Carries place keys)
    (unfailing : (surroundings.converse (handleEntry options identity reference entry)
      before).2.Unfailing)
    (stops : (surroundings.converse (handleEntry options identity reference entry)
      before).1.isStopped = true) :
    (surroundings.converse (handleEntry options identity reference entry)
      before).2.store.Carries place keys := by
  obtain ⟨action, path⟩ := entry
  have asked : (surroundings.converse Work.isCancelled before).2.store.Carries place keys := carries
  have configured := (surroundings.converse_of_leads
    (@keeps_reconcileFile options identity reference path action place keys _ asked)).1
  unfold handleEntry handleFile at unfailing stops ⊢
  rw [Surroundings.converse_bind] at unfailing stops ⊢
  cases looked : (surroundings.converse Work.isCancelled before).1 with
  | true => exact asked
  | false =>
    rw [looked] at unfailing stops
    simp only [Bool.false_eq_true, if_false, converse_andThen] at unfailing stops ⊢
    split at stops
    · next stopped =>
      rw [if_pos stopped]
      exact configured
    · next going =>
      rw [if_neg going] at unfailing ⊢
      exact carries_stopped_record hits configured unfailing stops

theorem fetch_of_stopped (never : surroundings.NeverCancels)
    (preparing : surroundings.Preparing before)
    (unfailing : (surroundings.converse (handleEntry options identity reference entry)
      before).2.Unfailing)
    (stops : (surroundings.converse (handleEntry options identity reference entry)
      before).1.isStopped = true) :
    ∃ request limit, ⟨.fetch request limit, .error .cancelled⟩ ∈
      (surroundings.converse (handleEntry options identity reference entry) before).2.exchanges := by
  have yields : surroundings.Yields (handleEntry options identity reference entry)
      (Progress.Accounted surroundings) := Surroundings.yields_handleFile
  obtain ⟨met, meets, accounted⟩ := yields before
  have after := preparing.converse yields
  have isMet : .cancelled ∈ met :=
    accounted.covers.mem_of_not_skippable (accounted.stopped stops) Bool.false_ne_true
  obtain ⟨exchange, member, isCancelled⟩ := Dialogue.mem_failures.mp
    (meets.failures ▸ List.mem_append_right before.failures isMet)
  obtain ⟨earlier, replied⟩ := after.heard exchange member
  obtain ⟨request, rfl, -⟩ | ⟨request, limit, rfl, -⟩ | ⟨repositoryId, -, left⟩ | ⟨-, fired⟩ |
    submitted := Surroundings.speaker_of_cancelled replied isCancelled
  · exact absurd (unfailing _ member).symm Bool.false_ne_true
  · exact ⟨request, limit, member⟩
  · exact absurd ((never.queue earlier repositoryId).symm.trans left) Bool.false_ne_true
  · exact absurd ((never.token earlier).symm.trans fired) Bool.false_ne_true
  · exact absurd submitted (after.not_submission member)

/-- The handled files toggle the library tags one after the other. Unless the git server speaks of a
cancellation these are all files of the event. -/
theorem carries_updateInfos (hits : Hits identity place scope)
    (parsed : event.identity = .ok identity) (never : surroundings.NeverCancels)
    (preparing : surroundings.Preparing before) (carries : before.store.Carries place keys)
    (unfailing : (surroundings.converse (updateInfos options event) before).2.Unfailing) :
    ∃ handled rest, event.handled = handled ++ rest ∧
      (rest ≠ [] → ∃ request limit, ⟨.fetch request limit, .error .cancelled⟩ ∈
        (surroundings.converse (updateInfos options event) before).2.exchanges) ∧
      (surroundings.converse (updateInfos options event) before).2.store.Carries place
        (handled.foldl (toggledKeys scope) keys) := by
  have walk : Walk surroundings options identity event.reference before event.handled _ _ :=
    walk_each event.handled before
  have carried : ∀ files, (surroundings.converse (errorsOfFiles options identity event.reference
      files) before).2.Unfailing → (surroundings.converse (errorsOfFiles options identity
        event.reference files) before).2.store.Carries place (files.foldl (toggledKeys scope) keys) :=
    fun _ => carries_errorsOfFiles hits carries
  have same : (surroundings.converse (updateInfos options event) before).2 =
      (surroundings.converse (Progress.each (handleEntry options identity event.reference)
        event.handled) before).2 := by
    rw [updateInfos_eq parsed, Surroundings.converse_bind]
    rfl
  rw [same] at unfailing ⊢
  generalize surroundings.converse (Progress.each (handleEntry options identity event.reference)
    event.handled) before = ended at walk unfailing ⊢
  obtain ⟨progress, last⟩ := ended
  cases walk with
  | through handled =>
    refine ⟨event.handled, [], (List.append_nil _).symm, fun stays => absurd rfl stays, ?_⟩
    have toggled := carried event.handled
    rw [handled] at toggled
    exact toggled unfailing
  | @stopped done rest entry errors middle _ progress isSplit goesOn handled stops isStopped =>
    have unfailingEntry : (surroundings.converse (handleEntry options identity event.reference entry)
        middle).2.Unfailing := stops ▸ unfailing
    have stopped : (surroundings.converse (handleEntry options identity event.reference entry)
        middle).1.isStopped = true := stops ▸ isStopped
    have yields : surroundings.Yields (Progress.each (handleEntry options identity event.reference)
        done) (Progress.Accounted surroundings) :=
      Progress.yields_each done fun _ => Surroundings.yields_handleFile
    have preparingEntry := preparing.converse yields
    rw [goesOn] at preparingEntry
    have fetched := fetch_of_stopped never preparingEntry unfailingEntry stopped
    have toggled := carried done
    rw [handled] at toggled
    have ended := carries_stopped hits
      (toggled (Surroundings.unfailing_before unfailingEntry)) unfailingEntry stopped
    rw [stops] at fetched ended
    exact ⟨done, entry :: rest, isSplit, fun _ => fetched, ended⟩

/-- After a push a repository shows a library tag if the last handled file that stands for it is an
added one, and if there is none as it did before. So a file that is renamed keeps its tag, as in a
commit the removed files come before the added ones. -/
theorem last_toggle_wins (lawful : store.Lawful) (target : event.target? store = some place)
    (bears : TagScope.ofRepoType? place.repoType = some scope) (never : surroundings.NeverCancels)
    (ran : surroundings.run (updateInfos options event) store = (result, dialogue))
    (unfailing : dialogue.Unfailing) :
    ∃ handled rest, event.handled = handled ++ rest ∧
      ((∀ request limit, ⟨.fetch request limit, .error .cancelled⟩ ∉ dialogue.exchanges) →
        rest = []) ∧
      (∀ tag, dialogue.store.Bears place.id (libraryKey scope tag) ↔
        match lastToggle? scope tag handled with
        | some entry => entry.1 = .added
        | none => store.Bears place.id (libraryKey scope tag)) ∧
      ∀ earlier commit later front path back tag,
        event.commits = earlier ++ commit :: later →
        commit.handled = front ++ (.added, path) :: back →
        (earlier.flatMap Commit.handled ++ front).length < handled.length →
        LibraryTag.ofFile? scope path = some tag →
        (∀ entry ∈ later.flatMap Commit.handled, Toggles scope tag entry → entry.1 = .added) →
        dialogue.store.Bears place.id (libraryKey scope tag) := by
  obtain ⟨identity, parsed, hits, found⟩ := PushEvent.hits_of_target target bears
  obtain ⟨rfl, rfl⟩ := Prod.ext_iff.mp ran
  obtain ⟨handled, rest, isSplit, whole, carried⟩ := carries_updateInfos hits parsed never
    (surroundings.preparing_start store) ⟨lawful, found, rfl⟩ unfailing
  have shown : ∀ tag, (surroundings.run (updateInfos options event) store).2.store.Bears place.id
      (libraryKey scope tag) ↔
        match lastToggle? scope tag handled with
        | some entry => entry.1 = .added
        | none => store.Bears place.id (libraryKey scope tag) := by
    intro tag
    have isLibrary : ∀ other : Store, other.Bears place.id (libraryKey scope tag) ↔
        libraryKey scope tag ∈ other.libraryKeys place.id :=
      fun other => (and_iff_left rfl).symm
    rw [isLibrary, isLibrary, ← Tagging.mem_foldl_toggledKeys]
    exact Set.ext_iff.mp carried.libraryKeys _
  refine ⟨handled, rest, isSplit, fun quiet => ?_, shown, ?_⟩
  · by_contra stays
    obtain ⟨request, limit, fetched⟩ := whole stays
    exact quiet request limit fetched
  · intro earlier commit later front path back tag commits inCommit reached tagged spared
    have isPrefix : earlier.flatMap Commit.handled ++ front ++ [(.added, path)] <+: handled := by
      have isPrefixOfAll :
          earlier.flatMap Commit.handled ++ front ++ [(.added, path)] <+: event.handled :=
        ⟨back ++ later.flatMap Commit.handled, by simp [PushEvent.handled, commits, inCommit]⟩
      refine List.prefix_of_prefix_length_le isPrefixOfAll ⟨rest, isSplit.symm⟩ ?_
      rw [List.length_append]
      exact reached
    obtain ⟨tail, same⟩ := isPrefix
    have behind : tail ++ rest = back ++ later.flatMap Commit.handled := by
      rw [← List.append_cancel_left_eq (earlier.flatMap Commit.handled ++ front ++
        [(.added, path)]), ← List.append_assoc, same, ← isSplit]
      simp [PushEvent.handled, commits, inCommit]
    -- Behind the added file the rest of its commit and the later commits only give the tag.
    have given : ∀ entry ∈ tail, Toggles scope tag entry → entry.1 = .added := by
      intro entry inTail toggles
      rcases List.mem_append.mp (behind ▸ List.mem_append_left rest inTail) with inBack | inLater
      · exact Commit.added_behind inCommit entry inBack
      · exact spared entry inLater toggles
    obtain ⟨last, isLast, isAdded⟩ := Tagging.lastToggle?_of_added tagged given
    rw [shown, ← same, List.append_assoc, List.singleton_append, isLast]
    exact isAdded

/-- A file is renamed, and behind the README another one is added. -/
def renamesBeforeReadme : Commit where
  modified := [modelConfigFile]
  removed := ["a.onnx"]
  added := ["b.onnx", readmeFile, "c.gguf"]

def renamingPush : PushEvent := { bertPush with commits := [addsA, renamesBeforeReadme] }

theorem renamed_behind_failures_is_kept :
    ((Surroundings.calm unreachableFiles).run (updateInfos .plain renamingPush)
      Store.bert).2.store.Bears bertPlace.id (libraryKey .model "onnx") ∧
    ¬ ((Surroundings.calm unreachableFiles).run (updateInfos .plain renamingPush)
      Store.bert).2.store.Bears bertPlace.id (libraryKey .model "gguf") := by
  have never : (Surroundings.calm unreachableFiles).NeverCancels := ⟨fun _ => rfl, fun _ _ => rfl⟩
  have target : renamingPush.target? Store.bert = some bertPlace := by decide +kernel
  obtain ⟨handled, rest, isSplit, whole, shown, keeps⟩ := last_toggle_wins
    Store.bert_reachable.lawful target rfl never
    (Prod.eta ((Surroundings.calm unreachableFiles).run (updateInfos .plain renamingPush)
      Store.bert)).symm (by decide +kernel)
  have quiet : ∀ exchange ∈ ((Surroundings.calm unreachableFiles).run
      (updateInfos .plain renamingPush) Store.bert).2.exchanges,
      exchange.failure? ≠ some .cancelled := by
    decide +kernel
  obtain rfl : rest = [] := whole fun request limit member => quiet _ member rfl
  obtain rfl : renamingPush.handled = handled := isSplit.trans (List.append_nil handled)
  constructor
  · exact keeps [addsA] renamesBeforeReadme [] [(.modified, modelConfigFile), (.removed, "a.onnx")]
      "b.onnx" [(.added, readmeFile)] "onnx" rfl (by decide +kernel) (by decide +kernel)
      (by decide +kernel) nofun
  · have untouched : Tagging.lastToggle? .model "gguf" renamingPush.handled = none := by
      decide +kernel
    rw [shown, untouched]
    intro borne
    have inNames : "gguf" ∈ Store.bert.libraryNames bertPlace.id := ⟨_, borne, rfl, rfl⟩
    rw [bert_bare] at inNames
    exact inNames

end Push

end ModelHub
