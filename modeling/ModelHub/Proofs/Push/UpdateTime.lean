import ModelHub.Proofs.Engine.Dialogue
import ModelHub.Proofs.Push.Reachable
import ModelHub.Proofs.Reconcile.Settlement
import ModelHub.Proofs.Store.Reading
import ModelHub.Proofs.Time.Rfc3339

namespace ModelHub

def storedTime (instant : Instant) : Except HubError Instant :=
  if instant.InFourDigits then .ok instant
  else .error (.database ("invalid timestamp '" ++ Rfc3339.render instant ++ "': " ++
    Rfc3339.complaint))

theorem readTime_render {instant : Instant} (regular : instant.Regular) :
    readTime (Rfc3339.render instant) = storedTime instant := by
  unfold readTime storedTime
  rw [Rfc3339.parse?_render regular]
  by_cases years : instant.InFourDigits
  · rw [if_pos years, if_pos years]
  · rw [if_neg years, if_neg years]

namespace Store

variable {store : Store} {repoType : RepoType} {owner name : String}

theorem repositoryRow?_writeUpdatedAt (repositoryId : Int) (text : Option String) :
    (store.writeUpdatedAt repositoryId text).repositoryRow? repoType owner name =
      (store.repositoryRow? repoType owner name).map fun row =>
        if row.id = repositoryId then { row with updatedAt := text } else row := by
  have sameAddress : RepositoryRow.isAt repoType owner name ∘ (fun row : RepositoryRow =>
      if row.id = repositoryId then { row with updatedAt := text } else row) =
        RepositoryRow.isAt repoType owner name := by
    funext row
    simp only [Function.comp_apply]
    split <;> rfl
  unfold repositoryRow? writeUpdatedAt
  rw [List.find?_map, sameAddress]

theorem findRepository_setUpdatedAt {repository : Repository} {instant : Instant}
    (found : store.findRepository repoType owner name = .ok (some repository)) :
    (store.setUpdatedAt repository.id instant).findRepository repoType owner name =
      (readTime (Rfc3339.render instant)).map fun time =>
        some { repository with updatedAt := some time } := by
  unfold findRepository at found
  split at found
  · cases found
  · next row isFirst =>
    obtain ⟨read, wasRead, same⟩ := map_eq_ok found
    obtain rfl := Option.some.inj same
    obtain ⟨time, -, rfl⟩ := map_eq_ok wasRead
    unfold findRepository setUpdatedAt
    rw [repositoryRow?_writeUpdatedAt, isFirst]
    simp only [Option.map_some, if_true, readRepository, readTime?]
    cases readTime (Rfc3339.render instant) <;> rfl

theorem isSome_mirror?_writeMirrorTime (repositoryId id : Int) (text : Option String) :
    ((store.writeMirrorTime repositoryId text).mirror? id).isSome = (store.mirror? id).isSome := by
  have sameId : (fun row : MirrorRow => decide (row.repositoryId = id)) ∘ (fun row : MirrorRow =>
      if row.repositoryId = repositoryId then { row with updatedAt := text } else row) =
        fun row => decide (row.repositoryId = id) := by
    funext row
    simp only [Function.comp_apply]
    split <;> rfl
  unfold mirror? writeMirrorTime
  rw [List.find?_map, sameId, Option.isSome_map]

theorem findRepository_touchMirror (repositoryId : Int) (instant : Instant) :
    (store.touchMirror repositoryId instant).2.findRepository repoType owner name =
      store.findRepository repoType owner name := by
  have sameRow : ∀ row, (store.touchMirror repositoryId instant).2.readRepository row =
      store.readRepository row := by
    intro row
    simp only [readRepository, touchMirror, isSome_mirror?_writeMirrorTime]
  unfold findRepository
  simp only [sameRow]
  rfl

end Store

namespace Push

variable {surroundings : Surroundings} {event : PushEvent} {identity : RepoIdentity}

theorem regular_of_headTime {instant : Instant} (read : headTime event = .ok instant) :
    instant.Regular := by
  unfold headTime at read
  split at read
  · cases read
  · split at read
    · next parsed =>
      obtain rfl := Except.ok.inj read
      exact Rfc3339.regular_of_parse parsed
    · cases read

theorem leads_setUpdateTime {store : Store} {repoType : RepoType} {repository : Repository}
    (parsed : event.identity = .ok identity) (known : identity.repoType = some repoType)
    (found : store.findRepository repoType identity.owner identity.name = .ok (some repository))
    (isMirror : repository.isMirror) :
    Work.Leads surroundings.answers (setUpdateTime event) (.start store)
      (fun _ after => ∃ instant now, headTime event = .ok instant ∧
        after.store = ((store.setUpdatedAt repository.id instant).touchMirror repository.id now).2)
      fun _ _ => True := by
  unfold setUpdateTime
  rw [parsed]
  refine Work.leads_bind.mpr (Work.leads_pure.mpr ?_)
  rw [known]
  refine Work.leads_bind.mpr (Work.leads_bind.mpr (Surroundings.leads_askStore ?_ fun _ _ => trivial))
  intro answer asked performed
  obtain ⟨read, unchanged⟩ := Prod.mk.inj performed
  obtain rfl := Except.ok.inj (found.symm.trans read)
  refine Work.leads_pure.mpr (Work.leads_bind.mpr (Surroundings.leads_now fun timed kept => ?_))
  rw [if_pos isMirror]
  refine Work.leads_bind.mpr ?_
  cases time : headTime event with
  | error e => exact trivial
  | ok instant =>
    refine Work.leads_pure.mpr (Work.leads_bind.mpr ?_)
    refine Surroundings.leads_askStore ?_ fun _ _ => trivial
    intro _ written wrote
    refine Work.leads_bind.mpr (Surroundings.leads_askStore ?_ fun _ _ => trivial)
    intro present touched touching
    have afterWrite : store.setUpdatedAt repository.id instant = written.store := by
      have same : timed.store = store := kept.trans unchanged.symm
      rw [← same]
      exact (Prod.mk.inj wrote).2
    refine Work.leads_pure.mpr ⟨instant, surroundings.now asked, rfl, ?_⟩
    rw [afterWrite]
    exact (Prod.mk.inj touching).2.symm

/-- Once a mirror has taken over the time of the head commit, it is found with that instant if its year
in UTC has four digits, and is not found again otherwise. -/
theorem mirror_time_read_back {store : Store} {repoType : RepoType} {repository : Repository}
    {outcome : Except HubError Unit} {dialogue : Dialogue}
    (parsed : event.identity = .ok identity) (known : identity.repoType = some repoType)
    (found : store.findRepository repoType identity.owner identity.name = .ok (some repository))
    (isMirror : repository.isMirror)
    (ran : surroundings.run (Work.attempt (setUpdateTime event)) store = (outcome, dialogue))
    (success : outcome = .ok ()) :
    ∃ instant, headTime event = .ok instant ∧
      dialogue.store.findRepository repoType identity.owner identity.name =
        (storedTime instant).map fun time => some { repository with updatedAt := some time } := by
  have ended := Surroundings.leads_iff.mp
    (@leads_setUpdateTime surroundings event identity store repoType repository parsed known found
      isMirror)
  unfold Surroundings.run Work.attempt at ran
  rw [ran, success] at ended
  obtain ⟨instant, now, time, after⟩ := ended
  refine ⟨instant, time, ?_⟩
  rw [after, Store.findRepository_touchMirror, Store.findRepository_setUpdatedAt found,
    readTime_render (regular_of_headTime time)]

/-- In UTC this is half past midnight in the year 10000. -/
def lateEvent : PushEvent := { bertPush with headTimestamp := some "9999-12-31T23:30:00-01:00" }

def mirroredBert : Store := Store.bert.markMirror bertPlace.id "https://example.com/acme/bert"

def lateUpdate : Except HubError Unit × Dialogue :=
  (Surroundings.calm bertFiles).run (Work.attempt (setUpdateTime lateEvent)) mirroredBert

theorem lateMirror_unreadable :
    lateUpdate.1 = .ok () ∧ ∃ e, lateUpdate.2.store.findRepository .model "acme" "bert" = .error e := by
  have success : lateUpdate.1 = .ok () := by decide +kernel
  have parsed : lateEvent.identity = .ok Reconcile.bertIdentity := by decide +kernel
  have found : mirroredBert.findRepository .model "acme" "bert" = .ok (some
      { id := 1, repoType := .model, owner := "acme", name := "bert", defaultBranch := "main"
        isMirror := true, updatedAt := none }) := by
    decide +kernel
  obtain ⟨instant, time, after⟩ := @mirror_time_read_back (.calm bertFiles) lateEvent
    Reconcile.bertIdentity mirroredBert .model _ lateUpdate.1 lateUpdate.2 parsed rfl found rfl
    (Prod.eta lateUpdate).symm success
  have midnight : headTime lateEvent = .ok { seconds := 253402302600, nanos := 0 } := by
    decide +kernel
  obtain rfl := Except.ok.inj (midnight.symm.trans time)
  have signed : ¬Instant.InFourDigits { seconds := 253402302600, nanos := 0 } := by decide +kernel
  rw [storedTime, if_neg signed] at after
  exact ⟨success, _, after⟩

end Push

end ModelHub
