import ModelHub.Proofs.Concurrency.CrewHistory
import ModelHub.Proofs.Concurrency.LockLine

/-! What holds of a crew after every move: a call is in the line for the lock of one repository at
most, and it is the first in that line from the time it acquires the lock until it releases it. -/

namespace ModelHub

open Reconcile (Outcome)

namespace Crew

open LockTable (KeepsOthers)

variable {P : Type}

inductive Stands (call : ReconcileCall) (start : Store) (locks : LockTable P) (party : P)
    (member : CrewMember) : Prop where
  | outside
      (stage : member.stage = .idle ∨ member.stage = .running ∨
        ∃ outcome, member.stage = .returned outcome)
      (free : member.inside = none) (absent : ∀ id, party ∉ locks.line id)
  | queued (repository : Repository) (admits : call.Admits start repository)
      (stage : member.stage =
        .queued repository.id (Work.ifGranted (call.afterLock repository)))
      (free : member.inside = none)
      (only : ∀ id, party ∈ locks.line id → id = repository.id)
  | inside (repository : Repository) (admits : call.Admits start repository)
      (stage : member.stage = .running ∨
        call.action ≠ .removed ∧ member.stage = .fetching (call.afterFetch repository))
      (entered : member.inside = some repository.id)
      (first : (locks.line repository.id).head? = some party)
      (only : ∀ id, party ∈ locks.line id → id = repository.id)

structure Orderly (calls : P → ReconcileCall) (start : Store) (crew : Crew P) : Prop where
  sound : crew.locks.Sound
  stands : ∀ party, Stands (calls party) start crew.locks party (crew.members party)
  descends : start.Descends crew.course.store
  history : ∃ left, History calls start crew.course crew.members crew.order left

variable {call : ReconcileCall} {calls : P → ReconcileCall} {start : Store}
  {locks later : LockTable P} {party : P} {member : CrewMember} {crew : Crew P} {course : Course}
  {repository : Repository}

theorem Stands.kept {other : P} (stands : Stands call start locks other member)
    (differs : other ≠ party) (keeps : KeepsOthers party locks later) :
    Stands call start later other member := by
  cases stands with
  | outside stage free absent =>
    exact .outside stage free fun id member => absent id ((keeps other differs id).1 member)
  | queued repository admits stage free only =>
    exact .queued repository admits stage free fun id member =>
      only id ((keeps other differs id).1 member)
  | inside repository admits stage entered first only =>
    exact .inside repository admits stage entered ((keeps other differs _).2 first) fun id member =>
      only id ((keeps other differs id).1 member)

theorem Stands.first_of_inside (stands : Stands call start locks party member) {id : Int}
    (isInside : member.inside = some id) : (locks.line id).head? = some party := by
  cases stands with
  | outside stage free absent => cases free.symm.trans isInside
  | queued repository admits stage free only => cases free.symm.trans isInside
  | inside repository admits stage entered first only =>
    obtain rfl := Option.some.inj (entered.symm.trans isInside)
    exact first

theorem Stands.outside_of (stands : Stands call start locks party member)
    (stage : member.stage = .idle ∨ ∃ outcome, member.stage = .returned outcome) :
    member.inside = none ∧ ∀ id, party ∉ locks.line id := by
  cases stands with
  | outside _ free absent => exact ⟨free, absent⟩
  | queued repository _ queued => simp [queued] at stage
  | inside repository _ stages =>
    rcases stages with running | ⟨-, fetching⟩
    · simp [running] at stage
    · simp [fetching] at stage

theorem Stands.queued_of (stands : Stands call start locks party member) {id : Int}
    {next : Except HubError Unit → Program (Except HubError Outcome)}
    (stage : member.stage = .queued id next) :
    ∃ repository, call.Admits start repository ∧ repository.id = id ∧
      next = Work.ifGranted (call.afterLock repository) ∧ member.inside = none ∧
        ∀ other, party ∈ locks.line other → other = repository.id := by
  cases stands with
  | outside stages => simp [stage] at stages
  | queued repository admits queued free only =>
    obtain ⟨rfl, rfl⟩ := CrewStage.queued.inj (queued.symm.trans stage)
    exact ⟨repository, admits, rfl, rfl, free, only⟩
  | inside repository _ stages => simp [stage] at stages

theorem Stands.fetching_of (stands : Stands call start locks party member)
    {next : Except HubError String → Program (Except HubError Outcome)}
    (stage : member.stage = .fetching next) :
    ∃ repository, call.Admits start repository ∧ call.action ≠ .removed ∧
      next = call.afterFetch repository ∧ member.inside = some repository.id ∧
        (locks.line repository.id).head? = some party ∧
          ∀ other, party ∈ locks.line other → other = repository.id := by
  cases stands with
  | outside stages => simp [stage] at stages
  | queued repository _ queued => cases queued.symm.trans stage
  | inside repository admits stages entered first only =>
    rcases stages with running | ⟨notRemoved, fetching⟩
    · cases running.symm.trans stage
    · obtain rfl := CrewStage.fetching.inj (fetching.symm.trans stage)
      exact ⟨repository, admits, notRemoved, rfl, entered, first, only⟩

theorem orderly_start (calls : P → ReconcileCall) (start : Store) :
    Orderly calls start { course := .start start } where
  sound := LockTable.sound_nil
  stands _ := .outside (Or.inl rfl) rfl fun _ => List.not_mem_nil
  descends := .refl start
  history := by
    refine ⟨[], rfl, fun _ => nofun, ?_, fun id => Or.inr ⟨fun _ => nofun, rfl⟩, fun _ _ _ => nofun⟩
    rintro party (isLeft | isIn)
    · cases isLeft
    · cases isIn

namespace Orderly

theorem eq_of_inside (orderly : Orderly calls start crew) {other : P} {id : Int}
    (isInside : (crew.members other).inside = some id)
    (first : (crew.locks.line id).head? = some party) : other = party :=
  Option.some.inj (((orderly.stands other).first_of_inside isInside).symm.trans first)

theorem note (orderly : Orderly calls start crew) (entry : Call × Option HubError) :
    Orderly calls start
      { crew with course := { store := crew.course.store, log := entry :: crew.course.log } } where
  sound := orderly.sound
  stands := orderly.stands
  descends := orderly.descends
  history := by
    obtain ⟨left, history⟩ := orderly.history
    refine ⟨left, { history with ready := fun lawful unfailing => history.ready lawful ?_ }⟩
    intro request e member
    exact unfailing request e (List.mem_cons_of_mem entry member)

variable [DecidableEq P]

theorem stands_update (orderly : Orderly calls start crew)
    (keeps : KeepsOthers party crew.locks locks)
    (stands : Stands (calls party) start locks party member) :
    ∀ other, Stands (calls other) start locks other
      (Function.update crew.members party member other) := by
  refine (Function.forall_update_iff crew.members fun other member =>
    Stands (calls other) start locks other member).mpr ⟨stands, fun other differs => ?_⟩
  exact (orderly.stands other).kept differs keeps

theorem turn (orderly : Orderly calls start crew)
    (settled : ∀ outcome, (crew.members party).stage = .returned outcome →
      member.stage = .returned outcome ∧ member.fetched = (crew.members party).fetched)
    (sameInside : member.inside = (crew.members party).inside)
    (sound : locks.Sound) (keeps : KeepsOthers party crew.locks locks)
    (stands : Stands (calls party) start locks party member) :
    Orderly calls start
      { course := crew.course, locks := locks
        members := Function.update crew.members party member, order := crew.order } where
  sound := sound
  stands := orderly.stands_update keeps stands
  descends := orderly.descends
  history := by
    obtain ⟨left, history⟩ := orderly.history
    exact ⟨left, history.turn settled sameInside⟩

theorem returns (orderly : Orderly calls start crew)
    (running : (crew.members party).stage = .running) (free : (crew.members party).inside = none)
    (absent : ∀ id, party ∉ crew.locks.line id) (outcome : Except HubError Outcome) :
    Orderly calls start (advance party (.done outcome) crew) := by
  refine orderly.turn (fun _ returned => ?_) rfl orderly.sound
    (LockTable.keepsOthers_refl party crew.locks)
    (.outside (Or.inr (Or.inr ⟨outcome, rfl⟩)) free absent)
  cases running.symm.trans returned

theorem queues (orderly : Orderly calls start crew)
    (admits : (calls party).Admits start repository)
    (running : (crew.members party).stage = .running) (free : (crew.members party).inside = none)
    (absent : ∀ id, party ∉ crew.locks.line id) :
    Orderly calls start (advance party
      (.ask (.acquire repository.id) (Work.ifGranted ((calls party).afterLock repository)))
        crew) := by
  refine orderly.turn (fun _ returned => ?_) rfl (orderly.sound.request (absent _))
    (LockTable.keepsOthers_request orderly.sound (absent _))
    (.queued repository admits rfl free fun id member => ?_)
  · cases running.symm.trans returned
  · rw [LockTable.line_request orderly.sound (absent _)] at member
    split at member
    · next here => exact here
    · exact absurd member (absent id)

theorem opens (orderly : Orderly calls start crew)
    (triggered : Reconcile.triggers (calls party).identity (calls party).path = true)
    (running : (crew.members party).stage = .running) (free : (crew.members party).inside = none)
    (absent : ∀ id, party ∉ crew.locks.line id) {found : Except HubError (Option Repository)}
    (isFound : crew.course.store.findRepository .model (calls party).identity.owner
      (calls party).identity.name = found) :
    Orderly calls start (advance party (Reconcile.opening (calls party).config (calls party).identity
      (calls party).reference (calls party).action found) crew) := by
  unfold Reconcile.opening
  split
  · exact orderly.returns running free absent _
  · exact orderly.returns running free absent _
  · next repository =>
    split
    · next expected =>
      have asked := orderly.note (.isCancelled, none)
      rw [Work.run_holding]
      show Orderly calls start
        (advance party (Work.unlessCancelled _ (.ok (crew.members party).isCancelled)) _)
      cases (crew.members party).isCancelled with
      | true => exact asked.returns running free absent _
      | false =>
        refine asked.queues ⟨triggered, ?_, expected⟩ running free absent
        exact (orderly.descends.findRepository _ _ _).symm.trans isFound
    · exact orderly.returns running free absent _

theorem begins (orderly : Orderly calls start crew)
    (running : (crew.members party).stage = .running) (free : (crew.members party).inside = none)
    (absent : ∀ id, party ∉ crew.locks.line id) :
    Orderly calls start (advance party (calls party).task crew) := by
  unfold ReconcileCall.task Work.attempt
  by_cases triggered : Reconcile.triggers (calls party).identity (calls party).path = true
  · rw [Reconcile.run_reconcile _ triggered]
    exact (orderly.note _).opens triggered running free absent rfl
  · unfold Reconcile.reconcile
    rw [if_pos (by simpa using triggered)]
    exact orderly.returns running free absent _

theorem enters (orderly : Orderly calls start crew) (admits : (calls party).Admits start repository)
    (going : ∀ outcome, (crew.members party).stage ≠ .returned outcome)
    (free : (crew.members party).inside = none)
    (first : (crew.locks.line repository.id).head? = some party)
    (only : ∀ id, party ∈ crew.locks.line id → id = repository.id) :
    Orderly calls start
      { course := crew.course, locks := crew.locks
        members := Function.update crew.members party
          { crew.members party with stage := .running, inside := some repository.id }
        order := crew.order ++ [party] } where
  sound := orderly.sound
  stands := orderly.stands_update (LockTable.keepsOthers_refl party crew.locks)
    (.inside repository admits (Or.inl rfl) rfl first only)
  descends := orderly.descends
  history := by
    obtain ⟨left, history⟩ := orderly.history
    refine ⟨left, history.enter admits going rfl free fun other isInside => ?_⟩
    obtain rfl := orderly.eq_of_inside isInside first
    cases free.symm.trans isInside

end Orderly

/-- What belongs to a repository is answered at once. -/
theorem advance_bind [DecidableEq P] {α : Type} {program : Program α} {id : Int}
    (abides : program.Abides (Call.Belongs id) crew.course.store)
    (next : α → Program (Except HubError Outcome)) {value : α} {last : Course}
    (ran : Program.run (crew.members party).conditions.answer program crew.course =
      (some value, last)) :
    advance party (program >>= next) crew =
      advance party (next value) { crew with course := last } := by
  induction program generalizing crew with
  | done result =>
    obtain ⟨same, rfl⟩ := Prod.mk.inj ran
    rw [Option.some.inj same]
    rfl
  | ask call answered ih =>
    -- Questions to the store and looks at the token take no move of their own.
    obtain ⟨belongs, rest⟩ := abides
    let asked := crew.members party
    have answer := asked.conditions.anyAnswers_after call crew.course
    have onward := @ih _ { crew with course := asked.conditions.after call crew.course }
      (rest _ _ answer) ran
    cases call with
    | store request => exact onward
    | isCancelled => exact onward
    | _ => exact belongs.elim

theorem advance_leave [DecidableEq P] (id : Int) (value : Except HubError Outcome) (crew : Crew P) :
    advance party (.ask (.release id) fun _ => .done value) crew =
      { course := crew.course, locks := crew.locks.leave party
        members := Function.update crew.members party
          { crew.members party with stage := .returned value, inside := none }
        order := crew.order } := by
  simp only [advance, edit, Function.update_self, Function.update_idem]

/-- A member that has been cancelled does not get as far as to ask whether it has been. -/
theorem run_pass {action : FileAction}
    (quiet : member.isCancelled = true →
      ¬Reconcile.Acts action (ReconcileCall.fetchedOr member.fetched)) :
    Program.run member.conditions.answer
        (Reconcile.pass repository action (ReconcileCall.fetchedOr member.fetched)).run course =
      Program.run (Conditions.calm fun _ => ReconcileCall.fetchedOr member.fetched).answer
        (Reconcile.pass repository action (ReconcileCall.fetchedOr member.fetched)).run course := by
  unfold CrewMember.conditions
  cases cancelled : member.isCancelled with
  | true =>
    obtain ⟨e, throws⟩ : ∃ e, Reconcile.pass repository action
        (ReconcileCall.fetchedOr member.fetched) = throw e :=
      Reconcile.pass_of_not_acts (quiet cancelled)
    rw [throws]
    rfl
  | false => rfl

namespace Orderly

variable [DecidableEq P]

/-- A pass is carried out in one go, and then the lock is released. -/
theorem passes (orderly : Orderly calls start crew) (admits : (calls party).Admits start repository)
    (running : (crew.members party).stage = .running)
    (entered : (crew.members party).inside = some repository.id)
    (quiet : (crew.members party).isCancelled = true → ¬Reconcile.Acts (calls party).action
      (ReconcileCall.fetchedOr (crew.members party).fetched)) :
    Orderly calls start (advance party ((calls party).afterFetch repository
      (ReconcileCall.fetchedOr (crew.members party).fetched)) crew) := by
  have going : ∀ outcome, (crew.members party).stage ≠ .returned outcome := by
    intro outcome returned
    cases running.symm.trans returned
  have abides : Program.Abides (Call.Belongs repository.id) (Reconcile.pass repository
      (calls party).action (ReconcileCall.fetchedOr (crew.members party).fetched)).run
        crew.course.store := Reconcile.abides_pass crew.course.store
  obtain ⟨value, last, ran⟩ := Conditions.run_answers
    (.calm fun _ => ReconcileCall.fetchedOr (crew.members party).fetched)
    (Reconcile.pass repository (calls party).action
      (ReconcileCall.fetchedOr (crew.members party).fetched)).run crew.course
  unfold ReconcileCall.afterFetch Work.releasing
  rw [advance_bind abides _ ((run_pass quiet).trans ran), advance_leave]
  exact {
    sound := orderly.sound.leave
    stands := orderly.stands_update (LockTable.keepsOthers_leave orderly.sound)
      (.outside (Or.inr (Or.inr ⟨value, rfl⟩)) rfl (LockTable.not_mem_line_leave orderly.sound))
    descends := orderly.descends.trans (Conditions.run_of_abides abides ran).2
    history := by
      obtain ⟨left, history⟩ := orderly.history
      refine ⟨left ++ [party], history.conclude admits going entered (fun other isInside => ?_)
        orderly.descends ran rfl rfl rfl⟩
      exact orderly.eq_of_inside isInside ((orderly.stands party).first_of_inside entered) }

theorem proceeds (orderly : Orderly calls start crew)
    (admits : (calls party).Admits start repository)
    (running : (crew.members party).stage = .running)
    (entered : (crew.members party).inside = some repository.id)
    (only : ∀ id, party ∈ crew.locks.line id → id = repository.id)
    (uncancelled : (crew.members party).isCancelled = false) :
    Orderly calls start (advance party ((calls party).afterLock repository) crew) := by
  by_cases removed : (calls party).action = .removed
  · rw [ReconcileCall.afterLock_removed removed
      (ReconcileCall.fetchedOr (crew.members party).fetched)]
    refine orderly.passes admits running entered fun cancelled => ?_
    cases uncancelled.symm.trans cancelled
  · have first := (orderly.stands party).first_of_inside entered
    rw [ReconcileCall.afterLock_eq removed]
    show Orderly calls start (advance party
      (Work.unlessCancelled _ (.ok (crew.members party).isCancelled) >>= _) _)
    rw [uncancelled]
    refine (orderly.note (.isCancelled, none)).turn (fun _ returned => ?_) rfl orderly.sound
      (LockTable.keepsOthers_refl party crew.locks)
      (.inside repository admits (Or.inr ⟨removed, rfl⟩) entered first only)
    cases running.symm.trans returned

theorem step_begin (orderly : Orderly calls start crew) (party : P) :
    Orderly calls start (crew.step calls (.begin party)) := by
  unfold Crew.step
  dsimp only
  split
  · next idle =>
    obtain ⟨free, absent⟩ := (orderly.stands party).outside_of (Or.inl idle)
    have marked : Orderly calls start
        (crew.edit party fun member => { member with stage := .running }) := by
      refine orderly.turn (fun _ returned => ?_) rfl orderly.sound
        (LockTable.keepsOthers_refl party crew.locks) (.outside (Or.inr (Or.inl rfl)) free absent)
      cases idle.symm.trans returned
    refine marked.begins ?_ ?_ absent
    · simp [edit]
    · simp [edit, free]
  · exact orderly

theorem step_cancel (orderly : Orderly calls start crew) (party : P) :
    Orderly calls start (crew.step calls (.cancel party)) := by
  refine orderly.turn (fun _ returned => ⟨returned, rfl⟩) rfl orderly.sound
    (LockTable.keepsOthers_refl party crew.locks) ?_
  cases orderly.stands party with
  | outside stage free absent => exact .outside stage free absent
  | queued repository admits stage free only => exact .queued repository admits stage free only
  | inside repository admits stage entered first only =>
    exact .inside repository admits stage entered first only

theorem abandons (orderly : Orderly calls start crew) {id : Int}
    {next : Except HubError Unit → Program (Except HubError Outcome)}
    (queued : (crew.members party).stage = .queued id next)
    (free : (crew.members party).inside = none) (outcome : Except HubError Outcome) :
    Orderly calls start (advance party (.done outcome)
      { crew.edit party fun member => { member with stage := .running } with
        locks := crew.locks.leave party }) := by
  have absent := @LockTable.not_mem_line_leave _ _ party _ orderly.sound
  have marked : Orderly calls start
      { crew.edit party fun member => { member with stage := .running } with
        locks := crew.locks.leave party } := by
    refine orderly.turn (fun _ returned => ?_) rfl orderly.sound.leave
      (LockTable.keepsOthers_leave orderly.sound)
      (.outside (Or.inr (Or.inl rfl)) free absent)
    cases queued.symm.trans returned
  refine marked.returns ?_ ?_ absent outcome
  · simp [edit]
  · simp [edit, free]

theorem step_resume (orderly : Orderly calls start crew) (party : P) :
    Orderly calls start (crew.step calls (.resume party)) := by
  unfold Crew.step
  dsimp only
  split
  · next id next queued =>
    obtain ⟨repository, admits, rfl, rfl, free, only⟩ := (orderly.stands party).queued_of queued
    split
    · exact orderly.abandons queued free _
    · next uncancelled =>
      split
      · next holds =>
        rw [orderly.sound.holder?_eq] at holds
        have entered := orderly.enters admits (fun _ returned => ?_) free holds only
        · refine entered.proceeds admits ?_ ?_ only ?_
          · simp
          · simp
          · simpa using uncancelled
        · cases queued.symm.trans returned
      · exact orderly
  · exact orderly

theorem step_answer (orderly : Orderly calls start crew) (party : P)
    (reply : Except HubError String) :
    Orderly calls start (crew.step calls (.answer party reply)) := by
  unfold Crew.step
  dsimp only
  split
  · next next fetching =>
    obtain ⟨repository, admits, notRemoved, rfl, entered, first, only⟩ :=
      (orderly.stands party).fetching_of fetching
    generalize came : (if (crew.members party).isCancelled then .error .cancelled else reply :
      Except HubError String) = outcome
    have marked : Orderly calls start (crew.edit party fun member =>
        { member with stage := .running, fetched := some outcome }) := by
      refine orderly.turn (fun _ returned => ?_) rfl orderly.sound
        (LockTable.keepsOthers_refl party crew.locks)
        (.inside repository admits (Or.inl rfl) entered first only)
      cases fetching.symm.trans returned
    have member : (crew.edit party fun member =>
        { member with stage := .running, fetched := some outcome }).members party =
          { crew.members party with stage := .running, fetched := some outcome } :=
      Function.update_self ..
    have passed := @passes _ _ _ party _ repository _ marked admits
    rw [member] at passed
    -- A call that was cancelled while it fetched has nothing to act upon.
    refine passed rfl entered fun cancelled acts => ?_
    rw [if_pos cancelled] at came
    subst came
    rcases acts with removed | ⟨architecture, read⟩
    · exact notRemoved removed
    · cases read
  · exact orderly

theorem step (orderly : Orderly calls start crew) (move : CrewMove P) :
    Orderly calls start (crew.step calls move) := by
  cases move with
  | begin party => exact orderly.step_begin party
  | cancel party => exact orderly.step_cancel party
  | resume party => exact orderly.step_resume party
  | answer party reply => exact orderly.step_answer party reply

end Orderly

theorem orderly_run [DecidableEq P] (calls : P → ReconcileCall) (start : Store)
    (moves : List (CrewMove P)) : Orderly calls start (run calls start moves) := by
  suffices onward : ∀ crew, Orderly calls start crew →
      Orderly calls start (moves.foldl (Crew.step calls) crew) from
    onward _ (orderly_start calls start)
  induction moves with
  | nil => exact fun _ => id
  | cons move rest ih => exact fun crew orderly => ih _ (orderly.step move)

end Crew

end ModelHub
