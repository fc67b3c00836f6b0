import ModelHub.Proofs.Concurrency.Crew

/-! The calls of a crew that have released their locks account for its store: it is the one that they
leave behind when they run alone, one after another, in the order of the releases. For each repository
this is also the order in which its lock was acquired. -/

namespace ModelHub

open Reconcile (Outcome)

namespace ReconcileCall

/-- The call is about a registered repository and will ask for its lock. -/
structure Admits (call : ReconcileCall) (store : Store) (repository : Repository) : Prop where
  triggers : Reconcile.triggers call.identity call.path = true
  found : store.findRepository .model call.identity.owner call.identity.name = .ok (some repository)
  expected : call.reference = Reconcile.expectedReference call.config repository

def target? (call : ReconcileCall) (store : Store) : Option Int :=
  match store.findRepository .model call.identity.owner call.identity.name with
  | .ok (some repository) => some repository.id
  | _ => none

variable {call : ReconcileCall} {start store : Store} {repository : Repository}

theorem Admits.target?_eq (admits : call.Admits store repository) :
    call.target? store = some repository.id := by
  unfold target?
  rw [admits.found]

theorem Admits.of_descends (descends : start.Descends store) (admits : call.Admits start repository) :
    call.Admits store repository where
  triggers := admits.triggers
  found := (descends.findRepository _ _ _).trans admits.found
  expected := admits.expected

def afterLock (call : ReconcileCall) (repository : Repository) : Program (Except HubError Outcome) :=
  Work.releasing repository.id
    (Reconcile.revise call.config repository call.reference call.action)

def afterFetch (call : ReconcileCall) (repository : Repository) (fetched : Except HubError String) :
    Program (Except HubError Outcome) :=
  Work.releasing repository.id (Reconcile.pass repository call.action fetched)

theorem afterLock_removed (removed : call.action = .removed) (fetched : Except HubError String) :
    call.afterLock repository = call.afterFetch repository fetched := by
  unfold afterLock afterFetch
  rw [removed]
  rfl

theorem afterLock_eq (notRemoved : call.action ≠ .removed) :
    call.afterLock repository =
      .ask .isCancelled fun reply =>
        Work.unlessCancelled
            (.ask (.fetch (Reconcile.configRequest repository call.reference)
              call.config.fetchTimeout) fun fetched =>
                (Reconcile.pass repository call.action fetched).run) reply >>=
          fun outcome => .ask (.release repository.id) fun _ => .done outcome := by
  unfold afterLock Work.releasing
  rw [Reconcile.run_revise _ _ _ notRemoved]
  rfl

theorem run_releasing {α : Type} (conditions : Conditions) (repositoryId : Int) (work : Work α)
    (course : Course) :
    (Program.run conditions.answer (Work.releasing repositoryId work) course).2.store =
      (Program.run conditions.answer work.run course).2.store := by
  unfold Work.releasing
  rw [Program.run_bind]
  obtain ⟨value, last, ran⟩ := conditions.run_answers work.run course
  rw [ran]
  rfl

/-- Alone, a call does to the store what its pass does. -/
theorem Admits.alone_eq (admits : call.Admits store repository)
    (fetched : Option (Except HubError String)) :
    call.alone fetched store =
      ((Conditions.calm fun _ => fetchedOr fetched).run
        (Reconcile.pass repository call.action (fetchedOr fetched)).run store).2.store := by
  let calm := Conditions.calm fun _ => fetchedOr fetched
  have passed : ∀ course : Course, course.store = store →
      (Program.run calm.answer (call.afterFetch repository (fetchedOr fetched)) course).2.store =
        (calm.run (Reconcile.pass repository call.action (fetchedOr fetched)).run store).2.store := by
    rintro course rfl
    unfold afterFetch
    rw [run_releasing, Conditions.run_calm]
  unfold alone task Work.attempt
  rw [Reconcile.run_reconcile _ admits.triggers]
  show (Program.run calm.answer (Reconcile.opening call.config call.identity call.reference
    call.action (store.findRepository .model call.identity.owner call.identity.name)) _).2.store = _
  rw [admits.found, Reconcile.opening, if_pos admits.expected, Work.run_holding]
  show (Program.run calm.answer (call.afterLock repository) _).2.store = _
  by_cases removed : call.action = .removed
  · rw [afterLock_removed removed (fetchedOr fetched)]
    exact passed _ rfl
  · rw [afterLock_eq removed]
    show (Program.run calm.answer (call.afterFetch repository (fetchedOr fetched)) _).2.store = _
    exact passed _ rfl

end ReconcileCall

namespace Crew

variable {P : Type}

def callsFor (calls : P → ReconcileCall) (start : Store) (repositoryId : Int) (order : List P) :
    List P :=
  order.filter fun party => (calls party).target? start = some repositoryId

/-- The calls that have released their locks account for the store, and for the order in which the
locks were acquired, but for the call that is between the two. -/
structure History (calls : P → ReconcileCall) (start : Store) (course : Course)
    (members : P → CrewMember) (order left : List P) : Prop where
  store : course.store = serially calls (fun party => (members party).fetched) left start
  returned : ∀ party ∈ left, ∃ outcome, (members party).stage = .returned outcome
  admits : ∀ party, party ∈ left ∨ party ∈ order →
    ∃ repository, (calls party).Admits start repository
  pending : ∀ id,
    (∃ party, (members party).inside = some id ∧
      callsFor calls start id order = callsFor calls start id left ++ [party]) ∨
    (∀ party, (members party).inside ≠ some id) ∧
      callsFor calls start id order = callsFor calls start id left
  ready : start.Lawful → course.Unfailing → ∀ party ∈ left, ∀ repository,
    (calls party).Admits start repository →
      Reconcile.Acts (calls party).action (ReconcileCall.fetchedOr (members party).fetched) →
        (start.profile repository.id).Legible

variable {calls : P → ReconcileCall} {start : Store} {course last : Course}
  {members : P → CrewMember} {order left : List P} {party : P} {member : CrewMember}
  {repository : Repository}

theorem serially_congr {fetched others : P → Option (Except HubError String)}
    (same : ∀ party ∈ order, fetched party = others party) (store : Store) :
    serially calls fetched order store = serially calls others order store := by
  unfold serially
  refine List.foldl_ext _ _ _ fun store party member => ?_
  rw [same party member]

theorem serially_append (fetched : P → Option (Except HubError String)) (order : List P) (party : P)
    (store : Store) :
    serially calls fetched (order ++ [party]) store =
      (calls party).alone (fetched party) (serially calls fetched order store) :=
  List.foldl_append

theorem callsFor_append (id : Int) (order : List P)
    (admits : (calls party).Admits start repository) :
    callsFor calls start id (order ++ [party]) =
      if repository.id = id then callsFor calls start id order ++ [party]
      else callsFor calls start id order := by
  unfold callsFor
  rw [List.filter_append, List.filter_singleton, admits.target?_eq]
  by_cases same : repository.id = id
  · simp [same]
  · simp [same]

theorem History.not_mem (history : History calls start course members order left)
    (going : ∀ outcome, (members party).stage ≠ .returned outcome) {other : P}
    (isLeft : other ∈ left) : other ≠ party := by
  rintro rfl
  obtain ⟨outcome, returned⟩ := history.returned other isLeft
  exact going outcome returned

variable [DecidableEq P]

theorem History.turn (history : History calls start course members order left)
    (settled : ∀ outcome, (members party).stage = .returned outcome →
      member.stage = .returned outcome ∧ member.fetched = (members party).fetched)
    (sameInside : member.inside = (members party).inside) :
    History calls start course (Function.update members party member) order left := by
  have unchanged : ∀ other ∈ left,
      (∃ outcome, (Function.update members party member other).stage = .returned outcome) ∧
        (Function.update members party member other).fetched = (members other).fetched := by
    refine (Function.forall_update_iff members fun other member => other ∈ left →
      (∃ outcome, member.stage = .returned outcome) ∧
        member.fetched = (members other).fetched).mpr ⟨fun isLeft => ?_, fun other _ isLeft => ?_⟩
    · obtain ⟨outcome, returned⟩ := history.returned party isLeft
      exact ⟨⟨outcome, (settled outcome returned).1⟩, (settled outcome returned).2⟩
    · exact ⟨history.returned other isLeft, rfl⟩
  have insides : ∀ other,
      (Function.update members party member other).inside = (members other).inside :=
    (Function.forall_update_iff members fun other member =>
      member.inside = (members other).inside).mpr ⟨sameInside, fun _ _ => rfl⟩
  refine ⟨?_, fun other isLeft => (unchanged other isLeft).1, history.admits, ?_, ?_⟩
  · refine history.store.trans (serially_congr (fun other isLeft => ?_) start)
    exact (unchanged other isLeft).2.symm
  · simp only [insides]
    exact history.pending
  · intro lawful unfailing other isLeft repository admits acts
    rw [(unchanged other isLeft).2] at acts
    exact history.ready lawful unfailing other isLeft repository admits acts

theorem History.enter (history : History calls start course members order left)
    (admits : (calls party).Admits start repository)
    (going : ∀ outcome, (members party).stage ≠ .returned outcome)
    (entered : member.inside = some repository.id) (free : (members party).inside = none)
    (nobody : ∀ other, (members other).inside ≠ some repository.id) :
    History calls start course (Function.update members party member) (order ++ [party]) left := by
  have others : ∀ {other}, other ∈ left → other ≠ party := history.not_mem going
  refine ⟨?_, ?_, ?_, ?_, ?_⟩
  · refine history.store.trans (serially_congr (fun other isLeft => ?_) start)
    rw [Function.update_of_ne (others isLeft)]
  · intro other isLeft
    rw [Function.update_of_ne (others isLeft)]
    exact history.returned other isLeft
  · rintro other (isLeft | isIn)
    · exact history.admits other (Or.inl isLeft)
    · rcases List.mem_append.mp isIn with old | new
      · exact history.admits other (Or.inr old)
      · exact ⟨repository, List.mem_singleton.mp new ▸ admits⟩
  · intro id
    rw [callsFor_append id order admits]
    rcases history.pending id with ⟨other, isInside, account⟩ | ⟨free, account⟩
    · have differs : other ≠ party := by
        rintro rfl
        rw [free] at isInside
        cases isInside
      rw [if_neg fun here : repository.id = id => nobody other (here.symm ▸ isInside)]
      refine Or.inl ⟨other, ?_, account⟩
      rw [Function.update_of_ne differs]
      exact isInside
    · by_cases here : repository.id = id
      · rw [if_pos here, account]
        refine Or.inl ⟨party, ?_, rfl⟩
        rw [Function.update_self, entered, here]
      · rw [if_neg here]
        refine Or.inr ⟨(Function.forall_update_iff members fun _ member =>
          member.inside ≠ some id).mpr ⟨?_, fun other _ => free other⟩, account⟩
        rw [entered]
        exact fun same => here (Option.some.inj same)
  · intro lawful unfailing other isLeft
    rw [Function.update_of_ne (others isLeft)]
    exact history.ready lawful unfailing other isLeft

/-- Once the call that has the lock of a repository has left it, nobody has it. -/
theorem History.pending_conclude (history : History calls start course members order left)
    (admits : (calls party).Admits start repository)
    (entered : (members party).inside = some repository.id)
    (single : ∀ other, (members other).inside = some repository.id → other = party)
    (outside : member.inside = none) (id : Int) :
    (∃ other, (Function.update members party member other).inside = some id ∧
      callsFor calls start id order = callsFor calls start id (left ++ [party]) ++ [other]) ∨
    (∀ other, (Function.update members party member other).inside ≠ some id) ∧
      callsFor calls start id order = callsFor calls start id (left ++ [party]) := by
  rw [callsFor_append id left admits]
  by_cases here : repository.id = id
  · subst here
    rw [if_pos rfl]
    rcases history.pending repository.id with ⟨other, isInside, account⟩ | ⟨free, -⟩
    · rw [single other isInside] at account
      refine Or.inr ⟨(Function.forall_update_iff members fun _ member =>
        member.inside ≠ some repository.id).mpr ⟨?_, fun other self isInside => ?_⟩, account⟩
      · rw [outside]
        exact nofun
      · exact self (single other isInside)
    · exact absurd entered (free party)
  · rw [if_neg here]
    have insides : ∀ other, (Function.update members party member other).inside = some id ↔
        (members other).inside = some id := by
      refine (Function.forall_update_iff members fun other member =>
        member.inside = some id ↔ (members other).inside = some id).mpr ⟨?_, fun _ _ => Iff.rfl⟩
      rw [outside, entered]
      exact iff_of_false nofun fun same => here (Option.some.inj same)
    simp only [ne_eq, insides]
    exact history.pending id

theorem History.conclude (history : History calls start course members order left)
    (admits : (calls party).Admits start repository)
    (going : ∀ outcome, (members party).stage ≠ .returned outcome)
    (entered : (members party).inside = some repository.id)
    (single : ∀ other, (members other).inside = some repository.id → other = party)
    (descends : start.Descends course.store) {value : Except HubError Outcome}
    (ran : Program.run
      (Conditions.calm fun _ => ReconcileCall.fetchedOr (members party).fetched).answer
      (Reconcile.pass repository (calls party).action
        (ReconcileCall.fetchedOr (members party).fetched)).run course = (some value, last))
    (returned : member.stage = .returned value) (outside : member.inside = none)
    (sameFetched : member.fetched = (members party).fetched) :
    History calls start last (Function.update members party member) order (left ++ [party]) := by
  -- The call has not returned, so it is not among those that left before.
  have others : ∀ {other}, other ∈ left → other ≠ party := history.not_mem going
  have alone := ran
  rw [Conditions.run_calm] at alone
  obtain ⟨ended, rfl⟩ := Prod.mk.inj alone
  refine ⟨?_, ?_, ?_, history.pending_conclude admits entered single outside, ?_⟩
  · rw [serially_append, Function.update_self, sameFetched]
    have before : serially calls (fun other => (Function.update members party member other).fetched)
        left start = course.store := by
      refine (serially_congr (fun other isLeft => ?_) start).trans history.store.symm
      rw [Function.update_of_ne (others isLeft)]
    rw [before, (admits.of_descends descends).alone_eq]
    rfl
  · intro other isLeft
    rcases List.mem_append.mp isLeft with old | new
    · rw [Function.update_of_ne (others old)]
      exact history.returned other old
    · rw [List.mem_singleton.mp new, Function.update_self]
      exact ⟨value, returned⟩
  · rintro other (isLeft | isIn)
    · rcases List.mem_append.mp isLeft with old | new
      · exact history.admits other (Or.inl old)
      · exact ⟨repository, List.mem_singleton.mp new ▸ admits⟩
    · exact history.admits other (Or.inr isIn)
  · intro lawful unfailing other isLeft mine otherAdmits acts
    obtain ⟨unfailingAlone, before⟩ := Course.unfailing_append.mp unfailing
    rcases List.mem_append.mp isLeft with old | new
    · rw [Function.update_of_ne (others old)] at acts
      exact history.ready lawful before other old mine otherAdmits acts
    · obtain rfl := List.mem_singleton.mp new
      rw [Function.update_self, sameFetched] at acts
      obtain rfl : repository = mine :=
        Option.some.inj (Except.ok.inj (admits.found.symm.trans otherAdmits.found))
      refine (descends.legible_iff lawful repository.id).mp ?_
      exact Reconcile.ready_of_unfailing (descends.lawful lawful) (Prod.ext ended rfl) unfailingAlone
        acts

end Crew

end ModelHub
