import ModelHub.Proofs.Reconcile.Proceedings

/-! The orders for rows in what a settlement says: they are tried once each, every one in its own piece
between two checkpoints, and what is stored follows from them alone. -/

namespace ModelHub

open Program (Transcript)

namespace Exchange

def removals (said : List Exchange) : List (Association × Option HubError) :=
  said.filterMap dissociation?

def additions (said : List Exchange) : List (Association × Option HubError) :=
  said.filterMap association?

end Exchange

open Exchange (additions removals)

variable {faults : HubError → Prop} {files : FileRequest → Except HubError String}

theorem Store.linkAll_associations (store : Store) (repositoryId : Int) (tags : List Tag) :
    (store.linkAll repositoryId tags).associations = store.associations := by
  induction tags generalizing store with
  | nil => rfl
  | cons tag rest ih => exact ih (store.link repositoryId tag.id).2

theorem Exchange.mem_associations {exchange : Exchange} {store after : Store}
    (answered : Store.answers faults files exchange.call store exchange.reply after)
    (oneByOne : ∀ repositoryId, exchange.call ≠ .store (.dissociateAll repositoryId))
    (row : Association) :
    row ∈ after.associations ↔
      row ∈ store.associations ∧ exchange.dissociation? ≠ some (row, none) ∨
        exchange.association? = some (row, none) := by
  obtain ⟨call, reply⟩ := exchange
  have kept : after.associations = store.associations → dissociation? ⟨call, reply⟩ ≠ some (row, none) →
      association? ⟨call, reply⟩ ≠ some (row, none) →
      (row ∈ after.associations ↔ row ∈ store.associations ∧
        dissociation? ⟨call, reply⟩ ≠ some (row, none) ∨
          association? ⟨call, reply⟩ = some (row, none)) := by
    intro same notRemoved notAdded
    simp only [same, ne_eq, notRemoved, notAdded, not_false_eq_true, and_true, or_false]
  cases call with
  | store request =>
    rcases answered with ⟨value, rfl, performed⟩ | ⟨e, -, rfl, rfl⟩
    · have ended : (store.perform request).2 = after := congrArg Prod.snd performed
      cases request with
      | associate association =>
        have same : (some (association, none) : Option (Association × Option HubError)) =
            some (row, none) ↔ row = association := by simp [eq_comm]
        rw [← ended]
        show row ∈ (store.associate association).2.associations ↔
          row ∈ store.associations ∧ none ≠ some (row, none) ∨ some (association, none) = some (row, none)
        simp only [Store.associate, mem_insertNew, same]
        simp [or_comm]
      | dissociate association =>
        have same : (some (association, none) : Option (Association × Option HubError)) =
            some (row, none) ↔ row = association := by simp [eq_comm]
        rw [← ended]
        show row ∈ (store.dissociate association).2.associations ↔
          row ∈ store.associations ∧ some (association, none) ≠ some (row, none) ∨ none = some (row, none)
        simp only [Store.dissociate, mem_deleteRow, ne_eq, same]
        simp [and_comm]
      | dissociateAll repositoryId => exact absurd rfl (oneByOne repositoryId)
      | ensureTag scope category group name =>
        refine kept ?_ (by simp [dissociation?]) (by simp [association?])
        rw [← ended]
        exact store.ensureTag_associations scope category group name
      | replaceTags repositoryId category tags =>
        refine kept ?_ (by simp [dissociation?]) (by simp [association?])
        rw [← ended]
        simp only [Store.perform, Store.replaceTags]
        split
        · next replaced =>
          split at replaced
          · cases replaced
          · obtain rfl := Except.ok.inj replaced
            exact Store.linkAll_associations _ repositoryId tags
        · rfl
      | _ =>
        refine kept ?_ (by simp [dissociation?]) (by simp [association?])
        rw [← ended]
        rfl
    · cases request <;> exact kept rfl (by simp [dissociation?, ModelHub.failure?])
        (by simp [association?, ModelHub.failure?])
  | now | isCancelled | acquire | fetch =>
    exact kept (congrArg Store.associations answered.2) (by simp [dissociation?])
      (by simp [association?])
  | submit | release =>
    exact kept (congrArg Store.associations answered) (by simp [dissociation?])
      (by simp [association?])

variable {α : Type} {program : Program α} {store after : Store} {said : List Exchange} {value : α}
  {row : Association}

theorem mem_of_unadded (transcript : Transcript (Store.answers faults files) program store said value after)
    (oneByOne : ∀ exchange ∈ said, ∀ repositoryId, exchange.call ≠ .store (.dissociateAll repositoryId))
    (unadded : ∀ failure, (row, failure) ∉ additions said) :
    row ∈ after.associations ↔ row ∈ store.associations ∧ (row, none) ∉ removals said := by
  induction program generalizing store said with
  | done result =>
    obtain ⟨rfl, -, rfl⟩ := transcript
    simp [removals]
  | ask call next ih =>
    obtain ⟨reply, rest, middle, rfl, answered, onward⟩ := transcript
    obtain ⟨first, later⟩ := List.forall_mem_cons.mp oneByOne
    simp only [additions, List.mem_filterMap, List.mem_cons, not_exists, not_and] at unadded
    have notHere : Exchange.association? ⟨call, reply⟩ ≠ some (row, none) :=
      unadded none ⟨call, reply⟩ (Or.inl rfl)
    have step := Exchange.mem_associations answered first row
    rw [ih reply onward later ?_, step]
    · simp only [notHere, or_false, removals, List.mem_filterMap, List.mem_cons, exists_eq_or_imp,
        not_or, and_assoc, ne_eq]
    · intro failure member
      obtain ⟨exchange, isLater, same⟩ := List.mem_filterMap.mp member
      exact unadded failure exchange (Or.inr isLater) same

theorem mem_of_unremoved (transcript : Transcript (Store.answers faults files) program store said value after)
    (oneByOne : ∀ exchange ∈ said, ∀ repositoryId, exchange.call ≠ .store (.dissociateAll repositoryId))
    (unremoved : ∀ failure, (row, failure) ∉ removals said) :
    row ∈ after.associations ↔ row ∈ store.associations ∨ (row, none) ∈ additions said := by
  induction program generalizing store said with
  | done result =>
    obtain ⟨rfl, -, rfl⟩ := transcript
    simp [additions]
  | ask call next ih =>
    obtain ⟨reply, rest, middle, rfl, answered, onward⟩ := transcript
    obtain ⟨first, later⟩ := List.forall_mem_cons.mp oneByOne
    simp only [removals, List.mem_filterMap, List.mem_cons, not_exists, not_and] at unremoved
    have notHere : Exchange.dissociation? ⟨call, reply⟩ ≠ some (row, none) :=
      unremoved none ⟨call, reply⟩ (Or.inl rfl)
    have step := Exchange.mem_associations answered first row
    rw [ih reply onward later ?_, step]
    · simp only [notHere, ne_eq, not_false_eq_true, and_true, additions, List.mem_filterMap,
        List.mem_cons, exists_eq_or_imp, or_assoc]
    · intro failure member
      obtain ⟨exchange, isLater, same⟩ := List.mem_filterMap.mp member
      exact unremoved failure exchange (Or.inr isLater) same

namespace Reconcile

theorem mem_of_aside {work : Work α} {outcome : Except HubError α} (aside : work.StaysAside)
    (transcript : Transcript (Store.answers faults files) work.run store said outcome after) :
    row ∈ after.associations ↔ row ∈ store.associations := by
  have allAside := forall_aside aside transcript
  refine (mem_of_unadded transcript ?_ ?_).trans (and_iff_left ?_)
  · intro exchange member repositoryId isClearing
    have isAside := allAside exchange member
    rw [isClearing] at isAside
    exact isAside
  · intro failure member
    obtain ⟨exchange, isSaid, same⟩ := List.mem_filterMap.mp member
    rw [Exchange.association?_of_isAside (allAside exchange isSaid)] at same
    cases same
  · intro member
    obtain ⟨exchange, isSaid, same⟩ := List.mem_filterMap.mp member
    rw [Exchange.dissociation?_of_isAside (allAside exchange isSaid)] at same
    cases same

namespace Proceedings

open Exchange (dissociation?_of_isAside association?_of_isAside joined goesOn)

variable {repository : Repository} {architecture : String} {before after : Store} {report : Report}
  (proceedings : Proceedings faults files repository architecture before report after)

include proceedings

def difference : Difference :=
  Difference.between (proceedings.equipped.associationsOf repository.id)
    proceedings.desired.candidates

theorem linking_aside : ∀ part ∈ proceedings.linking, ∀ exchange ∈ part, exchange.call.IsAside :=
  proceedings.links.forall_part fun resource _ _ _ _ _ made =>
    forall_aside (aside_linkResource repository.id resource) made

theorem lookUp_aside : ∀ exchange ∈ proceedings.lookUp, exchange.call.IsAside :=
  forall_aside (aside_desiredFor _ _) proceedings.looksUp

theorem pruning_aside : ∀ exchange ∈ proceedings.pruning, exchange.call.IsAside :=
  forall_aside (aside_pruneTags _ _) proceedings.prunes

theorem isOf_toRemove {row : Association} (member : row ∈ proceedings.difference.toRemove) :
    row.repositoryId = repository.id :=
  (Store.mem_associationsOf.mp (List.mem_filter.mp member).1).2

theorem desired_of_toAdd {candidate : Candidate} (member : candidate ∈ proceedings.difference.toAdd) :
    candidate ∈ proceedings.desired.candidates := (List.mem_filter.mp member).1

theorem removing_part : ∀ part ∈ proceedings.removing, ∃ row ∈ proceedings.difference.toRemove,
    ∃ reply rest, part = ⟨.store (.dissociate row), reply⟩ :: rest ∧
      ∀ exchange ∈ rest, exchange.call.IsAside := by
  refine proceedings.removes.forall_part fun row member _ part _ _ made => ?_
  exact ⟨row, member, removal_part (proceedings.isOf_toRemove member) made⟩

theorem adding_part : ∀ part ∈ proceedings.adding, ∃ candidate ∈ proceedings.difference.toAdd,
    ∃ reply rest, part = ⟨.store (.associate (rowOf repository.id candidate)), reply⟩ :: rest ∧
      ∀ exchange ∈ rest, exchange.call.IsAside := by
  refine proceedings.adds.forall_part fun candidate member _ part _ _ made => ?_
  exact ⟨candidate, member,
    addition_part proceedings.backed (proceedings.desired_of_toAdd member) made⟩

theorem forall_said {holds : Exchange → Prop} (idle : holds goesOn)
    (aside : ∀ exchange : Exchange, exchange.call.IsAside → holds exchange)
    (removal : ∀ row ∈ proceedings.difference.toRemove, ∀ reply,
      holds ⟨.store (.dissociate row), reply⟩)
    (addition : ∀ candidate ∈ proceedings.difference.toAdd, ∀ reply,
      holds ⟨.store (.associate (rowOf repository.id candidate)), reply⟩) :
    ∀ exchange ∈ proceedings.exchanges, holds exchange := by
  refine List.forall_mem_cons.mpr ⟨aside _ trivial, List.forall_mem_append.mpr ⟨?_, ?_⟩⟩
  · exact Exchange.forall_joined idle fun part member exchange inPart =>
      aside exchange (proceedings.linking_aside part member exchange inPart)
  refine List.forall_mem_append.mpr ⟨?_, List.forall_mem_cons.mpr ⟨aside _ trivial, ?_⟩⟩
  · exact fun exchange member => aside exchange (proceedings.lookUp_aside exchange member)
  refine List.forall_mem_append.mpr ⟨?_, List.forall_mem_append.mpr ⟨?_, ?_⟩⟩
  · refine Exchange.forall_joined idle fun part member => ?_
    obtain ⟨row, toRemove, reply, rest, rfl, restAside⟩ := proceedings.removing_part part member
    exact List.forall_mem_cons.mpr ⟨removal row toRemove reply, fun exchange inRest =>
      aside exchange (restAside exchange inRest)⟩
  · refine Exchange.forall_joined idle fun part member => ?_
    obtain ⟨candidate, toAdd, reply, rest, rfl, restAside⟩ := proceedings.adding_part part member
    exact List.forall_mem_cons.mpr ⟨addition candidate toAdd reply, fun exchange inRest =>
      aside exchange (restAside exchange inRest)⟩
  · exact List.forall_mem_cons.mpr ⟨idle, fun exchange member =>
      aside exchange (proceedings.pruning_aside exchange member)⟩

/-- What is picked out of a settlement comes from the pieces for rows and frameworks, unless it comes
from what leaves the associations alone. -/
theorem filterMap_said {β : Type} {pick : Exchange → Option β} (idle : pick goesOn = none)
    (aside : ∀ exchange : Exchange, exchange.call.IsAside → pick exchange = none) :
    proceedings.exchanges.filterMap pick = (proceedings.removing.flatMap fun part => part.filterMap pick) ++
      proceedings.adding.flatMap fun part => part.filterMap pick := by
  have nothing : ∀ exchanges : List Exchange, (∀ exchange ∈ exchanges, exchange.call.IsAside) →
      exchanges.filterMap pick = [] := by
    intro exchanges allAside
    exact List.filterMap_eq_nil_iff.mpr fun exchange member => aside exchange (allAside exchange member)
  have linksNothing : (joined proceedings.linking).filterMap pick = [] := by
    refine List.filterMap_eq_nil_iff.mpr (Exchange.forall_joined idle ?_)
    exact fun part member exchange inPart =>
      aside exchange (proceedings.linking_aside part member exchange inPart)
  have skips : ∀ (request : StoreCall) (reply : Except HubError request.Reply) (rest : List Exchange),
      (Call.store request).IsAside →
        (⟨.store request, reply⟩ :: rest : List Exchange).filterMap pick = rest.filterMap pick :=
    fun request reply rest isAside => List.filterMap_cons_none (aside ⟨.store request, reply⟩ isAside)
  rw [exchanges, skips (.listResources _) _ _ trivial, List.filterMap_append, linksNothing,
    List.nil_append, List.filterMap_append, nothing _ proceedings.lookUp_aside, List.nil_append,
    skips (.listAssociations _) _ _ trivial, List.filterMap_append, List.filterMap_append,
    List.filterMap_cons_none idle,
    nothing _ proceedings.pruning_aside, List.append_nil, Exchange.filterMap_joined idle,
    Exchange.filterMap_joined idle]

theorem removals_eq : (removals proceedings.exchanges).map Prod.fst = proceedings.difference.toRemove := by
  have fromAdding : (proceedings.adding.flatMap fun part => part.filterMap Exchange.dissociation?) = [] := by
    refine List.flatMap_eq_nil_iff.mpr fun part member => List.filterMap_eq_nil_iff.mpr ?_
    obtain ⟨candidate, -, reply, rest, rfl, restAside⟩ := proceedings.adding_part part member
    exact List.forall_mem_cons.mpr ⟨rfl, fun exchange inRest =>
      dissociation?_of_isAside (restAside exchange inRest)⟩
  unfold removals
  rw [proceedings.filterMap_said rfl fun _ => dissociation?_of_isAside, fromAdding, List.append_nil,
    List.map_flatMap]
  refine (proceedings.removes.flatMap_parts fun row member _ part _ _ made => ?_).trans (List.map_id _)
  obtain ⟨reply, rest, rfl, restAside⟩ := removal_part (proceedings.isOf_toRemove member) made
  have nothing : rest.filterMap Exchange.dissociation? = [] :=
    List.filterMap_eq_nil_iff.mpr fun exchange inRest =>
      dissociation?_of_isAside (restAside exchange inRest)
  rw [List.filterMap_cons, nothing]
  rfl

theorem additions_eq :
    (additions proceedings.exchanges).map Prod.fst = proceedings.difference.toAdd.map (rowOf repository.id) := by
  have fromRemoving : (proceedings.removing.flatMap fun part => part.filterMap Exchange.association?) = [] := by
    refine List.flatMap_eq_nil_iff.mpr fun part member => List.filterMap_eq_nil_iff.mpr ?_
    obtain ⟨row, -, reply, rest, rfl, restAside⟩ := proceedings.removing_part part member
    exact List.forall_mem_cons.mpr ⟨rfl, fun exchange inRest =>
      association?_of_isAside (restAside exchange inRest)⟩
  unfold additions
  rw [proceedings.filterMap_said rfl fun _ => association?_of_isAside, fromRemoving, List.nil_append,
    List.map_flatMap]
  refine proceedings.adds.flatMap_parts fun candidate member _ part _ _ made => ?_
  obtain ⟨reply, rest, rfl, restAside⟩ :=
    addition_part proceedings.backed (proceedings.desired_of_toAdd member) made
  have nothing : rest.filterMap Exchange.association? = [] :=
    List.filterMap_eq_nil_iff.mpr fun exchange inRest =>
      association?_of_isAside (restAside exchange inRest)
  rw [List.filterMap_cons, nothing]
  rfl

/-- The rows that are reported as removed are those whose pieces show no failure. -/
theorem removed_eq : proceedings.removed.succeeded = proceedings.removing.filterMap Exchange.removed? := by
  refine (List.map_id _).symm.trans
    (proceedings.removes.map_succeeded fun row member _ part outcome _ made => ?_)
  have failures := failures_of_minor (minor_removeAssociation repository.id proceedings.desired row) made
  obtain ⟨reply, rest, rfl, -⟩ := removal_part (proceedings.isOf_toRemove member) made
  rw [Exchange.removed?, failures]
  cases outcome <;> simp [errorOf]

/-- Cut at its checkpoints, a settlement that follows something else ends with the pieces for its rows,
those for its frameworks and the pruning. -/
theorem pieces_eq (first : List Exchange) (calm : ∀ exchange ∈ first, exchange.dissociation? = none) :
    ∃ others, Exchange.pieces (first ++ proceedings.exchanges) =
        others ++ (proceedings.removing ++ proceedings.adding ++ [proceedings.pruning]) ∧
      others.filterMap Exchange.removed? = [] := by
  have plainOf : ∀ {exchange : Exchange} {rest : List Exchange}, exchange.isCheckpoint = false →
      (∀ other ∈ rest, other.call.IsAside) →
        ∀ other ∈ exchange :: rest, other.isCheckpoint = false := by
    intro exchange rest plain restAside
    exact List.forall_mem_cons.mpr ⟨plain, fun other member =>
      Exchange.isCheckpoint_of_isAside (restAside other member)⟩
  have plain : ∀ part ∈ proceedings.removing ++ proceedings.adding, ∀ exchange ∈ part,
      exchange.isCheckpoint = false := by
    refine List.forall_mem_append.mpr ⟨fun part member => ?_, fun part member => ?_⟩
    · obtain ⟨row, -, reply, rest, rfl, restAside⟩ := proceedings.removing_part part member
      exact plainOf rfl restAside
    · obtain ⟨candidate, -, reply, rest, rfl, restAside⟩ := proceedings.adding_part part member
      exact plainOf rfl restAside
  have pruned : Exchange.pieces proceedings.pruning = [proceedings.pruning] :=
    Exchange.pieces_plain fun exchange member =>
      Exchange.isCheckpoint_of_isAside (proceedings.pruning_aside exchange member)
  let opening : List Exchange := first ++
    ⟨.store (.listResources repository.modelName), .ok (before.resourceNames repository.modelName)⟩ ::
      (joined proceedings.linking ++ (proceedings.lookUp ++ [⟨.store (.listAssociations repository.id),
        .ok (proceedings.equipped.associationsOf repository.id)⟩]))
  have whole : first ++ proceedings.exchanges = opening ++
      (joined (proceedings.removing ++ proceedings.adding) ++ goesOn :: proceedings.pruning) := by
    rw [exchanges, Exchange.joined_append]
    simp only [opening, List.append_assoc, List.cons_append, List.nil_append]
  refine ⟨Exchange.pieces opening, ?_, ?_⟩
  · rw [whole, Exchange.pieces_joined plain, pruned]
  · refine List.filterMap_eq_nil_iff.mpr fun piece isPiece => ?_
    have calmAll : ∀ exchange ∈ opening, exchange.dissociation? = none := by
      refine List.forall_mem_append.mpr ⟨calm, List.forall_mem_cons.mpr ⟨rfl, ?_⟩⟩
      refine List.forall_mem_append.mpr ⟨Exchange.forall_joined rfl ?_, ?_⟩
      · exact fun part member exchange inPart =>
          dissociation?_of_isAside (proceedings.linking_aside part member exchange inPart)
      · refine List.forall_mem_append.mpr ⟨fun exchange member => ?_, ?_⟩
        · exact dissociation?_of_isAside (proceedings.lookUp_aside exchange member)
        · exact fun exchange member => List.mem_singleton.mp member ▸ rfl
    unfold Exchange.removed?
    split
    · next row reply rest =>
      have absent := calmAll _ (Exchange.mem_of_mem_pieces isPiece List.mem_cons_self)
      cases absent
    · rfl

end Proceedings

end Reconcile

end ModelHub
