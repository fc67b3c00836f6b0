import ModelHub.Proofs.Engine.Transcript

/-! Attempts in a transcript. A checkpoint stands in front of each, so the checkpoints cut a transcript
into pieces, one for each attempt. -/

namespace ModelHub

open Program (Transcript)

namespace Exchange

def isCheckpoint (exchange : Exchange) : Bool := exchange.call = .isCancelled

def goesOn : Exchange := ⟨.isCancelled, .ok false⟩

/-- A transcript cut at its checkpoints. -/
def pieces (said : List Exchange) : List (List Exchange) := said.splitOnP isCheckpoint

def lastPiece (said : List Exchange) : List Exchange := (pieces said).getLastD []

def joined (parts : List (List Exchange)) : List Exchange := parts.flatMap fun part => goesOn :: part

@[simp] theorem joined_nil : joined [] = [] := rfl

@[simp] theorem joined_cons (part : List Exchange) (parts : List (List Exchange)) :
    joined (part :: parts) = goesOn :: (part ++ joined parts) := by
  simp only [joined, List.flatMap_cons, List.cons_append]

theorem joined_append (parts others : List (List Exchange)) :
    joined (parts ++ others) = joined parts ++ joined others := List.flatMap_append

theorem forall_joined {holds : Exchange → Prop} {parts : List (List Exchange)} (idle : holds goesOn)
    (each : ∀ part ∈ parts, ∀ exchange ∈ part, holds exchange) :
    ∀ exchange ∈ joined parts, holds exchange := by
  induction parts with
  | nil => exact fun _ member => absurd member List.not_mem_nil
  | cons part parts ih =>
    obtain ⟨first, later⟩ := List.forall_mem_cons.mp each
    rw [joined_cons]
    exact List.forall_mem_cons.mpr ⟨idle, List.forall_mem_append.mpr ⟨first, ih later⟩⟩

theorem pieces_plain {said : List Exchange}
    (plain : ∀ exchange ∈ said, exchange.isCheckpoint = false) : pieces said = [said] :=
  List.splitOnP_eq_singleton plain

theorem mem_of_mem_pieces {said piece : List Exchange} (isPiece : piece ∈ pieces said)
    {exchange : Exchange} (member : exchange ∈ piece) : exchange ∈ said := by
  induction said generalizing piece with
  | nil =>
    rw [pieces, List.splitOnP_nil, List.mem_singleton] at isPiece
    exact isPiece ▸ member
  | cons first rest ih =>
    rw [pieces, List.splitOnP_cons_eq_if_modifyHead] at isPiece
    split at isPiece
    · rcases List.mem_cons.mp isPiece with rfl | later
      · exact absurd member List.not_mem_nil
      · exact List.mem_cons_of_mem first (ih later member)
    · cases cut : rest.splitOnP isCheckpoint with
      | nil => exact absurd cut (List.splitOnP_ne_nil _ _)
      | cons head others =>
        rw [cut, List.modifyHead_cons] at isPiece
        have pieces_rest : pieces rest = head :: others := cut
        rcases List.mem_cons.mp isPiece with rfl | later
        · rcases List.mem_cons.mp member with rfl | inHead
          · exact List.mem_cons_self
          · exact List.mem_cons_of_mem first (ih (pieces_rest ▸ List.mem_cons_self) inHead)
        · exact List.mem_cons_of_mem first (ih (pieces_rest ▸ List.mem_cons_of_mem head later) member)

theorem pieces_append (before after : List Exchange) :
    pieces (before ++ goesOn :: after) = pieces before ++ pieces after :=
  List.splitOnP_append_cons before after rfl

theorem pieces_joined {parts : List (List Exchange)}
    (plain : ∀ part ∈ parts, ∀ exchange ∈ part, exchange.isCheckpoint = false)
    (before after : List Exchange) :
    pieces (before ++ (joined parts ++ goesOn :: after)) = pieces before ++ (parts ++ pieces after) := by
  induction parts generalizing before with
  | nil => exact pieces_append before after
  | cons part parts ih =>
    obtain ⟨first, later⟩ := List.forall_mem_cons.mp plain
    rw [joined_cons, List.cons_append, pieces_append, List.append_assoc, ih later, pieces_plain first]
    rfl

theorem filterMap_joined {β : Type} {pick : Exchange → Option β} (idle : pick goesOn = none)
    (parts : List (List Exchange)) :
    (joined parts).filterMap pick = parts.flatMap fun part => part.filterMap pick := by
  induction parts with
  | nil => rfl
  | cons part parts ih =>
    rw [joined_cons, List.filterMap_cons_none idle, List.filterMap_append, ih, List.flatMap_cons]

end Exchange

namespace Work

variable {faults : HubError → Prop} {files : FileRequest → Except HubError String} {α β : Type}
  {work : α → Work Unit} {values : List α} {store after : Store} {parts : List (List Exchange)}
  {attempts : Attempts α}

/-- Attempts on some values, one after the other, with the piece of transcript that belongs to each. -/
inductive Attempted (faults : HubError → Prop) (files : FileRequest → Except HubError String)
    (work : α → Work Unit) :
    List α → Store → List (List Exchange) → Attempts α → Store → Prop
  | nil (store : Store) :
      Attempted faults files work [] store [] { succeeded := [], failures := [] } store
  | cons {value : α} {rest : List α} {store middle after : Store} {part : List Exchange}
      {parts : List (List Exchange)} {outcome : Except HubError Unit} {later : Attempts α}
      (made : Transcript (Store.answers faults files) (work value).run store part outcome middle)
      (others : Attempted faults files work rest middle parts later after) :
      Attempted faults files work (value :: rest) store (part :: parts) (later.add value outcome) after

theorem transcript_goesOn {said : List Exchange} {outcome : Except HubError Unit}
    (transcript : Transcript (Store.answers faults files) checkpoint.run store said outcome after) :
    said = [Exchange.goesOn] ∧ outcome = .ok () ∧ after = store := by
  obtain ⟨reply, rest, middle, rfl, ⟨rfl, rfl⟩, rfl, rfl, rfl⟩ := transcript
  exact ⟨rfl, rfl, rfl⟩

theorem transcript_fetch {request : FileRequest} {limit : Duration} {said : List Exchange}
    {outcome : Except HubError String}
    (transcript : Transcript (Store.answers faults files) (fetch request limit).run store said outcome
      after) :
    said = [Exchange.goesOn, ⟨.fetch request limit, outcome⟩] ∧ outcome = files request ∧
      after = store := by
  rcases transcript_bind transcript with ⟨e, -, stopped⟩ | ⟨_, rest, _, _, rfl, passed, fetched⟩
  · cases (transcript_goesOn stopped).2.1
  · obtain ⟨rfl, -, rfl⟩ := transcript_goesOn passed
    obtain ⟨rfl, same, unchanged⟩ := transcript_ask fetched
    exact ⟨rfl, same, unchanged⟩

variable {said : List Exchange} {outcome : Except HubError β}

theorem transcript_attempt_bind {work : Work α} {next : Except HubError α → Work β}
    (transcript : Transcript (Store.answers faults files) (perform (attempt work) >>= next).run store
      said outcome after) :
    ∃ part rest result middle, said = part ++ rest ∧
      Transcript (Store.answers faults files) work.run store part result middle ∧
        Transcript (Store.answers faults files) (next result).run middle rest outcome after := by
  rcases transcript_bind transcript with ⟨e, -, failed⟩ | ⟨part, rest, _, middle, rfl, begun, onward⟩
  · cases (transcript_attempt failed).choose_spec.1
  · obtain ⟨result, same, made⟩ := transcript_attempt begun
    obtain rfl := Except.ok.inj same
    exact ⟨part, rest, _, middle, rfl, made, onward⟩

theorem transcript_checkpoint_bind {next : Unit → Work β}
    (transcript : Transcript (Store.answers faults files) (checkpoint >>= next).run store said outcome
      after) :
    ∃ rest, said = Exchange.goesOn :: rest ∧
      Transcript (Store.answers faults files) (next ()).run store rest outcome after := by
  rcases transcript_bind transcript with ⟨e, -, stopped⟩ | ⟨_, rest, _, _, rfl, passed, onward⟩
  · cases (transcript_goesOn stopped).2.1
  · obtain ⟨rfl, -, rfl⟩ := transcript_goesOn passed
    exact ⟨rest, rfl, onward⟩

theorem transcript_askStore_bind {request : StoreCall} {next : request.Reply → Work β}
    (transcript : Transcript (Store.answers faults files) (askStore request >>= next).run store said
      outcome after) :
    (∃ e, outcome = .error e ∧ said = [⟨.store request, .error e⟩]) ∨
      ∃ value rest middle, said = ⟨.store request, .ok value⟩ :: rest ∧
        store.perform request = (.ok value, middle) ∧
          Transcript (Store.answers faults files) (next value).run middle rest outcome after := by
  rcases transcript_bind transcript with ⟨e, rfl, failed⟩ | ⟨_, rest, value, middle, rfl, asked, onward⟩
  · exact Or.inl ⟨e, rfl, (transcript_askStore_error failed).1⟩
  · obtain ⟨rfl, performed⟩ := transcript_askStore_ok asked
    exact Or.inr ⟨value, rest, middle, rfl, performed, onward⟩

theorem transcript_attemptEach {outcome : Except HubError (Attempts α)}
    (transcript : Transcript (Store.answers faults files) (attemptEach work values).run store said
      outcome after) :
    ∃ parts attempts, said = Exchange.joined parts ∧ outcome = .ok attempts ∧
      Attempted faults files work values store parts attempts after := by
  induction values generalizing store after said outcome with
  | nil =>
    obtain ⟨rfl, rfl, rfl⟩ := transcript
    exact ⟨[], _, rfl, rfl, .nil after⟩
  | cons value rest ih =>
    obtain ⟨_, rfl, tries⟩ := transcript_checkpoint_bind transcript
    obtain ⟨part, _, tried, _, rfl, made, goesOn⟩ := transcript_attempt_bind tries
    rcases transcript_bind goesOn with ⟨e, -, failed⟩ | ⟨_, _, _, _, rfl, others, ended⟩
    · obtain ⟨_, _, -, impossible, -⟩ := ih failed
      cases impossible
    obtain ⟨parts, later, rfl, same, attempted⟩ := ih others
    obtain rfl := Except.ok.inj same
    obtain ⟨rfl, rfl, rfl⟩ := ended
    refine ⟨part :: parts, _, ?_, rfl, .cons made attempted⟩
    rw [Exchange.joined_cons, List.append_nil]

theorem transcript_attemptEach_bind {next : Attempts α → Work β}
    (transcript : Transcript (Store.answers faults files) (attemptEach work values >>= next).run store
      said outcome after) :
    ∃ parts rest attempts middle, said = Exchange.joined parts ++ rest ∧
      Attempted faults files work values store parts attempts middle ∧
        Transcript (Store.answers faults files) (next attempts).run middle rest outcome after := by
  rcases transcript_bind transcript with ⟨e, -, failed⟩ | ⟨_, rest, _, middle, rfl, begun, onward⟩
  · obtain ⟨_, _, -, impossible, -⟩ := transcript_attemptEach failed
    cases impossible
  · obtain ⟨parts, attempts, rfl, same, attempted⟩ := transcript_attemptEach begun
    obtain rfl := Except.ok.inj same
    exact ⟨parts, rest, _, middle, rfl, attempted, onward⟩

namespace Attempted

theorem forall_part (attempted : Attempted faults files work values store parts attempts after)
    {holds : List Exchange → Prop}
    (each : ∀ value ∈ values, ∀ store part outcome after,
      Transcript (Store.answers faults files) (work value).run store part outcome after → holds part) :
    ∀ part ∈ parts, holds part := by
  induction attempted with
  | nil => exact fun _ member => absurd member List.not_mem_nil
  | cons made others ih =>
    obtain ⟨first, later⟩ := List.forall_mem_cons.mp each
    exact List.forall_mem_cons.mpr ⟨first _ _ _ _ made, ih later⟩

theorem keeps (attempted : Attempted faults files work values store parts attempts after)
    {kept : Store → Prop}
    (each : ∀ value ∈ values, ∀ store part outcome after, kept store →
      Transcript (Store.answers faults files) (work value).run store part outcome after → kept after)
    (holds : kept store) : kept after := by
  induction attempted with
  | nil => exact holds
  | cons made others ih =>
    obtain ⟨first, later⟩ := List.forall_mem_cons.mp each
    exact ih later (first _ _ _ _ holds made)

theorem count (attempted : Attempted faults files work values store parts attempts after) :
    attempts.succeeded.length + attempts.failures.length = values.length := by
  induction attempted with
  | nil => rfl
  | @cons _ _ _ _ _ _ _ outcome later _ _ ih =>
    cases outcome <;> simp only [Attempts.add, List.length_cons] <;> omega

theorem map_succeeded (attempted : Attempted faults files work values store parts attempts after)
    {f : α → β} {shown : List Exchange → Option β}
    (each : ∀ value ∈ values, ∀ store part outcome after,
      Transcript (Store.answers faults files) (work value).run store part outcome after →
        (outcome = .ok () → shown part = some (f value)) ∧
          ∀ e, outcome = .error e → shown part = none) :
    attempts.succeeded.map f = parts.filterMap shown := by
  induction attempted with
  | nil => rfl
  | @cons _ _ _ _ _ _ _ outcome later made others ih =>
    obtain ⟨first, later⟩ := List.forall_mem_cons.mp each
    obtain ⟨shows, hides⟩ := first _ _ _ _ made
    cases outcome with
    | ok _ =>
      rw [List.filterMap_cons_some (shows rfl), ← ih later]
      rfl
    | error e =>
      rw [List.filterMap_cons_none (hides e rfl), ← ih later]
      rfl

/-- What is picked out of the pieces, if every piece gives just one for its value. -/
theorem flatMap_parts (attempted : Attempted faults files work values store parts attempts after)
    {f : α → β} {shown : List Exchange → List β}
    (each : ∀ value ∈ values, ∀ store part outcome after,
      Transcript (Store.answers faults files) (work value).run store part outcome after →
        shown part = [f value]) :
    parts.flatMap shown = values.map f := by
  induction attempted with
  | nil => rfl
  | cons made others ih =>
    obtain ⟨first, later⟩ := List.forall_mem_cons.mp each
    rw [List.flatMap_cons, first _ _ _ _ made, ih later]
    rfl

end Attempted

end Work

end ModelHub
