import ModelHub.Proofs.Engine.Transcript

namespace ModelHub

open Program (Tells Transcript)

def Call.IsOfStore : Call → Store → Prop
  | .store _, _ => True
  | _, _ => False

def Call.IsRelease : Call → Prop
  | .release _ => True
  | _ => False

namespace Exchange

/-- The push is found to be cancelled, or a wait ends because of it. -/
def notices : Exchange → Bool
  | ⟨.isCancelled, .ok true⟩ => true
  | ⟨.acquire _, .error .cancelled⟩ => true
  | ⟨.fetch .., .error .cancelled⟩ => true
  | _ => false

/-- Nothing but locks given back follows on a cancellation that is noticed, and the end is right. -/
def Heed (said : List Exchange) (ends : Prop) : Prop :=
  ∀ before wait after, said = before ++ wait :: after → wait.notices = true →
    (∀ exchange ∈ after, exchange.call.IsRelease) ∧ ends

theorem reply_of_notices {call : Call} {reply : Except HubError call.Reply}
    (isOther : call ≠ .isCancelled) (noticed : notices ⟨call, reply⟩ = true) :
    reply = .error .cancelled := by
  unfold notices at noticed
  split at noticed
  · next same => exact absurd (congrArg Exchange.call same) isOther
  · next same =>
    cases same
    rfl
  · next same =>
    cases same
    rfl
  · cases noticed

variable {said first rest before after : List Exchange} {wait : Exchange} {ends middle : Prop}

theorem split_append (isSplit : first ++ rest = before ++ wait :: after) :
    (∃ later, before = first ++ later ∧ rest = later ++ wait :: after) ∨
      ∃ later, first = before ++ wait :: later ∧ after = later ++ rest := by
  rcases List.append_eq_append_iff.mp isSplit with ⟨later, inBefore, inRest⟩ | ⟨later, inFirst, isRest⟩
  · exact Or.inl ⟨later, inBefore, inRest⟩
  cases later with
  | nil => exact Or.inl ⟨[], by rw [inFirst, List.append_nil, List.append_nil], isRest.symm⟩
  | cons exchange later =>
    obtain ⟨rfl, rfl⟩ := List.cons.inj isRest
    exact Or.inr ⟨later, inFirst, rfl⟩

theorem heed_of_quiet (quiet : ∀ exchange ∈ said, exchange.notices = false) : Heed said ends := by
  rintro before wait after rfl noticed
  exact absurd ((quiet wait List.mem_append_cons_self).symm.trans noticed) Bool.false_ne_true

theorem heed_singleton {exchange : Exchange} (ended : exchange.notices = true → ends) :
    Heed [exchange] ends := by
  intro before wait after isSplit noticed
  cases before with
  | nil =>
    obtain ⟨rfl, rfl⟩ := List.cons.inj isSplit
    exact ⟨fun _ absent => absurd absent List.not_mem_nil, ended noticed⟩
  | cons first before =>
    obtain ⟨-, nothing⟩ := List.cons.inj isSplit
    exact absurd nothing.symm (List.append_ne_nil_of_right_ne_nil before (List.cons_ne_nil wait after))

theorem Heed.quiet (heed : Heed said ends) (goesOn : ¬ ends) :
    ∀ exchange ∈ said, exchange.notices = false := by
  intro exchange member
  obtain ⟨before, after, isSplit⟩ := List.append_of_mem member
  exact Bool.eq_false_iff.mpr fun noticed => goesOn (heed before exchange after isSplit noticed).2

theorem heed_append (heedFirst : Heed first middle) (heedRest : Heed rest ends)
    (close : middle → (∀ exchange ∈ rest, exchange.call.IsRelease) ∧ ends) :
    Heed (first ++ rest) ends := by
  intro before wait after isSplit noticed
  rcases split_append isSplit with ⟨later, -, inRest⟩ | ⟨later, inFirst, rfl⟩
  · exact heedRest later wait after inRest noticed
  · obtain ⟨released, held⟩ := heedFirst before wait later inFirst noticed
    obtain ⟨releasedThen, ended⟩ := close held
    exact ⟨fun other member => (List.mem_append.mp member).elim (released other)
      (releasedThen other), ended⟩

theorem Heed.behind (heed : Heed rest ends) (quiet : ∀ exchange ∈ first, exchange.notices = false)
    (isSplit : first ++ rest = before ++ wait :: after) (noticed : wait.notices = true) :
    first <+: before ∧ ends := by
  rcases split_append isSplit with ⟨later, rfl, inRest⟩ | ⟨later, rfl, -⟩
  · exact ⟨List.prefix_append first later, (heed later wait after inRest noticed).2⟩
  · have unnoticed := quiet wait (List.mem_append_right before List.mem_cons_self)
    exact absurd (unnoticed.symm.trans noticed) Bool.false_ne_true

end Exchange

namespace Program

variable {α β : Type} {ends closed : α → Prop} {last : β → Prop}

/-- Once a cancellation is noticed, the program ends with a certain value. -/
def Heeds (program : Program α) (ends : α → Prop) : Prop :=
  Tells Store.anyAnswers program fun value said => Exchange.Heed said (ends value)

def Closes (program : Program α) (ends : α → Prop) : Prop :=
  Tells Store.anyAnswers program fun value said =>
    (∀ exchange ∈ said, exchange.call.IsRelease) ∧ ends value

theorem heeds_done (value : α) : (done value).Heeds ends :=
  tells_done (Exchange.heed_of_quiet fun _ absent => absurd absent List.not_mem_nil)

theorem closes_done {value : α} (ended : ends value) : (done value).Closes ends :=
  tells_done ⟨fun _ absent => absurd absent List.not_mem_nil, ended⟩

theorem heeds_bind {program : Program α} {next : α → Program β} (heeds : program.Heeds ends)
    (rest : ∀ value, (next value).Heeds last)
    (close : ∀ value, ends value → (next value).Closes last) : (program >>= next).Heeds last := by
  refine tells_bind (Tells.mono heeds ?_)
  intro value said heed after later result state transcript
  exact Exchange.heed_append heed (rest value after later result state transcript) fun ended =>
    close value ended after later result state transcript

theorem Heeds.mono {program : Program α} (heeds : program.Heeds ends)
    (weaken : ∀ value, ends value → closed value) : program.Heeds closed := by
  refine Tells.mono heeds ?_
  intro value said heed before wait after isSplit noticed
  exact (heed before wait after isSplit noticed).imp id (weaken value)

theorem heeds_of_store {program : Program α}
    (asksStore : ∀ store, Abides Call.IsOfStore program store) : program.Heeds ends := by
  intro store said value last transcript
  refine Exchange.heed_of_quiet fun exchange member => ?_
  obtain ⟨_, _, isOfStore, -⟩ :=
    transcript.allowed (fun _ _ _ _ => id) (asksStore store) exchange member
  obtain ⟨call, reply⟩ := exchange
  cases call with
  | store request => rfl
  | _ => exact isOfStore.elim

theorem heeds_isCancelled : Work.isCancelled.Heeds (· = true) := by
  rintro store said isCancelled last ⟨reply, rest, middle, rfl, -, onward⟩
  rcases reply with e | answer
  · obtain ⟨rfl, rfl, -⟩ := onward
    exact Exchange.heed_singleton nofun
  · obtain ⟨rfl, rfl, -⟩ := onward
    cases isCancelled with
    | true => exact Exchange.heed_singleton fun _ => rfl
    | false => exact Exchange.heed_singleton nofun

end Program

namespace Work

open Program (Closes heeds_of_store)

variable {α β : Type}

def Heeds (work : Work α) : Prop := Program.Heeds work.run (· = .error .cancelled)

theorem heeds_pure (value : α) : Heeds (pure value) := Program.heeds_done _

theorem heeds_bind {work : Work α} {next : α → Work β} (heeds : Heeds work)
    (rest : ∀ value, Heeds (next value)) : Heeds (work >>= next) := by
  refine Program.heeds_bind heeds ?_ ?_
  · intro outcome
    cases outcome with
    | ok value => exact rest value
    | error e => exact Program.heeds_done _
  · rintro _ rfl
    exact Program.closes_done rfl

theorem heeds_perform_bind {program : Program α} {next : α → Work β} {ends : α → Prop}
    (heeds : program.Heeds ends) (rest : ∀ value, Heeds (next value))
    (close : ∀ value, ends value → Closes (next value).run (· = .error .cancelled)) :
    Heeds (perform program >>= next) := by
  unfold Heeds
  rw [show (perform program >>= next).run = _ from ExceptT.run_bind_lift program next]
  exact Program.heeds_bind heeds rest close

theorem heeds_of_store {work : Work α} (asksStore : Abides Call.IsOfStore work) : Heeds work :=
  Program.heeds_of_store asksStore

theorem heeds_checkpoint : Heeds checkpoint := by
  refine heeds_perform_bind Program.heeds_isCancelled (fun isCancelled => ?_) ?_
  · cases isCancelled <;> exact Program.heeds_done _
  · rintro _ rfl
    exact Program.closes_done rfl

theorem heeds_ask {call : Call} (isOther : call ≠ .isCancelled) : Heeds (ask call) := by
  intro store said outcome last transcript
  obtain ⟨rfl, -⟩ := transcript_ask transcript
  exact Exchange.heed_singleton (Exchange.reply_of_notices isOther)

theorem heeds_askStore (request : StoreCall) : Heeds (askStore request) := heeds_ask nofun

theorem heeds_fetch (request : FileRequest) (limit : Duration) : Heeds (fetch request limit) :=
  heeds_bind heeds_checkpoint fun _ => heeds_ask nofun

theorem heeds_holding {repositoryId : Int} {work : Work α} (heeds : Heeds work) :
    Heeds (holding repositoryId work) := by
  have waits : Heeds (ask (.acquire repositoryId)) := heeds_ask nofun
  have frees : (release repositoryId).Heeds fun _ => False := by
    rintro store said _ last ⟨reply, rest, middle, rfl, -, rfl, rfl, -⟩
    exact Exchange.heed_singleton nofun
  refine heeds_bind heeds_checkpoint fun _ => heeds_bind waits fun _ => ?_
  refine heeds_perform_bind heeds (fun outcome => ?_) ?_
  · exact heeds_perform_bind frees (fun _ => Program.heeds_done outcome) nofun
  · -- The lock is given back, and the cancellation is the outcome.
    rintro _ rfl store said outcome last ⟨reply, rest, middle, rfl, -, rfl, rfl, -⟩
    exact ⟨List.forall_mem_singleton.mpr trivial, rfl⟩

/-- Attempts that only concern the store are broken off between two of them. -/
theorem heeds_attemptEach {work : α → Work Unit}
    (asksStore : ∀ value, Abides Call.IsOfStore (work value)) (values : List α) :
    Heeds (attemptEach work values) := by
  induction values with
  | nil => exact heeds_pure _
  | cons value rest ih =>
    have quiet : (attempt (work value)).Heeds fun _ => False := Program.heeds_of_store (asksStore value)
    refine heeds_bind heeds_checkpoint fun _ => heeds_perform_bind quiet (fun outcome => ?_) nofun
    exact heeds_bind ih fun later => heeds_pure _

end Work

namespace Surroundings

variable {surroundings : Surroundings} {α : Type} {program : Program α} {ends : α → Prop}

theorem heed_of_converse (heeds : program.Heeds ends) (before : Dialogue) :
    ∃ said, (surroundings.converse program before).2.exchanges = said.reverse ++ before.exchanges ∧
      Exchange.Heed said (ends (surroundings.converse program before).1) := by
  obtain ⟨said, noted, transcript⟩ := surroundings.transcript_converse
    (fun call dialogue => surroundings.anyAnswers_reply dialogue call) program before
  exact ⟨said, noted, heeds _ _ _ _ transcript⟩

theorem heed_of_run (heeds : program.Heeds ends) {store : Store} {value : α} {dialogue : Dialogue}
    (ran : surroundings.run program store = (value, dialogue)) :
    Exchange.Heed dialogue.exchanges.reverse (ends value) :=
  heeds _ _ _ _ (transcript_run (fun call dialogue => surroundings.anyAnswers_reply dialogue call) ran)

end Surroundings

end ModelHub
