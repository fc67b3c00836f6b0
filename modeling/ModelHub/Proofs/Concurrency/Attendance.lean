import Mathlib.Data.List.Basic
import ModelHub.Concurrency.Tokens

/-! What makes a state of the tokens sound. Who waits has either noted a count of calls that is out of
date by the time of joining the queue, or is in the queue of a cell whose flag is not set, or there
is still a cancellation between its flag and its call. -/

namespace ModelHub

section Modify

variable {α β : Type} {xs : List α} {change : α → α} {i : Nat} {x : α}

theorem mem_of_mem_modify (found : x ∈ xs.modify i change) :
    x ∈ xs ∨ ∃ old, xs[i]? = some old ∧ x = change old := by
  obtain ⟨j, at_j⟩ := List.mem_iff_getElem?.mp found
  rw [List.getElem?_modify] at at_j
  obtain ⟨old, was, now⟩ := Option.map_eq_some_iff.mp at_j
  by_cases same : i = j
  · exact .inr ⟨old, same ▸ was, by rw [← now, if_pos same]⟩
  · exact .inl (List.mem_iff_getElem?.mpr ⟨j, by rw [was, ← now, if_neg same]⟩)

theorem mem_modify_self (found : xs[i]? = some x) : change x ∈ xs.modify i change :=
  List.mem_iff_getElem?.mpr ⟨i, by simp [found]⟩

theorem mem_modify_or (found : x ∈ xs) : x ∈ xs.modify i change ∨ xs[i]? = some x := by
  obtain ⟨j, at_j⟩ := List.mem_iff_getElem?.mp found
  by_cases same : i = j
  · exact .inr (same ▸ at_j)
  · exact .inl (List.mem_iff_getElem?.mpr ⟨j, by simp [at_j, same]⟩)

theorem map_modify_of_keeps (view : α → β) (keeps : ∀ x, view (change x) = view x) :
    (xs.modify i change).map view = xs.map view := by
  refine List.ext_getElem? fun j => ?_
  rw [List.getElem?_map, List.getElem?_map, List.getElem?_modify]
  cases xs[j]? with
  | none => rfl
  | some old =>
    simp only [Option.map_some]
    split
    · exact congrArg some (keeps old)
    · rfl

theorem modify_of_fixed (fixed : ∀ old, xs[i]? = some old → change old = old) :
    xs.modify i change = xs := by
  refine List.ext_getElem? fun j => ?_
  rw [List.getElem?_modify]
  cases at_j : xs[j]? with
  | none => rfl
  | some old =>
    by_cases same : i = j
    · simp [same, fixed old (same ▸ at_j)]
    · simp [same]

end Modify

namespace Errand

@[simp] theorem next_cell (clock : Nat) (errand : Errand) :
    (errand.next clock).cell = errand.cell := by
  unfold next
  split
  · split <;> rfl
  · rfl
  · rfl

@[simp] theorem next_due (clock : Nat) (errand : Errand) :
    (errand.next clock).due = errand.due := by
  unfold next
  split
  · split <;> rfl
  · rfl
  · rfl

theorem acted_next {clock : Nat} {errand : Errand}
    (acts : errand.due ≤ clock ∨ errand.stage ≠ .waiting) : (errand.next clock).stage ≠ .waiting := by
  unfold next
  grind

theorem done_next {clock : Nat} {errand : Errand} (done : errand.stage = .done) :
    errand.next clock = errand := by
  simp only [next, done]

end Errand

namespace Runner

@[simp] theorem next_cell (clock : Nat) (signal : Signal) (runner : Runner) :
    (runner.next clock signal).cell = runner.cell := by
  unfold next
  grind

@[simp] theorem next_finish (clock : Nat) (signal : Signal) (runner : Runner) :
    (runner.next clock signal).finish = runner.finish := by
  unfold next
  grind

end Runner

namespace Tokens

def appointments (tokens : Tokens) : List (Nat × Nat) :=
  tokens.errands.map fun errand => (errand.cell, errand.due)

/-- A cancellation of the cell has set the flag and is about to make its call. -/
def Calling (tokens : Tokens) (cell : Nat) : Prop :=
  ∃ errand ∈ tokens.errands, errand.cell = cell ∧ errand.stage = .calling

/-- Someone who waits for the cell cannot miss its cancellation. -/
def Attends (tokens : Tokens) (cell : Nat) : Wait → Prop
  | .starting => True
  | .listening since => since ≤ (tokens.signal cell).calls
  | .unset since =>
    since ≤ (tokens.signal cell).calls ∧
      (since = (tokens.signal cell).calls → tokens.isCancelled cell → tokens.Calling cell)
  | .parked => tokens.isCancelled cell → tokens.Calling cell
  | .resolved => tokens.isCancelled cell

/-- What a run has come to agrees with the instants of its task and of the cancellations. -/
def Tracks (tokens : Tokens) (runner : Runner) : Prop :=
  match runner.phase with
  | .ended .finished =>
    ∃ finish, runner.finish = some finish ∧ finish ≤ tokens.clock ∧
      ∀ due, (runner.cell, due) ∈ tokens.appointments → finish ≤ due
  | .ended .cancelled =>
    ∃ due, (runner.cell, due) ∈ tokens.appointments ∧ due ≤ tokens.clock ∧
      ∀ finish, runner.finish = some finish → due ≤ finish
  | .ended .abandoned => True
  | phase =>
    (∀ finish, runner.finish = some finish → tokens.clock ≤ finish) ∧
      tokens.Attends runner.cell runner.wait ∧
      (phase ≠ .checking → ∀ due, (runner.cell, due) ∈ tokens.appointments → tokens.clock ≤ due)

structure Sound (tokens : Tokens) : Prop where
  flagged : ∀ cell, tokens.isCancelled cell →
    ∃ errand ∈ tokens.errands, errand.cell = cell ∧ errand.stage ≠ .waiting
  acted : ∀ errand ∈ tokens.errands, errand.stage ≠ .waiting →
    tokens.isCancelled errand.cell ∧ errand.due ≤ tokens.clock
  overdue : ∀ errand ∈ tokens.errands, errand.due < tokens.clock → errand.stage = .done
  waiters : ∀ waiter ∈ tokens.waiters, tokens.Attends waiter.cell waiter.wait
  runners : ∀ runner ∈ tokens.runners, tokens.Tracks runner

theorem sound_empty : Sound {} where
  flagged _ set := by simp [isCancelled] at set
  acted _ found := by simp at found
  overdue _ found := by simp at found
  waiters _ found := by simp at found
  runners _ found := by simp at found

variable {tokens later : Tokens} {cell : Nat} {wait : Wait} {runner : Runner}

theorem Attends.of_same_signal (same : later.signal cell = tokens.signal cell)
    (calling : tokens.Calling cell → later.Calling cell) (attends : tokens.Attends cell wait) :
    later.Attends cell wait := by
  have flag : later.isCancelled cell = tokens.isCancelled cell := congrArg Signal.isSet same
  cases wait with
  | starting => trivial
  | listening since => simpa only [Attends, same] using attends
  | unset since =>
    simp only [Attends, same, flag]
    exact ⟨attends.1, fun recent set => calling (attends.2 recent set)⟩
  | parked =>
    simp only [Attends, flag]
    exact fun set => calling (attends set)
  | resolved => simpa only [Attends, flag] using attends

theorem Attends.next (attends : tokens.Attends cell wait) :
    tokens.Attends cell (wait.next (tokens.signal cell)) := by
  cases wait with
  | starting => exact Nat.le_refl _
  | listening since =>
    cases set : tokens.isCancelled cell with
    | true => simp [Wait.next, signal, set, Attends]
    | false => simpa [Wait.next, signal, set, Attends] using attends
  | unset since =>
    by_cases recent : since = (tokens.signal cell).calls
    · simp only [Wait.next, if_pos recent]
      exact attends.2 recent
    · simp only [Wait.next, if_neg recent]
      trivial
  | parked => exact attends
  | resolved => exact attends

/-- Between the flag and the call of a cancellation nobody is in danger. -/
theorem Attends.of_calling (calls : (later.signal cell).calls = (tokens.signal cell).calls)
    (set : tokens.isCancelled cell → later.isCancelled cell) (calling : later.Calling cell)
    (attends : tokens.Attends cell wait) : later.Attends cell wait := by
  cases wait with
  | starting => trivial
  | listening since => simpa only [Attends, calls] using attends
  | unset since => exact ⟨calls ▸ attends.1, fun _ _ => calling⟩
  | parked => exact fun _ => calling
  | resolved => exact set attends

/-- The call reaches everyone in the queue, and outdates every count noted before it. -/
theorem Attends.woken (calls : (later.signal cell).calls = (tokens.signal cell).calls + 1)
    (set : later.isCancelled cell = tokens.isCancelled cell)
    (attends : tokens.Attends cell wait) : later.Attends cell wait.woken := by
  cases wait with
  | starting => trivial
  | listening since =>
    have noted : since ≤ (tokens.signal cell).calls := attends
    simp only [Wait.woken, Attends, calls]
    omega
  | unset since =>
    have noted := attends.1
    simp only [Wait.woken, Attends, calls]
    exact ⟨by omega, fun recent => by omega⟩
  | parked => trivial
  | resolved => simpa only [Wait.woken, Attends, set] using attends

theorem Tracks.of_kept (tracks : tokens.Tracks runner) (clock : later.clock = tokens.clock)
    (kept : ∀ entry ∈ tokens.appointments, entry ∈ later.appointments)
    (ahead : ∀ entry ∈ later.appointments, entry ∈ tokens.appointments ∨ tokens.clock ≤ entry.2)
    (attends : tokens.Attends runner.cell runner.wait → later.Attends runner.cell wait) :
    later.Tracks { runner with wait } := by
  have going (finish : ∀ finish, runner.finish = some finish → tokens.clock ≤ finish)
      (early : Prop) (dues : early → ∀ due, (runner.cell, due) ∈ tokens.appointments →
        tokens.clock ≤ due) (now : tokens.Attends runner.cell runner.wait) :
      (∀ finish, runner.finish = some finish → later.clock ≤ finish) ∧
        later.Attends runner.cell wait ∧
        (early → ∀ due, (runner.cell, due) ∈ later.appointments → later.clock ≤ due) := by
    refine ⟨clock ▸ finish, attends now, fun past due found => ?_⟩
    rw [clock]
    obtain old | new := ahead _ found
    · exact dues past due old
    · exact new
  unfold Tracks at tracks ⊢
  cases stage : runner.phase with
  | ended outcome =>
    cases outcome with
    | finished =>
      simp only [stage] at tracks ⊢
      obtain ⟨finish, has, past, dues⟩ := tracks
      refine ⟨finish, has, clock ▸ past, fun due found => ?_⟩
      obtain old | new := ahead _ found
      · exact dues due old
      · exact Nat.le_trans past new
    | cancelled =>
      simp only [stage] at tracks ⊢
      obtain ⟨due, found, past, first⟩ := tracks
      exact ⟨due, kept _ found, clock ▸ past, first⟩
    | abandoned => trivial
  | checking | token | task | suspended =>
    simp only [stage] at tracks ⊢
    exact going tracks.1 _ tracks.2.2 tracks.2.1

end Tokens

end ModelHub
