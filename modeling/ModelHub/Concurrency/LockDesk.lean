import ModelHub.Concurrency.LockTable

/-!
Locks held and awaited under names. Each request draws a number, which is its party in the table; a
name stands for the last request made under it.
-/

namespace ModelHub

structure LockSlip where
  name : String
  number : Nat
  isPatient : Bool
  deriving DecidableEq, Repr

structure LockDesk where
  table : LockTable Nat := []
  nextNumber : Nat := 0
  slips : List LockSlip := []
  deriving DecidableEq, Repr

namespace LockDesk

inductive Step where
  | lock (repositoryId : Int)
  | queue (repositoryId : Int)
  | unlock
  deriving DecidableEq, Repr

inductive Result where
  | acquired
  | blocked
  | queued
  | released
  | abandoned
  | notHeld
  deriving DecidableEq, Repr

def slip? (desk : LockDesk) (name : String) : Option LockSlip :=
  desk.slips.find? fun slip => slip.name = name

def drop (desk : LockDesk) (name : String) : LockDesk :=
  match desk.slip? name with
  | none => desk
  | some slip =>
    { desk with
      table := desk.table.leave slip.number
      slips := desk.slips.filter fun other => other.name ≠ name }

def draw (desk : LockDesk) (repositoryId : Int) : LockDesk :=
  { desk with
    table := desk.table.request repositoryId desk.nextNumber
    nextNumber := desk.nextNumber + 1 }

def keep (desk : LockDesk) (slip : LockSlip) : LockDesk :=
  let desk := desk.drop slip.name
  { desk with slips := desk.slips ++ [slip] }

def step (desk : LockDesk) (name : String) : Step → Result × LockDesk
  | .lock repositoryId =>
    let number := desk.nextNumber
    let drawn := desk.draw repositoryId
    if drawn.table.holds number then (.acquired, drawn.keep ⟨name, number, false⟩)
    else (.blocked, { drawn with table := drawn.table.leave number })
  | .queue repositoryId =>
    (.queued, (desk.draw repositoryId).keep ⟨name, desk.nextNumber, true⟩)
  | .unlock =>
    match desk.slip? name with
    | none => (.notHeld, desk)
    | some slip =>
      (if desk.table.holds slip.number then .released else .abandoned, desk.drop name)

def patientStates (desk : LockDesk) : List (String × Bool) :=
  (desk.slips.filter LockSlip.isPatient).map fun slip => (slip.name, desk.table.holds slip.number)

end LockDesk

end ModelHub
