import ModelHub.Time.Calendar

namespace ModelHub

/-- Seconds from 1970-01-01T00:00:00Z. A leap second continues the second before it: its
nanoseconds count on from one thousand million. -/
structure Instant where
  seconds : Int
  nanos : Nat
  deriving DecidableEq, Repr, Inhabited

namespace Instant

structure Clock where
  hour : Nat
  minute : Nat
  second : Nat
  nanos : Nat
  deriving DecidableEq, Repr

def date (instant : Instant) : Calendar.Date := .ofDays (instant.seconds / 86400)

def clock (instant : Instant) : Clock :=
  let ofDay := (instant.seconds % 86400).toNat
  { hour := ofDay / 3600
    minute := ofDay / 60 % 60
    second := ofDay % 60 + instant.nanos / 1000000000
    nanos := instant.nanos % 1000000000 }

def ofLocal (date : Calendar.Date) (clock : Clock) (offset : Int) : Instant :=
  let isLeapSecond := clock.second = 60
  let second := if isLeapSecond then 59 else clock.second
  { seconds := date.toDays * 86400 + (clock.hour * 3600 + clock.minute * 60 + second : Nat) - offset
    nanos := clock.nanos + if isLeapSecond then 1000000000 else 0 }

end Instant

end ModelHub
