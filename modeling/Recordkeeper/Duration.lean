import Recordkeeper.Calendar

set_option autoImplicit false

namespace Recordkeeper

structure Duration where
  seconds : UInt64 := 0
  nanos : Nat := 0
  nanos_le : nanos ≤ 999999999 := by decide
  deriving DecidableEq, Repr

namespace Duration

def ofSeconds (n : UInt64) : Duration := { seconds := n }

def ticks (d : Duration) : Nat := 1000000000 * d.seconds.toNat + d.nanos

end Duration

namespace Clock

/-- Readings lie below: they hold their seconds in signed words of 64 bits. -/
def limit : Nat := 9223372036854775808000000000

def after? (now : Nat) (d : Duration) : Option Nat :=
  if limit ≤ now + d.ticks then none else some (now + d.ticks)

theorem eq_of_after? {now reading : Nat} {d : Duration} (h : after? now d = some reading) :
    reading = now + d.ticks := by
  unfold after? at h
  split at h
  · cases h
  · exact (Option.some.inj h).symm

end Clock

/-- A clock reading: the time of day, and billionths of a second that never run backwards. -/
structure Moment where
  wall : Timestamp
  ticks : Nat

end Recordkeeper
