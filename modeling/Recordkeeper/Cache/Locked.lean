import Recordkeeper.Cache.Expiring

/-!
A cache in memory behind a lock. An entry whose time would end past the last reading of the clock breaks
off the call that sets it. The lock is held at that point, and no call gets it again.
-/

set_option autoImplicit false

namespace Recordkeeper

inductive LockedCache where
  | sound (cache : ExpiringCache)
  /-- What it held is out of reach. -/
  | poisoned
  deriving DecidableEq, Repr

namespace LockedCache

def entries : LockedCache → List (String × CacheEntry)
  | sound c => c.entries
  | poisoned => []

def refused (access : String) : CacheError :=
  ⟨"Failed to acquire " ++ access ++ " lock: poisoned lock: another task failed inside"⟩

/-- The answer to a call, unless the call is broken off. -/
def answer? (now : Nat) : LockedCache → (q : CacheCall) → Option q.Answer × LockedCache
  | sound c, .get key => (some (.ok (c.get now key).1), sound (c.get now key).2)
  | sound c, .set key text life =>
    (Clock.after? now life).elim (none, poisoned) fun expires =>
      (some (.ok ()), sound (c.keep key text expires))
  | sound c, .purge base => (some (.ok (c.purge now base).1), sound (c.purge now base).2)
  | poisoned, .get _ => (some (.error (refused "read")), poisoned)
  | poisoned, .set .. => (some (.error (refused "write")), poisoned)
  | poisoned, .purge _ => (some (.error (refused "write")), poisoned)

/-- The answer to a call, where a failure stands for one that is broken off. -/
def answer (now : Nat) (c : LockedCache) (q : CacheCall) : q.Answer × LockedCache :=
  ((c.answer? now q).1.getD (.error ⟨"overflow when adding duration to instant"⟩),
    (c.answer? now q).2)

def contains (now : Nat) : LockedCache → String → Bool
  | sound c, key => c.contains now key
  | poisoned, _ => false

def size (now : Nat) : LockedCache → Nat
  | sound c => c.size now
  | poisoned => 0

def isEmpty (now : Nat) (c : LockedCache) : Bool := c.size now = 0

end LockedCache

end Recordkeeper
