import Recordkeeper.Cache

set_option autoImplicit false

namespace Recordkeeper

structure CacheEntry where
  text : String
  expires : Nat
  deriving DecidableEq, Repr

structure ExpiringCache where
  entries : List (String × CacheEntry) := []
  deriving DecidableEq, Repr

namespace ExpiringCache

def isLive (now : Nat) (e : CacheEntry) : Bool := now < e.expires

def get (now : Nat) (c : ExpiringCache) (key : String) : Option String × ExpiringCache :=
  match c.entries.lookup key with
  | none => (none, c)
  | some e =>
    if isLive now e then (some e.text, c)
    else (none, { c with entries := c.entries.filter (·.1 != key) })

def keep (c : ExpiringCache) (key text : String) (expires : Nat) : ExpiringCache :=
  { c with entries := (key, ⟨text, expires⟩) :: c.entries.filter (·.1 != key) }

/-- Drops the keys covered, which it counts, and the expired ones, which it does not. -/
def purge (now : Nat) (c : ExpiringCache) (base : String) : UInt64 × ExpiringCache :=
  (UInt64.ofNat (c.entries.countP fun e => CacheKey.covers base e.1),
    { c with entries := c.entries.filter fun e => !CacheKey.covers base e.1 && isLive now e.2 })

def contains (now : Nat) (c : ExpiringCache) (key : String) : Bool :=
  (c.entries.lookup key).any (isLive now)

def size (now : Nat) (c : ExpiringCache) : Nat := c.entries.countP fun e => isLive now e.2

end ExpiringCache

end Recordkeeper
