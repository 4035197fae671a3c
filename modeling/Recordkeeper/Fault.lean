import Recordkeeper.Program

/-!
Handlers that misbehave by a script. A call whose name the script lists is answered from it, and
the store or cache behind it is not reached; every other call goes through.
-/

set_option autoImplicit false

namespace Recordkeeper

namespace StoreCall

variable {α : Type}

def name : StoreCall α → String
  | find .. => "find_by_id"
  | query .. => "query"
  | count _ => "count"
  | insert _ => "insert"
  | save _ => "save"
  | updateFields .. => "update_fields"
  | softDelete _ => "soft_delete"
  | clearTombstone _ => "clear_tombstone"
  | hardDelete _ => "hard_delete"

def nothing : (c : StoreCall α) → c.Result
  | find .. => (none : Option α)
  | query .. => ([] : List α)
  | insert x => x
  | count _ | save _ | updateFields .. | softDelete _ | clearTombstone _ | hardDelete _ =>
    (0 : UInt64)

end StoreCall

namespace CacheCall

def name : CacheCall → String
  | get _ => "get"
  | set .. => "set"
  | purge _ => "delete_by_pattern"

def nothing : (c : CacheCall) → c.Result
  | get _ => (none : Option String)
  | set .. => ()
  | purge _ => (0 : UInt64)

end CacheCall

inductive Fault where
  /-- Answers as if there were nothing to find or to change. -/
  | empty
  | failure (error : StoreError)
  deriving DecidableEq, Repr

namespace Fault

def backend : String := "probe"

def reason : String := "scripted"

/-- A fault by its name; names that are not known make the store unavailable. -/
def ofName (s : String) : Fault :=
  if s = "empty" then empty
  else if s = "Connection" then failure (.connection backend reason)
  else if s = "Query" then failure (.query backend reason)
  else if s = "Constraint" then failure (.constraint backend reason)
  else if s = "Serialization" then failure (.serialization backend reason)
  else failure (.unavailable backend)

variable {α : Type}

def storeAnswer : Fault → (c : StoreCall α) → c.Answer
  | empty, c => .ok c.nothing
  | failure e, _ => .error e

def cacheAnswer : Fault → (c : CacheCall) → c.Answer
  | empty, c => .ok c.nothing
  | failure _, _ => .error ⟨reason⟩

end Fault

/-- Faults by the names of calls, such as `store.insert`, or `store.*` and `cache.*` for those not
listed themselves. -/
abbrev FaultScript := List (String × Fault)

def FaultScript.find? (script : FaultScript) (place call : String) : Option Fault :=
  (script.lookup (place ++ "." ++ call)).or (script.lookup (place ++ ".*"))

variable {σ α : Type}

def Handler.withFaults (script : FaultScript) (h : Handler σ α) : Handler σ α where
  store c s :=
    match script.find? "store" c.name with
    | some fault => (fault.storeAnswer c, s)
    | none => h.store c s
  cache c s :=
    match script.find? "cache" c.name with
    | some fault => (fault.cacheAnswer c, s)
    | none => h.cache c s

theorem Handler.withFaults_nil (h : Handler σ α) : h.withFaults [] = h := rfl

end Recordkeeper
