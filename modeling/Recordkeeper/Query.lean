import Recordkeeper.Json

set_option autoImplicit false

namespace Recordkeeper

/-- Which rows a query sees: live ones, tombstoned ones, or both. -/
inductive Visibility where
  | active
  | all
  | onlyDeleted
  deriving DecidableEq, Repr

def Visibility.admits : Visibility → Bool → Bool
  | active, deleted => !deleted
  | all, _ => true
  | onlyDeleted, deleted => deleted

inductive Comparison where
  | equal
  | notEqual
  | greater
  | atLeast
  | less
  | atMost
  deriving DecidableEq, Repr

namespace Comparison

def symbol : Comparison → String
  | equal => "="
  | notEqual => "<>"
  | greater => ">"
  | atLeast => ">="
  | less => "<"
  | atMost => "<="

def every : List Comparison := [equal, notEqual, greater, atLeast, less, atMost]

def ofSymbol? (s : String) : Option Comparison := every.find? (·.symbol == s)

def holds : Comparison → Ordering → Bool
  | equal, o => o == .eq
  | notEqual, o => o != .eq
  | greater, o => o == .gt
  | atLeast, o => o != .lt
  | less, o => o == .lt
  | atMost, o => o != .gt

end Comparison

structure LikeTerm where
  field : String
  pattern : String
  deriving DecidableEq, Repr

inductive Constraint where
  | compare (field : String) (op : Comparison) (value : Json)
  | among (field : String) (values : List Json)
  | range (field : String) (low high : Json)
  | anyLike (terms : List LikeTerm)
  deriving DecidableEq

inductive Direction where
  | ascending
  | descending
  deriving DecidableEq, Repr

structure SortKey where
  field : String
  direction : Direction
  deriving DecidableEq, Repr

inductive Order where
  | keys (keys : List SortKey)
  /-- A clause that is left to the store. -/
  | raw (clause : String)
  deriving DecidableEq, Repr

structure Query where
  preloads : List String := []
  constraints : List Constraint := []
  visibility : Visibility := .active
  order : Option Order := none
  deriving DecidableEq

end Recordkeeper
