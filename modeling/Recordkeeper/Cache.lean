import Recordkeeper.Duration
import Recordkeeper.Entity
import Recordkeeper.Error

/-!
What a cache is asked, and the keys under which records are kept. All variants of one record stand
under its base key or under that key, a colon and more.
-/

set_option autoImplicit false

namespace Recordkeeper

inductive CacheCall where
  | get (key : String)
  | set (key text : String) (life : Duration)
  | purge (base : String)
  deriving DecidableEq, Repr

namespace CacheCall

def Result : CacheCall → Type
  | get _ => Option String
  | set .. => Unit
  | purge _ => UInt64

abbrev Answer (c : CacheCall) : Type := Except CacheError c.Result

end CacheCall

namespace CacheKey

def base (space entity : String) (id : Id) : String := space ++ entity ++ ":" ++ toString id

def variant (space entity : String) (id : Id) (preloads : List String) : String :=
  if preloads.isEmpty then base space entity id
  else base space entity id ++ ":" ++ "-".intercalate preloads

/-- Whether a key is the base key or one of its variants. -/
def covers (base key : String) : Bool := key = base || (base ++ ":").toList.isPrefixOf key.toList

end CacheKey

end Recordkeeper
