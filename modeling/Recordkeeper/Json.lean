import Recordkeeper.Number

/-!
Document values. The members of an object stand in a list, so that a document can be held as it was
written; `canonical` orders them by key and keeps the last of those that share one.
-/

set_option autoImplicit false

namespace Recordkeeper

inductive Json where
  | null
  | bool (value : Bool)
  | num (value : Number)
  | str (value : String)
  | arr (items : List Json)
  | obj (members : List (String × Json))

abbrev Object := List (String × Json)

namespace Object

def get? (key : String) : Object → Option Json
  | [] => none
  | (k, v) :: r => if k = key then some v else get? key r

def has (key : String) (o : Object) : Bool := (o.get? key).isSome

/-- Sets a member, which goes to its place in key order if it is new. -/
def put (key : String) (value : Json) : Object → Object
  | [] => [(key, value)]
  | (k, v) :: r =>
    if k = key then (key, value) :: r
    else if key < k then (key, value) :: (k, v) :: r
    else (k, v) :: put key value r

/-- Sets a member that is there already, and adds none. -/
def replace (key : String) (value : Json) : Object → Object
  | [] => []
  | (k, v) :: r => if k = key then (k, value) :: r else (k, v) :: replace key value r

def keys (o : Object) : List String := o.map (·.1)

def overlay (changes o : Object) : Object := changes.foldl (fun o m => o.put m.1 m.2) o

def ofMembers (members : List (String × Json)) : Object := overlay members []

end Object

namespace Json

mutual

def same : Json → Json → Bool
  | .null, .null => true
  | .bool a, .bool b => a == b
  | .num a, .num b => decide (a = b)
  | .str a, .str b => a == b
  | .arr a, .arr b => sameItems a b
  | .obj a, .obj b => sameMembers a b
  | _, _ => false

def sameItems : List Json → List Json → Bool
  | [], [] => true
  | a :: r, b :: s => same a b && sameItems r s
  | _, _ => false

def sameMembers : List (String × Json) → List (String × Json) → Bool
  | [], [] => true
  | (k, a) :: r, (l, b) :: s => k == l && same a b && sameMembers r s
  | _, _ => false

end

mutual

theorem same_iff : ∀ a b : Json, same a b = true ↔ a = b
  | .null, b => by cases b <;> simp [same]
  | .bool a, b => by cases b <;> simp [same]
  | .num a, b => by cases b <;> simp [same]
  | .str a, b => by cases b <;> simp [same]
  | .arr a, b => by cases b <;> simp [same, sameItems_iff a]
  | .obj a, b => by cases b <;> simp [same, sameMembers_iff a]

theorem sameItems_iff : ∀ a b : List Json, sameItems a b = true ↔ a = b
  | [], b => by cases b <;> simp [sameItems]
  | a :: r, b => by cases b <;> simp [sameItems, same_iff a, sameItems_iff r]

theorem sameMembers_iff : ∀ a b : List (String × Json), sameMembers a b = true ↔ a = b
  | [], b => by cases b <;> simp [sameMembers]
  | (k, a) :: r, [] => by simp [sameMembers]
  | (k, a) :: r, (l, b) :: s => by
    simp [sameMembers, same_iff a, sameMembers_iff r, and_assoc]

end

instance : DecidableEq Json := fun a b => decidable_of_iff _ (same_iff a b)

def isNull : Json → Bool
  | .null => true
  | _ => false

def isScalar : Json → Bool
  | .arr _ | .obj _ => false
  | _ => true

def ofId (n : UInt64) : Json := .num (.ofId n)

def ofStrings (xs : List String) : Json := .arr (xs.map .str)

def ofOption {α : Type} (write : α → Json) : Option α → Json
  | none => .null
  | some a => write a

def string? : Json → Option String
  | .str s => some s
  | _ => none

def bool? : Json → Option Bool
  | .bool b => some b
  | _ => none

def uint64? : Json → Option UInt64
  | .num n => n.toUInt64?
  | _ => none

def int64? : Json → Option Int64
  | .num n => n.toInt64?
  | _ => none

def double? : Json → Option Double
  | .num n => n.toDouble?
  | _ => none

def list? {α : Type} (read : Json → Option α) : Json → Option (List α)
  | .arr xs => xs.mapM read
  | _ => none

def object? : Json → Option Object
  | .obj o => some o
  | _ => none

def option? {α : Type} (read : Json → Option α) : Json → Option (Option α)
  | .null => some none
  | j => (read j).map some

mutual

def canonical : Json → Json
  | .arr xs => .arr (canonicalItems xs)
  | .obj ms => .obj (canonicalMembers [] ms)
  | j => j

def canonicalItems : List Json → List Json
  | [] => []
  | x :: r => canonical x :: canonicalItems r

def canonicalMembers (done : Object) : List (String × Json) → Object
  | [] => done
  | (k, v) :: r => canonicalMembers (Object.put k (canonical v) done) r

end

end Json

end Recordkeeper
