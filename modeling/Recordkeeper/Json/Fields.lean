import Recordkeeper.Json

set_option autoImplicit false

namespace Recordkeeper.Json

/-- What a document holds for one field: a value, nothing in an object, or nothing because a list
ends before it. -/
inductive Slot where
  | given (value : Json)
  | absent
  | cutOff

namespace Slot

variable {α : Type}

def required (read : Json → Option α) : Slot → Option α
  | .given j => read j
  | _ => none

def orDefault (default : α) (read : Json → Option α) : Slot → Option α
  | .given j => read j
  | _ => some default

/-- A field that may be null, and may be left out of an object but not off a list. -/
def nullable (read : Json → Option α) : Slot → Option (Option α)
  | .given j => option? read j
  | .absent => some none
  | .cutOff => none

end Slot

/-- The fields of a structure that declares `count` of them, asked for by place and name. -/
def fields? (count : Nat) : Json → Option (Nat → String → Slot)
  | .obj o => some fun _ name =>
    match Object.get? name o with
    | some j => .given j
    | none => .absent
  | .arr xs =>
    if count < xs.length then none
    else some fun place _ =>
      match xs[place]? with
      | some j => .given j
      | none => .cutOff
  | _ => none

/-- The name of a constant: a string, or an object with that one key and null under it. -/
def constant? : Json → Option String
  | .str s => some s
  | .obj [(k, .null)] => some k
  | _ => none

end Recordkeeper.Json
