import Recordkeeper.Entity
import Recordkeeper.Error
import Recordkeeper.Query

set_option autoImplicit false

namespace Recordkeeper

/-- A stretch of the rows a query finds. -/
structure Window where
  offset : UInt64
  limit : UInt64
  deriving DecidableEq, Repr

namespace Window

def first : Window := ⟨0, 1⟩

/-- The rows in the window; without a window, all of them. -/
def cut {β : Type} (w : Option Window) (rows : List β) : List β :=
  match w with
  | some w => (rows.drop w.offset.toNat).take w.limit.toNat
  | none => rows

end Window

inductive StoreCall (α : Type) where
  | find (id : Id) (preloads : List String) (visibility : Visibility)
  | query (query : Query) (window : Option Window)
  | count (query : Query)
  | insert (record : α)
  | save (record : α)
  | updateFields (id : Id) (fields : Object)
  | softDelete (id : Id)
  | clearTombstone (id : Id)
  | hardDelete (id : Id)

namespace StoreCall

variable {α : Type}

/-- Lookups answer with records, and changes to rows with the number of rows they reached. -/
def Result : StoreCall α → Type
  | find .. => Option α
  | query .. => List α
  | count _ => UInt64
  | insert _ => α
  | save _ | updateFields .. | softDelete _ | clearTombstone _ | hardDelete _ => UInt64

abbrev Answer (c : StoreCall α) : Type := Except StoreError c.Result

def isWrite : StoreCall α → Bool
  | find .. | query .. | count _ => false
  | _ => true

end StoreCall

end Recordkeeper
