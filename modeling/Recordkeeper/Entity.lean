import Recordkeeper.Json.Printer

set_option autoImplicit false

namespace Recordkeeper

/-- The identity of a record that was never stored is zero. -/
abbrev Id := UInt64

structure EntityType (α : Type) where
  name : String
  identity : α → Id
  withIdentity : Id → α → α
  /-- The document of a record; some records may have none. -/
  encode : α → Option Json
  decode : Json → Option α
  fromText : String → Option α
  cached : Bool := false
  /-- The columns that a sort clause may name; none listed means any. -/
  sortable : List String := []
  singular : String := "record"
  plural : String := "records"

namespace EntityType

variable {α : Type}

def isNew (E : EntityType α) (x : α) : Bool := E.identity x = 0

def snapshot? (E : EntityType α) (x : α) : Option String := (E.encode x).map Json.text

end EntityType

namespace Column

def id : String := "id"
def createdAt : String := "created_at"
def updatedAt : String := "updated_at"
def deletedAt : String := "deleted_at"

def standard : List String := [id, createdAt, updatedAt, deletedAt]

end Column

end Recordkeeper
