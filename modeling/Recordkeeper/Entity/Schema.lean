import Recordkeeper.Entity
import Recordkeeper.Json.Fields
import Recordkeeper.Json.Reader
import Recordkeeper.Calendar.Reader

/-!
Record types given by a list of typed columns. A record holds the standard columns (identity and
three timestamps, all kept by the store) and one value for each column of its own.
-/

set_option autoImplicit false

namespace Recordkeeper

inductive FieldType where
  | text
  | integer
  | natural
  | real
  | flag
  | textList
  | document
  | nullable (type : FieldType)
  deriving DecidableEq, Repr

namespace FieldType

def Value : FieldType → Type
  | text => String
  | integer => Int64
  | natural => UInt64
  | real => Binary64
  | flag => Bool
  | textList => List String
  | document => Json
  | nullable t => Option t.Value

def encode : (t : FieldType) → t.Value → Json
  | text, s => .str s
  | integer, n => .num (.int n.toInt)
  | natural, n => .ofId n
  | real, .finite x => .num (.real x)
  | real, _ => .null
  | flag, b => .bool b
  | textList, xs => Json.ofStrings xs
  | document, j => j
  | nullable _, none => .null
  | nullable t, some v => t.encode v

def decode : (t : FieldType) → Json → Option t.Value
  | text => Json.string?
  | integer => Json.int64?
  | natural => Json.uint64?
  | real => fun j => j.double?.map .finite
  | flag => Json.bool?
  | textList => Json.list? Json.string?
  | document => some
  | nullable t => Json.option? t.decode

/-- A nullable column may be left out of an object. -/
def ofSlot : (t : FieldType) → Json.Slot → Option t.Value
  | nullable t => Json.Slot.nullable t.decode
  | t => Json.Slot.required t.decode

end FieldType

structure Field where
  name : String
  type : FieldType
  deriving DecidableEq, Repr

def Values : List Field → Type
  | [] => Unit
  | f :: fs => f.type.Value × Values fs

namespace Values

def encode : (fs : List Field) → Values fs → Object
  | [], _ => []
  | f :: fs, (v, vs) => (f.name, f.type.encode v) :: encode fs vs

/-- Reads each column from its slot; `place` is that of the first column. -/
def ofSlots (slot : Nat → String → Json.Slot) : (place : Nat) → (fs : List Field) → Option (Values fs)
  | _, [] => some ()
  | place, f :: fs => do
    let v ← f.type.ofSlot (slot place f.name)
    let vs ← ofSlots slot (place + 1) fs
    return (v, vs)

end Values

/-- A record type's own columns. No two columns of a record share a name. -/
structure Schema where
  name : String
  fields : List Field
  cached : Bool := false
  sortable : List String := []
  plural : String
  distinct : (Column.standard ++ fields.map (·.name)).Nodup

structure Record (fields : List Field) where
  id : Id := 0
  createdAt : Option Timestamp := none
  updatedAt : Option Timestamp := none
  deletedAt : Option Timestamp := none
  values : Values fields

namespace Timestamp

def toJson (t : Timestamp) : Json := .str t.text

def ofJson? : Json → Option Timestamp
  | .str s => read? s.toList
  | _ => none

end Timestamp

namespace Record

variable {fields : List Field}

def fresh (values : Values fields) : Record fields := { values := values }

def isDeleted (r : Record fields) : Bool := r.deletedAt.isSome

def encode (r : Record fields) : Json :=
  .obj (Object.ofMembers
    ([(Column.id, .ofId r.id),
      (Column.createdAt, Json.ofOption Timestamp.toJson r.createdAt),
      (Column.updatedAt, Json.ofOption Timestamp.toJson r.updatedAt),
      (Column.deletedAt, Json.ofOption Timestamp.toJson r.deletedAt)] ++
      r.values.encode fields))

/-- The standard columns have defaults: no identity, no timestamps. -/
def decode (fields : List Field) (j : Json) : Option (Record fields) := do
  let slot ← j.fields? (4 + fields.length)
  let timestamp := Json.option? Timestamp.ofJson?
  return {
    id := ← (slot 0 Column.id).orDefault 0 Json.uint64?
    createdAt := ← (slot 1 Column.createdAt).orDefault none timestamp
    updatedAt := ← (slot 2 Column.updatedAt).orDefault none timestamp
    deletedAt := ← (slot 3 Column.deletedAt).orDefault none timestamp
    values := ← Values.ofSlots slot 4 fields }

end Record

/-- No member names a column that an earlier one names. -/
def noneRepeated (columns : List String) : Json → Bool
  | .obj ms => columns.all fun c => (ms.filter (·.1 == c)).length ≤ 1
  | _ => true

/-- Reads a record from text, where a column given twice is refused. -/
def fromTextWith {α : Type} (columns : List String) (decode : Json → Option α) (s : String) :
    Option α := do
  let j ← Json.source? s
  if noneRepeated columns j then decode j.canonical else none

namespace Schema

def columns (S : Schema) : List String := Column.standard ++ S.fields.map (·.name)

def entity (S : Schema) : EntityType (Record S.fields) where
  name := S.name
  identity r := r.id
  withIdentity id r := { r with id := id }
  encode r := some r.encode
  decode := Record.decode S.fields
  fromText := fromTextWith S.columns (Record.decode S.fields)
  cached := S.cached
  sortable := S.sortable
  singular := S.name
  plural := S.plural

end Schema

end Recordkeeper
