import Recordkeeper.Entity.Schema

set_option autoImplicit false

namespace Recordkeeper.Catalog

def user : Schema where
  name := "user"
  plural := "users"
  cached := true
  fields := [⟨"name", .text⟩, ⟨"email", .text⟩, ⟨"age", .integer⟩, ⟨"score", .real⟩,
    ⟨"active", .flag⟩]
  distinct := by decide

/-- Only its action and its identity may order audits. -/
def audit : Schema where
  name := "audit"
  plural := "audits"
  sortable := ["action", "id"]
  fields := [⟨"action", .text⟩]
  distinct := by decide

def doc : Schema where
  name := "doc"
  plural := "docs"
  cached := true
  fields := [⟨"title", .nullable .text⟩, ⟨"rank", .nullable .integer⟩, ⟨"size", .natural⟩,
    ⟨"tags", .textList⟩, ⟨"v", .document⟩]
  distinct := by decide

structure Item (β : Type) where
  id : Id := 0
  value : β
  deriving DecidableEq

namespace Item

variable {β : Type}

def decode (column : String) (read : Json → Option β) (j : Json) : Option (Item β) := do
  let slot ← j.fields? 2
  return {
    id := ← (slot 0 Column.id).orDefault 0 Json.uint64?
    value := ← (slot 1 column).required read }

def encode (column : String) (write : β → Json) (x : Item β) : Json :=
  .obj (Object.ofMembers [(Column.id, .ofId x.id), (column, write x.value)])

def entity (name column : String) (write : β → Json) (read : Json → Option β) :
    EntityType (Item β) where
  name := name
  identity x := x.id
  withIdentity id x := { x with id := id }
  encode x := some (encode column write x)
  decode := decode column read
  fromText := fromTextWith [Column.id, column] (decode column read)

end Item

def plain : EntityType (Item String) := Item.entity "plain" "value" .str Json.string?

/-- A token that reads "unserializable" has no document. -/
def token : EntityType (Item String) :=
  let E := Item.entity "token" "value" .str Json.string?
  { E with
    cached := true
    encode := fun x => if x.value = "unserializable" then none else E.encode x }

def cell : EntityType (Item Json) := Item.entity "cell" "v" id some

/-- A record that is a bare string and has no identity. -/
def scalar : EntityType String where
  name := "scalar"
  identity _ := 0
  withIdentity _ x := x
  encode x := some (.str x)
  decode := Json.string?
  fromText s := (Json.parse? s).bind Json.string?

structure Entry where
  Rec : Type
  entity : EntityType Rec
  /-- The record made anew from its own columns, where a type has others too. -/
  renewed? : Rec → Option Rec := fun _ => none
  isDeleted? : Rec → Option Bool := fun _ => none

def Entry.ofSchema (S : Schema) : Entry where
  Rec := Record S.fields
  entity := S.entity
  renewed? r := some (.fresh r.values)
  isDeleted? r := some r.isDeleted

def entries : List Entry :=
  [.ofSchema user, .ofSchema audit, .ofSchema doc, { Rec := Item String, entity := plain },
    { Rec := Item String, entity := token }, { Rec := String, entity := scalar }]

def find? (name : String) : Option Entry := entries.find? (·.entity.name == name)

end Recordkeeper.Catalog
