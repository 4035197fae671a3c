import Recordkeeper.Request
import Recordkeeper.Json.Fields

set_option autoImplicit false

namespace Recordkeeper

def Json.strings? : Json → Option (List String) := Json.list? Json.string?

namespace Filter

/-- The operator may go by either of two names in an object, but not by both. -/
def operatorSlot : Json → Json.Slot → Option Json.Slot
  | .obj o, s =>
    match s, Object.get? "operate" o with
    | .given _, some _ => none
    | .given j, none => some (.given j)
    | _, some j => some (.given j)
    | s, none => some s
  | _, s => some s

def read? (j : Json) : Option Filter := do
  let slot ← j.fields? 3
  let operator ← operatorSlot j (slot 1 "operator")
  return {
    field := ← (slot 0 "field").required Json.string?
    operator := ← operator.required Json.string?
    value := ← (slot 2 "value").orDefault .null some }

def write (f : Filter) : Json :=
  .obj [("field", .str f.field), ("operator", .str f.operator), ("value", f.value)]

end Filter

namespace FilterRequest

def names : List String := ["filters", "order", "preloads"]

def read? (j : Json) : Option FilterRequest := do
  let slot ← j.fields? 3
  return {
    filters := ← (slot 0 "filters").orDefault [] (Json.list? Filter.read?)
    order := ← (slot 1 "order").orDefault none (Json.option? Json.string?)
    preloads := ← (slot 2 "preloads").orDefault [] Json.strings? }

/-- The members of a request; an absent order is left out. -/
def members (r : FilterRequest) : Object :=
  [("filters", .arr (r.filters.map Filter.write))] ++
    (match r.order with
      | some o => [("order", .str o)]
      | none => []) ++
    [("preloads", Json.ofStrings r.preloads)]

def write (r : FilterRequest) : Json := .obj r.members

end FilterRequest

namespace Pagination

def names : List String := ["pageIndex", "pageSize", "total"]

def read? (j : Json) : Option Pagination := do
  let slot ← j.fields? 3
  return {
    pageIndex := ← (slot 0 "pageIndex").orDefault 0 Json.uint64?
    pageSize := ← (slot 1 "pageSize").orDefault 0 Json.uint64?
    total := ← (slot 2 "total").orDefault 0 Json.uint64? }

def members (p : Pagination) : Object :=
  [("pageIndex", .ofId p.pageIndex), ("pageSize", .ofId p.pageSize), ("total", .ofId p.total)]

def write (p : Pagination) : Json := .obj p.members

end Pagination

namespace PageRequest

/-- Each part takes the members that it has names for, and leaves the others to the next. -/
def read? : Json → Option PageRequest
  | .obj o => do
    let (taken, rest) := o.partition fun m => FilterRequest.names.contains m.1
    let filter ← FilterRequest.read? (.obj taken)
    let (taken, _) := rest.partition fun m => Pagination.names.contains m.1
    let pagination ← Pagination.read? (.obj taken)
    return { filter := filter, pagination := pagination }
  | _ => none

def write (r : PageRequest) : Json := .obj (r.filter.members.overlay r.pagination.members)

end PageRequest

namespace IdRequest

def read? (j : Json) : Option IdRequest := do
  let slot ← j.fields? 2
  return {
    id := ← (slot 0 "id").required Json.uint64?
    preloads := ← (slot 1 "preloads").orDefault [] Json.strings? }

def write (r : IdRequest) : Json :=
  .obj [("id", .ofId r.id), ("preloads", Json.ofStrings r.preloads)]

end IdRequest

end Recordkeeper
