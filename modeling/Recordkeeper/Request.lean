import Recordkeeper.Json

set_option autoImplicit false

namespace Recordkeeper

structure Filter where
  field : String
  operator : String
  value : Json := .null
  deriving DecidableEq

namespace Filter

/-- The field that stands for visibility and is no column. -/
def visibilityField : String := "deleted"

/-- A filter needs a field, an operator and a value. -/
def isComplete (f : Filter) : Bool := f.field ≠ "" && f.operator ≠ "" && !f.value.isNull

def isVisibility (f : Filter) : Bool := f.field = visibilityField

end Filter

structure FilterRequest where
  filters : List Filter := []
  order : Option String := none
  preloads : List String := []
  deriving DecidableEq

namespace FilterRequest

def filter (r : FilterRequest) (field operator : String) (value : Json) : FilterRequest :=
  { r with filters := r.filters ++ [⟨field, operator, value⟩] }

def withOrder (r : FilterRequest) (order : String) : FilterRequest := { r with order := some order }

def withPreload (r : FilterRequest) (relation : String) : FilterRequest :=
  { r with preloads := r.preloads ++ [relation] }

end FilterRequest

structure Pagination where
  pageIndex : UInt64 := 0
  pageSize : UInt64 := 0
  total : UInt64 := 0
  deriving DecidableEq

structure PageRequest where
  filter : FilterRequest := {}
  pagination : Pagination := {}
  deriving DecidableEq

structure IdRequest where
  id : UInt64
  preloads : List String := []
  deriving DecidableEq

def IdRequest.withPreload (r : IdRequest) (relation : String) : IdRequest :=
  { r with preloads := r.preloads ++ [relation] }

structure Page (α : Type) where
  records : List α
  pagination : Pagination

end Recordkeeper
