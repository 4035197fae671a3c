import Recordkeeper.Request

set_option autoImplicit false

namespace Recordkeeper

/-- The word for a number, or the largest word for a number too large. -/
def saturate (n : Nat) : UInt64 := UInt64.ofNat (min n 18446744073709551615)

namespace Pagination

/-- Fills in an index or size of zero and keeps the size between one and the maximum. -/
def normalized (p : Pagination) (defaultSize : UInt64) (maxSize : Option UInt64) : Pagination :=
  let size := if p.pageSize = 0 then max defaultSize 1 else p.pageSize
  { p with
    pageIndex := if p.pageIndex = 0 then 1 else p.pageIndex
    pageSize := match maxSize with
      | some m => min size (max m 1)
      | none => size }

def offset (p : Pagination) : UInt64 := saturate ((p.pageIndex.toNat - 1) * p.pageSize.toNat)

def limit (p : Pagination) : UInt64 := p.pageSize

def totalPages (p : Pagination) : UInt64 :=
  if p.total = 0 ∨ p.pageSize = 0 then 0
  else saturate ((p.total.toNat + p.pageSize.toNat - 1) / p.pageSize.toNat)

def hasNext (p : Pagination) : Bool := saturate (p.offset.toNat + p.pageSize.toNat) < p.total

def hasPrevious (p : Pagination) : Bool := 1 < p.pageIndex

end Pagination

end Recordkeeper
