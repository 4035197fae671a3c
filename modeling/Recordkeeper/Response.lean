import Recordkeeper.Entity
import Recordkeeper.Error.Report
import Recordkeeper.Request.Wire

set_option autoImplicit false

namespace Recordkeeper

structure Response where
  statusCode : UInt16 := 200
  errorCode : Int := 0
  errorMessage : String := ""
  data : Object := []
  deriving DecidableEq

namespace Response

variable {α : Type}

def ok : Response := {}

def addData (r : Response) (key : String) (value : Json) : Response :=
  { r with data := r.data.put key value }

/-- A failure carries the status, the message and the code of its error. -/
def ofError (e : RequestError) : Response :=
  { statusCode := UInt16.ofNat e.status
    errorCode := -1
    errorMessage := e.message
    data := [("code", .str e.code)] }

def withRecord? (E : EntityType α) (r : Response) (x : α) : Option Response :=
  (E.encode x).map (r.addData E.singular)

def withRecords? (E : EntityType α) (r : Response) (xs : List α) : Option Response :=
  (xs.mapM E.encode).map fun js => r.addData E.plural (.arr js)

def withPage? (E : EntityType α) (r : Response) (p : Page α) : Option Response :=
  (r.withRecords? E p.records).map (·.addData "pagination" p.pagination.write)

/-- A code that is no HTTP status stands for an internal error. -/
def status (r : Response) : Nat :=
  if 100 ≤ r.statusCode ∧ r.statusCode < 1000 then r.statusCode.toNat else 500

/-- Empty data are left out. -/
def write (r : Response) : Json :=
  .obj ([("statusCode", .num (.int r.statusCode.toNat)), ("errorCode", .num (.int r.errorCode)),
      ("errorMessage", .str r.errorMessage)] ++
    (if r.data.isEmpty then [] else [("data", .obj r.data)]))

end Response

end Recordkeeper
