import Recordkeeper.Error
import Recordkeeper.Json

set_option autoImplicit false

namespace Recordkeeper.RequestError

def status : RequestError → Nat
  | invalidFilter .. | invalidValueType .. | invalidValueSize .. | unsupportedOperator ..
  | invalidOrder .. | invalidField .. | identityMismatch .. | missingIdentity .. => 400
  | notFound .. => 404
  | notNewRecord .. => 409
  | storeFailed .. | store .. => 500

def code : RequestError → String
  | invalidFilter .. => "INVALID_FILTER"
  | invalidValueType .. => "INVALID_FILTER_VALUE_TYPE"
  | invalidValueSize .. => "INVALID_FILTER_VALUE_SIZE"
  | unsupportedOperator .. => "UNSUPPORTED_OPERATOR"
  | invalidOrder .. => "INVALID_ORDER"
  | invalidField .. => "INVALID_FIELD"
  | notFound .. => "NOT_FOUND"
  | notNewRecord .. => "NOT_NEW_RECORD"
  | identityMismatch .. => "IDENTITY_MISMATCH"
  | missingIdentity .. => "MISSING_IDENTITY"
  | storeFailed .. => "STORE_FAILED"
  | store .. => "STORE_ERROR"

def isClientError (e : RequestError) : Bool := 400 ≤ e.status && e.status < 500

def isNotFound : RequestError → Bool
  | notFound .. => true
  | _ => false

def details : RequestError → Option Object
  | invalidFilter f _ | invalidValueType f _ _ | invalidValueSize f _ _ _ | invalidField f _ =>
    some [("field", .str f)]
  | notFound t (some i) => some [("entity_type", .str t), ("id", .ofId i)]
  | identityMismatch _ e a => some [("actual", .ofId a), ("expected", .ofId e)]
  | _ => none

def report (e : RequestError) : Json :=
  let body := [("code", .str e.code), ("message", .str e.message)]
  .obj (match e.details with
    | some d => body ++ [("details", .obj d)]
    | none => body)

def source : RequestError → Option StoreError
  | store e => some e
  | _ => none

end Recordkeeper.RequestError
