set_option autoImplicit false

namespace Recordkeeper

inductive StoreError where
  | connection (backend message : String)
  | query (backend message : String)
  | constraint (backend message : String)
  | serialization (backend message : String)
  | unavailable (backend : String)
  deriving DecidableEq, Repr

namespace StoreError

def backend : StoreError → String
  | connection b _ | query b _ | constraint b _ | serialization b _ | unavailable b => b

def message : StoreError → String
  | connection b m => "Failed to connect to " ++ b ++ ": " ++ m
  | query b m => b ++ " query error: " ++ m
  | constraint b m => b ++ " constraint violation: " ++ m
  | serialization b m => b ++ " row could not be (de)serialized: " ++ m
  | unavailable b => "Storage backend '" ++ b ++ "' is not available"

end StoreError

structure CacheError where
  reason : String
  deriving DecidableEq, Repr

def CacheError.message (e : CacheError) : String := "cache backend error: " ++ e.reason

/-- Why a request is refused or an operation fails. `entity` is the name of the record's type. -/
inductive RequestError where
  | invalidFilter (field message : String)
  | invalidValueType (field operator expected : String)
  | invalidValueSize (field operator : String) (expected actual : Nat)
  | unsupportedOperator (operator : String)
  | invalidOrder (order message : String)
  | invalidField (field message : String)
  | notFound (entity : String) (id : Option UInt64)
  | notNewRecord (entity : String) (id : UInt64)
  | identityMismatch (entity : String) (expected actual : UInt64)
  | missingIdentity (entity operation : String)
  | storeFailed (entity operation message : String)
  | store (cause : StoreError)
  deriving DecidableEq, Repr

namespace RequestError

def message : RequestError → String
  | invalidFilter f m => "Invalid filter on '" ++ f ++ "': " ++ m
  | invalidValueType f o e => "Invalid value type for '" ++ f ++ "' " ++ o ++ ": expected " ++ e
  | invalidValueSize f o e a =>
    "Invalid value size for '" ++ f ++ "' " ++ o ++ ": expected " ++ toString e ++
      " elements, got " ++ toString a
  | unsupportedOperator o => "Unsupported filter operator: '" ++ o ++ "'"
  | invalidOrder o m => "Invalid order clause '" ++ o ++ "': " ++ m
  | invalidField f m => "Invalid field '" ++ f ++ "': " ++ m
  | notFound t (some i) => t ++ " with id '" ++ toString i ++ "' not found"
  | notFound t none => "No " ++ t ++ " matched the filter"
  | notNewRecord t i => "Cannot create " ++ t ++ ": record already has id '" ++ toString i ++ "'"
  | identityMismatch t e a =>
    "Cannot update " ++ t ++ " '" ++ toString e ++ "': payload carries id '" ++ toString a ++ "'"
  | missingIdentity t o => "Cannot " ++ o ++ " " ++ t ++ ": identity is not set"
  | storeFailed t o m => "Failed to " ++ o ++ " " ++ t ++ ": " ++ m
  | store e => e.message

end RequestError

end Recordkeeper
