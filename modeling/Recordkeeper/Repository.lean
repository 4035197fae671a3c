import Recordkeeper.Program
import Recordkeeper.Query.Compile
import Recordkeeper.Request.Position

/-!
A repository serves the records of one type from a store, and keeps a cache of single records
beside it where the type allows that. The cache is asked first and filled on a miss; every write
drops what it holds of the identity written. What a cache fails to do is passed over.
-/

set_option autoImplicit false

namespace Recordkeeper

structure RepositoryConfig where
  /-- Types must still allow a cache one by one. -/
  cacheEnabled : Bool := true
  cacheTtl : Duration := .ofSeconds 86400
  keyPrefix : String := "crudkit:"
  defaultPageSize : UInt64 := 15
  maxPageSize : Option UInt64 := none
  orderPolicy : OrderPolicy := .strict
  deriving DecidableEq

structure Repository (α : Type) where
  entity : EntityType α
  config : RepositoryConfig := {}
  hasCache : Bool := true

/-- A program on records that may fail. -/
abbrev Action (α β : Type) := ExceptT RequestError (Program α) β

namespace Repository

variable {α : Type}

def usesCache (r : Repository α) : Bool := r.config.cacheEnabled && r.entity.cached && r.hasCache

def notFound (r : Repository α) (id : Option Id) : RequestError := .notFound r.entity.name id

def requireIdentity (r : Repository α) (id : Id) (operation : String) : Except RequestError Unit :=
  if id = 0 then .error (.missingIdentity r.entity.name operation) else .ok ()

def compile (r : Repository α) (q : FilterRequest) : Except RequestError Query :=
  q.compile { policy := r.config.orderPolicy, sortable := r.entity.sortable }

def ask (c : StoreCall α) : Action α c.Result := do
  match ← (Program.askStore c : Program α c.Answer) with
  | .ok a => return a
  | .error e => throw (.store e)

def fetch (r : Repository α) (id : Id) (preloads : List String) (v : Visibility) :
    Action α α := do
  match ← ask (.find id preloads v) with
  | some x => return x
  | none => throw (r.notFound id)

/-- The record a cache holds under a key, if it holds one that can be read. -/
def readCached (r : Repository α) (key : String) : Program α (Option α) := do
  match ← Program.askCache (.get key) with
  | .ok (some text) => return r.entity.fromText text
  | _ => return none

def writeCached (r : Repository α) (key : String) (x : α) : Program α Unit :=
  match r.entity.snapshot? x with
  | some text => do
    let _ ← Program.askCache (.set key text r.config.cacheTtl)
  | none => return ()

def invalidate (r : Repository α) (id : Id) : Program α Unit := do
  if r.usesCache then
    let _ ← Program.askCache (.purge (CacheKey.base r.config.keyPrefix r.entity.name id))

def checkLookup (r : Repository α) (q : IdRequest) : Except RequestError Unit :=
  if q.id = 0 then .error (r.notFound (some 0))
  else q.preloads.forM FilterRequest.requireRelation

/-- A live record, from the cache if it is there, else from the store and into the cache. -/
def fetchThrough (r : Repository α) (key : String) (q : IdRequest) : Action α α := do
  match ← (r.readCached key : Program α (Option α)) with
  | some x => return x
  | none =>
    let x ← r.fetch q.id q.preloads .active
    (r.writeCached key x : Program α Unit)
    return x

def getById (r : Repository α) (q : IdRequest) : Action α α := do
  liftExcept (r.checkLookup q)
  if r.usesCache then
    r.fetchThrough (CacheKey.variant r.config.keyPrefix r.entity.name q.id q.preloads) q
  else r.fetch q.id q.preloads .active

def get (r : Repository α) (id : Id) : Action α α := r.getById ⟨id, []⟩

def first (r : Repository α) (q : FilterRequest) : Action α α := do
  let query ← liftExcept (r.compile q)
  match ← ask (.query query (some .first)) with
  | x :: _ => return x
  | [] => throw (r.notFound none)

def list (r : Repository α) (q : FilterRequest) : Action α (List α) := do
  let query ← liftExcept (r.compile q)
  ask (.query query none)

/-- The records of one page, and how many there are on all. Past the end nothing is fetched. -/
def page (r : Repository α) (q : PageRequest) : Action α (Page α) := do
  let query ← liftExcept (r.compile q.filter)
  let position := q.pagination.normalized r.config.defaultPageSize r.config.maxPageSize
  let total : UInt64 ← ask (.count query)
  let position := { position with total := total }
  if position.offset < total then
    let records ← ask (.query query (some ⟨position.offset, position.limit⟩))
    return ⟨records, position⟩
  else return ⟨[], position⟩

/-- Stores a new record; its identity is the store's to give. -/
def create (r : Repository α) (x : α) : Action α α := do
  if r.entity.isNew x then
    let created ← ask (.insert x)
    if r.entity.isNew created then
      throw (.storeFailed r.entity.name "create" "store did not assign an identity")
    else return created
  else throw (.notNewRecord r.entity.name (r.entity.identity x))

/-- After a write that reached `affected` rows: none is a missing record, else the record as it is
now stored. -/
def settle (r : Repository α) (id : Id) (affected : UInt64) : Action α α := do
  if affected = 0 then throw (r.notFound id)
  else
    (r.invalidate id : Program α Unit)
    r.fetch id [] .active

def checkUpdate (r : Repository α) (x : α) (id : Id) : Except RequestError Unit :=
  if r.entity.identity x ≠ id then
    .error (.identityMismatch r.entity.name id (r.entity.identity x))
  else r.requireIdentity id "update"

def update (r : Repository α) (x : α) (id : Id) : Action α α := do
  liftExcept (r.checkUpdate x id)
  let affected : UInt64 ← ask (.save x)
  r.settle id affected

def checkField (field : String) : Except RequestError Unit :=
  if !Identifier.isColumn field then .error (.invalidField field "not a column identifier")
  else if field = Column.id then .error (.invalidField field "identity cannot be changed")
  else if field = Column.deletedAt then
    .error (.invalidField field "use remove or restore to change deletion state")
  else .ok ()

def checkFields (r : Repository α) (x : α) (fields : Object) : Except RequestError Unit := do
  r.requireIdentity (r.entity.identity x) "update"
  if fields.isEmpty then throw (.invalidField "" "no fields to update")
  else fields.keys.forM checkField

/-- Overwrites only the given columns of a record. -/
def updateFields (r : Repository α) (x : α) (fields : Object) : Action α α := do
  liftExcept (r.checkFields x fields)
  let affected : UInt64 ← ask (.updateFields (r.entity.identity x) fields)
  r.settle (r.entity.identity x) affected

def remove (r : Repository α) (id : Id) : Action α α := do
  liftExcept (r.requireIdentity id "remove")
  let _ ← ask (.softDelete id)
  (r.invalidate id : Program α Unit)
  r.fetch id [] .all

def restore (r : Repository α) (id : Id) : Action α α := do
  liftExcept (r.requireIdentity id "restore")
  let _ ← ask (.clearTombstone id)
  (r.invalidate id : Program α Unit)
  r.fetch id [] .active

def destroy (r : Repository α) (id : Id) : Action α Unit := do
  liftExcept (r.requireIdentity id "destroy")
  let _ ← ask (.hardDelete id)
  (r.invalidate id : Program α Unit)

end Repository

inductive Operation (α : Type) where
  | create (record : α)
  | get (id : Id)
  | getById (request : IdRequest)
  | first (request : FilterRequest)
  | list (request : FilterRequest)
  | page (request : PageRequest)
  | update (record : α) (id : Id)
  | updateFields (record : α) (fields : Object)
  | remove (id : Id)
  | restore (id : Id)
  | destroy (id : Id)

namespace Operation

variable {α : Type}

def Result : Operation α → Type
  | list _ => List α
  | page _ => Page α
  | destroy _ => Unit
  | _ => α

def action (r : Repository α) : (op : Operation α) → Action α op.Result
  | create x => r.create x
  | get id => r.get id
  | getById q => r.getById q
  | first q => r.first q
  | list q => r.list q
  | page q => r.page q
  | update x id => r.update x id
  | updateFields x fields => r.updateFields x fields
  | remove id => r.remove id
  | restore id => r.restore id
  | destroy id => r.destroy id

end Operation

end Recordkeeper
