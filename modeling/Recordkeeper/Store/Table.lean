import Recordkeeper.Calendar
import Recordkeeper.Query.SortClause
import Recordkeeper.Store
import Recordkeeper.Store.Matching

/-!
A store in memory: rows in the order of their identities, each the document of a record and,
beside it, the time at which it was tombstoned.
-/

set_option autoImplicit false

namespace Recordkeeper

structure Row where
  data : Object
  deletedAt : Option Timestamp := none

namespace Row

def isDeleted (r : Row) : Bool := r.deletedAt.isSome

def tombstone (r : Row) : Json := Json.ofOption (fun t => .str t.text) r.deletedAt

/-- A column as queries see it. A qualified name means the one table there is. -/
def column (id : Id) (r : Row) (field : String) : Json :=
  let name := Identifier.unqualified field
  if name = Column.id then .ofId id
  else if name = Column.deletedAt then r.tombstone
  else (r.data.get? name).getD .null

end Row

structure Table where
  rows : List (Id × Row) := []
  counter : UInt64 := 0

namespace Table

def backend : String := "memory"

def queryError (m : String) : StoreError := .query backend m

def get? (t : Table) (id : Id) : Option Row := t.rows.lookup id

/-- Sets the row of an identity, which goes to its place in the order if it is new. -/
def putRow (id : Id) (row : Row) : List (Id × Row) → List (Id × Row)
  | [] => [(id, row)]
  | (i, r) :: rest =>
    if i = id then (id, row) :: rest
    else if id < i then (id, row) :: (i, r) :: rest
    else (i, r) :: putRow id row rest

def put (t : Table) (id : Id) (row : Row) : Table := { t with rows := putRow id row t.rows }

def erase (t : Table) (id : Id) : Table := { t with rows := t.rows.filter (·.1 != id) }

variable {α : Type}

def dataOf (E : EntityType α) (x : α) : Except StoreError Object :=
  match E.encode x with
  | some (.obj data) => .ok data
  | some j =>
    .error (.serialization backend (E.name ++ " serialized to " ++ j.text ++ " instead of an object"))
  | none => .error (.serialization backend "the record has no document")

/-- The record a row shows: its document with the identity and the tombstone filled in. -/
def recordOf (E : EntityType α) (id : Id) (r : Row) : Except StoreError α :=
  let data := (r.data.put Column.id (.ofId id)).replace Column.deletedAt r.tombstone
  match E.decode (.obj data) with
  | some x => .ok (E.withIdentity id x)
  | none => .error (.serialization backend ("the row is no document of type " ++ E.name))

def matching (q : Query) : List (Id × Row) → Except StoreError (List (Id × Row))
  | [] => .ok []
  | (id, r) :: rest =>
    if q.visibility.admits r.isDeleted then do
      let keep ← (Matching.satisfiesAll (r.column id) q.constraints).mapError queryError
      let found ← matching q rest
      return if keep then (id, r) :: found else found
    else matching q rest

/-- Puts a row behind the last of those, held in reverse, that it does not precede. -/
def insertSorted (keys : List SortKey) (x : Id × Row) : List (Id × Row) → List (Id × Row)
  | [] => [x]
  | y :: rest =>
    if Matching.rowOrder (x.2.column x.1) (y.2.column y.1) keys = .lt then
      y :: insertSorted keys x rest
    else x :: y :: rest

def sort (keys : List SortKey) (rows : List (Id × Row)) : List (Id × Row) :=
  (rows.foldl (fun sorted x => insertSorted keys x sorted) []).reverse

/-- A raw clause is read when the query runs. -/
def sortKeys : Option Order → Except StoreError (List SortKey)
  | none => .ok []
  | some (.keys ks) => .ok ks
  | some (.raw clause) =>
    (SortKey.ofClause clause).mapError fun m =>
      queryError ("unsupported order clause '" ++ clause ++ "': " ++ m)

def find (E : EntityType α) (t : Table) (id : Id) (v : Visibility) :
    Except StoreError (Option α) :=
  match t.get? id with
  | some r => if v.admits r.isDeleted then some <$> recordOf E id r else .ok none
  | none => .ok none

def query (E : EntityType α) (t : Table) (q : Query) (w : Option Window) :
    Except StoreError (List α) := do
  let found ← matching q t.rows
  let keys ← sortKeys q.order
  (Window.cut w (sort keys found)).mapM fun (id, r) => recordOf E id r

def count (t : Table) (q : Query) : Except StoreError UInt64 := do
  let found ← matching q t.rows
  return UInt64.ofNat found.length

/-- Sets the timestamps of a document, those that the type declares. -/
def stampNew (now : Timestamp) (data : Object) : Object :=
  ((data.replace Column.createdAt (.str now.text)).replace Column.updatedAt
    (.str now.text)).replace Column.deletedAt .null

/-- The first identity after a counter that no row holds, looked for among the next `tries`. Behind
the largest the addition overflows. -/
def nextFree? (rows : List (Id × Row)) (counter : Id) : (tries : Nat) → Option Id
  | 0 => none
  | tries + 1 =>
    if counter.toNat + 1 = UInt64.size then none
    else if (rows.lookup (counter + 1)).isSome then nextFree? rows (counter + 1) tries
    else some (counter + 1)

/-- Stands for the answer to an insert that is broken off at the end of the counter. -/
def overflow : StoreError := queryError "attempt to add with overflow"

/-- Puts a row under an identity, unless the type cannot read it back. -/
def place (E : EntityType α) (id : Id) (row : Row) (t : Table) : Except StoreError α × Table :=
  match recordOf E id row with
  | .ok created => (.ok created, t.put id row)
  | .error e => (.error e, t)

/-- A record without an identity is given the next free one; one that is taken is refused. -/
def insert (E : EntityType α) (now : Timestamp) (t : Table) (x : α) :
    Except StoreError α × Table :=
  match dataOf E x with
  | .error e => (.error e, t)
  | .ok data =>
    let row : Row := { data := stampNew now data }
    let id := E.identity x
    if id = 0 then
      match nextFree? t.rows t.counter (t.rows.length + 1) with
      | some id => place E id row { t with counter := id }
      | none => (.error overflow, t)
    else if (t.get? id).isSome then
      (.error (.constraint backend ("duplicate primary key " ++ toString id)), t)
    else place E id row t

def live? (t : Table) (id : Id) : Option Row := (t.get? id).filter (! ·.isDeleted)

/-- Overwrites a live row, all but the time of its creation. -/
def save (E : EntityType α) (now : Timestamp) (t : Table) (x : α) :
    Except StoreError UInt64 × Table :=
  match dataOf E x with
  | .error e => (.error e, t)
  | .ok data =>
    match t.live? (E.identity x) with
    | none => (.ok 0, t)
    | some row =>
      let created := (row.data.get? Column.createdAt).getD .null
      let data := (data.replace Column.createdAt created).replace Column.updatedAt (.str now.text)
      (.ok 1, t.put (E.identity x) { row with data := data })

/-- Sets columns that a document has, except the two that the store answers for. -/
def setColumns : Object → Object → Except StoreError Object
  | [], data => .ok data
  | (field, value) :: rest, data =>
    if field = Column.id ∨ field = Column.deletedAt then
      .error (.constraint backend ("column '" ++ field ++ "' is store-managed"))
    else if data.has field then setColumns rest (data.replace field value)
    else .error (queryError ("unknown column '" ++ field ++ "'"))

/-- Sets columns of a live row, unless the type cannot hold the outcome. -/
def updateFields (E : EntityType α) (now : Timestamp) (t : Table) (id : Id) (fields : Object) :
    Except StoreError UInt64 × Table :=
  match t.live? id with
  | none => (.ok 0, t)
  | some row =>
    match setColumns fields row.data with
    | .error e => (.error e, t)
    | .ok data =>
      let row := { row with data := data.replace Column.updatedAt (.str now.text) }
      match recordOf E id row with
      | .error e => (.error (.constraint backend e.message), t)
      | .ok _ => (.ok 1, t.put id row)

def softDelete (now : Timestamp) (t : Table) (id : Id) : UInt64 × Table :=
  match t.live? id with
  | some row => (1, t.put id { row with deletedAt := some now })
  | none => (0, t)

def clearTombstone (t : Table) (id : Id) : UInt64 × Table :=
  match (t.get? id).filter (·.isDeleted) with
  | some row => (1, t.put id { row with deletedAt := none })
  | none => (0, t)

def hardDelete (t : Table) (id : Id) : UInt64 × Table :=
  match t.get? id with
  | some _ => (1, t.erase id)
  | none => (0, t)

def answer (E : EntityType α) (now : Timestamp) (t : Table) : (c : StoreCall α) → c.Answer × Table
  | .find id _ v => (t.find E id v, t)
  | .query q w => (t.query E q w, t)
  | .count q => (t.count q, t)
  | .insert x => t.insert E now x
  | .save x => t.save E now x
  | .updateFields id fields => t.updateFields E now id fields
  | .softDelete id => (.ok (t.softDelete now id).1, (t.softDelete now id).2)
  | .clearTombstone id => (.ok (t.clearTombstone id).1, (t.clearTombstone id).2)
  | .hardDelete id => (.ok (t.hardDelete id).1, (t.hardDelete id).2)

end Table

end Recordkeeper
