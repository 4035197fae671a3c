import Recordkeeper.Sql.Command

/-!
A store behind a Postgres connection. Every call sends one statement at most, so it is given in two
parts: the plan, which is an answer or a statement with its bound values, and what is made of the
reply to that statement.
-/

set_option autoImplicit false

namespace Recordkeeper.Postgres

def backend : String := "PostgreSQL"

inductive Param where
  | json (v : Json)
  | int (n : Int)
  | text (s : String)
  deriving DecidableEq

structure Statement where
  tokens : List Sql.Token
  params : List Param

def Statement.text (s : Statement) : String := Sql.text .postgres s.tokens

inductive Reply where
  | complete (rows : List (Option Json)) (affected : UInt64)
  | refused (message : String) (constraint : Option String)
  | broken

inductive Failure where
  | violation
  | poolExhausted
  | poolClosed
  | transport
  | handshake
  | undecodableValue
  | undecodableColumn
  | other
  deriving DecidableEq, Repr

/-- Connections that cannot be had, values that cannot be read, and constraints are told apart. -/
def Failure.error (message : String) : Failure → StoreError
  | violation => .constraint backend message
  | poolExhausted | poolClosed | transport | handshake => .connection backend message
  | undecodableValue | undecodableColumn => .serialization backend message
  | other => .query backend message

structure Table where
  name : String
  timestamps : Bool := true

variable {α : Type}

def ofBind : Sql.Bind → Param
  | .value v => .json v
  | .pattern p => .text p

def ofSelect (s : Sql.Statement) : Statement := ⟨s.tokens, s.binds.map ofBind⟩

/-- Identities are signed 64-bit numbers in the database. -/
def identity (id : Id) : Except StoreError Param :=
  if id.toNat < 9223372036854775808 then .ok (.int id.toNat)
  else .error (.query backend ("identity " ++ toString id ++ " is out of range for BIGINT"))

def writableFields (E : EntityType α) (x : α) : Except StoreError Object :=
  match E.encode x with
  | some (.obj data) => .ok (data.filter fun m => !Column.standard.contains m.1)
  | some _ => .error (.serialization backend (E.name ++ " does not serialize to an object"))
  | none => .error (.serialization backend "the record has no document")

inductive Plan (β : Type) where
  | answer (a : Except StoreError β)
  | send (s : Statement)

def Plan.ofStatement {β : Type} : Except StoreError Statement → Plan β
  | .ok s => .send s
  | .error e => .answer (.error e)

/-- Sets the columns of a row; with nothing to set no row is reached. -/
def updatePlan (t : Table) (id : Id) (fields : Object) : Plan UInt64 :=
  let assignments : List Sql.Assignment := fields.keys.map (·, .record) ++
    (if t.timestamps then [(Column.updatedAt, .now)] else [])
  if assignments.isEmpty then .answer (.ok 0)
  else .ofStatement do
    let id ← identity id
    return ⟨Sql.updateTokens t.name assignments, [.json (.obj fields), id]⟩

def insertStatement (E : EntityType α) (t : Table) (x : α) : Except StoreError Statement := do
  let fields ← writableFields E x
  let fields := if E.isNew x then fields else fields.put Column.id (.ofId (E.identity x))
  let columns : List Sql.Assignment := fields.keys.map (·, .record) ++
    (if t.timestamps then [(Column.createdAt, .now), (Column.updatedAt, .now)] else [])
  return ⟨Sql.insertTokens t.name columns, [.json (.obj fields)]⟩

def byIdentity (tokens : List Sql.Token) (id : Id) : Except StoreError Statement := do
  let id ← identity id
  return ⟨tokens, [id]⟩

def plan (E : EntityType α) (t : Table) : (c : StoreCall α) → Plan c.Result
  | .find id _ v => .ofStatement (byIdentity (Sql.findTokens t.name v) id)
  | .query q w => .send (ofSelect (Sql.select .postgres t.name q w))
  | .count q => .send (ofSelect (Sql.count .postgres t.name q))
  | .insert x => .ofStatement (insertStatement E t x)
  | .save x =>
    match writableFields E x with
    | .ok fields => updatePlan t (E.identity x) fields
    | .error e => .answer (.error e)
  | .updateFields id fields => updatePlan t id fields
  | .softDelete id =>
    .ofStatement (byIdentity (Sql.tombstoneTokens t.name .now (.isNull Column.deletedAt)) id)
  | .clearTombstone id =>
    .ofStatement (byIdentity (Sql.tombstoneTokens t.name .null (.isNotNull Column.deletedAt)) id)
  | .hardDelete id => .ofStatement (byIdentity (Sql.deleteTokens t.name) id)

/-- The rows of a reply and the number of rows affected, or the failure it stands for. -/
def outcome : Reply → Except StoreError (List (Option Json) × UInt64)
  | .complete rows affected => .ok (rows, affected)
  | .refused m (some _) => .error (Failure.violation.error m)
  | .refused m none => .error (Failure.other.error ("error returned from database: " ++ m))
  | .broken => .error (Failure.transport.error "the connection was lost")

def rowsOf (r : Reply) : Except StoreError (List (Option Json)) := (·.1) <$> outcome r

def affectedBy (r : Reply) : Except StoreError UInt64 := (·.2) <$> outcome r

def columnOf : Option Json → Except StoreError Json
  | some j => .ok j
  | none => .error (Failure.undecodableColumn.error "the column is not a document")

def decode (E : EntityType α) (row : Json) : Except StoreError α :=
  match E.decode row with
  | some x => .ok x
  | none =>
    .error (.serialization backend
      ("Failed to deserialize " ++ E.name ++ " from row: its columns do not fit"))

def noRows : StoreError :=
  Failure.other.error "no rows returned by a query that expected to return at least one row"

/-- A count from a signed number; a negative one counts nothing. -/
def countOf (row : Json) : Except StoreError UInt64 :=
  match row with
  | .num (.int n) => .ok (UInt64.ofNat n.toNat)
  | _ => .error (Failure.undecodableColumn.error "the column is not a number")

/-- What a call makes of the reply to its statement. Every column is read before any record is. -/
def resultOf (E : EntityType α) : (c : StoreCall α) → Reply → c.Answer
  | .find .., reply => do
    match ← rowsOf reply with
    | [] => return none
    | row :: _ => some <$> (columnOf row >>= decode E)
  | .query .., reply => do
    let columns ← (← rowsOf reply).mapM columnOf
    columns.mapM (decode E)
  | .count _, reply => do
    match ← rowsOf reply with
    | [] => throw noRows
    | row :: _ => columnOf row >>= countOf
  | .insert _, reply => do
    match ← rowsOf reply with
    | [] => throw noRows
    | row :: _ => columnOf row >>= decode E
  | .save _, reply => affectedBy reply
  | .updateFields .., reply => affectedBy reply
  | .softDelete _, reply => affectedBy reply
  | .clearTombstone _, reply => affectedBy reply
  | .hardDelete _, reply => affectedBy reply

/-- A connection whose replies are known beforehand, with the statements it was sent. When none is
left the reply is empty. -/
structure Connection where
  replies : List Reply := []
  sent : List Statement := []
  closed : Bool := false

def Connection.exchange (c : Connection) (s : Statement) : Reply × Connection :=
  match c.replies with
  | [] => (.complete [] 0, { c with sent := c.sent ++ [s] })
  | r :: rest => (r, { c with replies := rest, sent := c.sent ++ [s] })

def answer (E : EntityType α) (t : Table) (conn : Connection) (c : StoreCall α) :
    c.Answer × Connection :=
  match plan E t c with
  | .answer a => (a, conn)
  | .send s =>
    if conn.closed then (.error (Failure.poolClosed.error "the pool is closed"), conn)
    else
      let (reply, conn) := conn.exchange s
      (resultOf E c reply, conn)

end Recordkeeper.Postgres
