import Recordkeeper.Query
import Recordkeeper.Entity
import Recordkeeper.Sql.Token

set_option autoImplicit false

namespace Recordkeeper.Sql

inductive Bind where
  | value (v : Json)
  | pattern (p : String)
  deriving DecidableEq

inductive Operand where
  | plain (n : Nat)
  | typed (record column : String) (n : Nat)
  deriving DecidableEq, Repr

inductive Predicate where
  | compare (column : String) (op : Comparison) (value : Operand)
  | among (column : String) (values : List Operand)
  | never
  | between (column : String) (low high : Operand)
  | anyLike (terms : List (String × Nat))
  | isNull (column : String)
  | isNotNull (column : String)
  deriving DecidableEq, Repr

/-- Cuts a field at its last dot; an unqualified field belongs to the table. -/
def recordAndColumn (table field : String) : String × String :=
  let parts := List.splitOn '.' field.toList
  match parts.dropLast with
  | [] => (table, field)
  | front => (String.ofList (['.'].intercalate front), String.ofList (parts.getLast?.getD []))

/-- Under Postgres a value travels as a one-key object, from which it is read with the type of its
column. -/
def bindValue (d : Dialect) (table field : String) (v : Json) : Bind :=
  match d with
  | .postgres => .value (.obj [((recordAndColumn table field).2, v)])
  | .mysql => .value v

def operand (d : Dialect) (table field : String) (n : Nat) : Operand :=
  match d with
  | .postgres => .typed (recordAndColumn table field).1 (recordAndColumn table field).2 n
  | .mysql => .plain n

def binds (d : Dialect) (table : String) : Constraint → List Bind
  | .compare field _ value => [bindValue d table field value]
  | .among field values => values.map (bindValue d table field)
  | .range field low high => [bindValue d table field low, bindValue d table field high]
  | .anyLike terms => terms.map fun t => .pattern t.pattern

/-- The predicate of a constraint, when `bound` values are bound already. -/
def predicate (d : Dialect) (table : String) (bound : Nat) : Constraint → Predicate
  | .compare field op _ => .compare field op (operand d table field (bound + 1))
  | .among _ [] => .never
  | .among field values =>
    .among field (values.mapIdx fun i _ => operand d table field (bound + 1 + i))
  | .range field _ _ =>
    .between field (operand d table field (bound + 1)) (operand d table field (bound + 2))
  | .anyLike terms => .anyLike (terms.mapIdx fun i t => (t.field, bound + 1 + i))

def predicates (d : Dialect) (table : String) (bound : Nat) : List Constraint → List Predicate
  | [] => []
  | c :: cs =>
    predicate d table bound c :: predicates d table (bound + (binds d table c).length) cs

def visibilityPredicate : Visibility → Option Predicate
  | .active => some (.isNull Column.deletedAt)
  | .onlyDeleted => some (.isNotNull Column.deletedAt)
  | .all => none

def Operand.tokens : Operand → List Token
  | .plain n => [.param n]
  | .typed record column n =>
    parenthesized (.word "jsonb_populate_record" :: parenthesized
      (.word "NULL" :: .mark ':' :: .mark ':' :: (identifier record ++
        [.mark ',', blank, .param n]))) ++ .mark '.' :: identifier column

/-- A term of a group of alternatives. Postgres ignores case only when told to, and on text only. -/
def likeTokens (d : Dialect) (t : String × Nat) : List Token :=
  match d with
  | .postgres =>
    .word "CAST" :: (parenthesized (identifier t.1 ++ blank :: phrase ["AS", "TEXT"]) ++
      [blank, .word "ILIKE", blank, .param t.2])
  | .mysql => identifier t.1 ++ [blank, .word "LIKE", blank, .param t.2]

def Predicate.tokens (d : Dialect) : Predicate → List Token
  | .compare column op value =>
    identifier column ++ blank :: (op.symbol.toList.map Token.mark ++ blank :: value.tokens)
  | .among column values =>
    identifier column ++ blank :: .word "IN" :: blank ::
      parenthesized (commaSeparated (values.map Operand.tokens))
  | .never => [.word "FALSE"]
  | .between column low high =>
    identifier column ++ blank :: .word "BETWEEN" :: blank :: (low.tokens ++
      blank :: .word "AND" :: blank :: high.tokens)
  | .anyLike terms =>
    parenthesized (List.intercalate [blank, .word "OR", blank] (terms.map (likeTokens d)))
  | .isNull column => identifier column ++ blank :: phrase ["IS", "NULL"]
  | .isNotNull column => identifier column ++ blank :: phrase ["IS", "NOT", "NULL"]

/-- A WHERE clause with a blank before it, or nothing where nothing is asked. -/
def whereTokens (d : Dialect) (ps : List Predicate) : List Token :=
  if ps.isEmpty then []
  else blank :: .word "WHERE" :: blank ::
    List.intercalate [blank, .word "AND", blank] (ps.map (Predicate.tokens d))

def queryPredicates (d : Dialect) (table : String) (bound : Nat) (q : Query) : List Predicate :=
  predicates d table bound q.constraints ++ (visibilityPredicate q.visibility).toList

def queryBinds (d : Dialect) (table : String) (q : Query) : List Bind :=
  q.constraints.flatMap (binds d table)

/-- The WHERE clause of a query, and the bind list with its own binds added. -/
def renderWhere (d : Dialect) (table : String) (q : Query) (bound : List Bind) :
    List Token × List Bind :=
  (whereTokens d (queryPredicates d table bound.length q), bound ++ queryBinds d table q)

end Recordkeeper.Sql
