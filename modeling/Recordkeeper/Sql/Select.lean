import Recordkeeper.Sql.Predicate
import Recordkeeper.Store

set_option autoImplicit false

namespace Recordkeeper.Sql

structure Statement where
  tokens : List Token
  binds : List Bind

/-- Windows are counted in signed 64-bit numbers. -/
def windowBound (n : UInt64) : Nat := min n.toNat 9223372036854775807

def windowTokens : Option Window → List Token
  | none => []
  | some w =>
    [blank, .word "LIMIT", blank, .number (windowBound w.limit), blank, .word "OFFSET", blank,
      .number (windowBound w.offset)]

def keyTokens (k : SortKey) : List Token :=
  identifier k.field ++ [blank, .word (match k.direction with
    | .ascending => "ASC"
    | .descending => "DESC")]

def orderTokens : Option Order → List Token
  | none => []
  | some (.keys []) => []
  | some (.keys ks) =>
    blank :: (phrase ["ORDER", "BY"] ++ blank :: commaSeparated (ks.map keyTokens))
  | some (.raw clause) => blank :: (phrase ["ORDER", "BY"] ++ [blank, .raw clause])

/-- All columns of a row, under Postgres as one document. -/
def rowTokens (table : String) : List Token :=
  .word "to_jsonb" :: parenthesized (identifier table ++ [.mark '.', .mark '*'])

def projection : Dialect → String → List Token
  | .postgres, table => rowTokens table
  | .mysql, _ => [.mark '*']

def select (d : Dialect) (table : String) (q : Query) (w : Option Window) : Statement :=
  let (clause, binds) := renderWhere d table q []
  { tokens := .word "SELECT" :: blank :: (projection d table ++
      blank :: .word "FROM" :: blank :: (identifier table ++ clause ++
        orderTokens q.order ++ windowTokens w))
    binds := binds }

def count (d : Dialect) (table : String) (q : Query) : Statement :=
  let (clause, binds) := renderWhere d table q []
  { tokens := .word "SELECT" :: blank :: .word "COUNT" :: (parenthesized [.mark '*'] ++
      blank :: .word "FROM" :: blank :: (identifier table ++ clause))
    binds := binds }

end Recordkeeper.Sql
