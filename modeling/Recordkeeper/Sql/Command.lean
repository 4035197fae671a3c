import Recordkeeper.Sql.Select

/-!
The statements that reach single rows of a Postgres table. A row's new values come from the record
`r`, which is read from the one document that is bound; the store's own columns are set otherwise.
-/

set_option autoImplicit false

namespace Recordkeeper.Sql

inductive Source where
  | record
  | now
  | null
  deriving DecidableEq, Repr

abbrev Assignment := String × Source

def nowTokens : List Token := [.word "now", .mark '(', .mark ')']

def sourceTokens (column : String) : Source → List Token
  | .record => .word "r" :: .mark '.' :: identifier column
  | .now => nowTokens
  | .null => [.word "NULL"]

def assignmentTokens (a : Assignment) : List Token :=
  identifier a.1 ++ [blank, .mark '=', blank] ++ sourceTokens a.1 a.2

/-- `jsonb_populate_record(NULL::table, $1) AS r`. -/
def recordTokens (table : String) : List Token :=
  .word "jsonb_populate_record" :: (parenthesized
    (.word "NULL" :: .mark ':' :: .mark ':' :: (identifier table ++ [.mark ',', blank, .param 1])) ++
    blank :: phrase ["AS", "r"])

def equalsParam (column : List Token) (n : Nat) : List Token :=
  column ++ [blank, .mark '=', blank, .param n]

def identityIs (n : Nat) : List Token := equalsParam (identifier Column.id) n

def andTokens : List Token := [blank, .word "AND", blank]

def findTokens (table : String) (v : Visibility) : List Token :=
  .word "SELECT" :: blank :: (rowTokens table ++ blank :: .word "FROM" :: blank ::
    (identifier table ++ blank :: .word "WHERE" :: blank :: (identityIs 1 ++
      match visibilityPredicate v with
      | some p => andTokens ++ p.tokens .postgres
      | none => [])))

def returningTokens (table : String) : List Token :=
  blank :: .word "RETURNING" :: blank :: rowTokens table

/-- A new row with the given columns, or with none but the defaults. -/
def insertTokens (table : String) (columns : List Assignment) : List Token :=
  phrase ["INSERT", "INTO"] ++ blank :: (identifier table ++ blank ::
    ((if columns.isEmpty then phrase ["DEFAULT", "VALUES"]
      else parenthesized (commaSeparated (columns.map fun a => identifier a.1)) ++
        blank :: .word "SELECT" :: blank ::
          (commaSeparated (columns.map fun a => sourceTokens a.1 a.2) ++
            blank :: .word "FROM" :: blank :: recordTokens table)) ++
      returningTokens table))

def setTokens (table : String) (assignments : List Assignment) : List Token :=
  .word "UPDATE" :: blank :: (identifier table ++ blank :: .word "SET" :: blank ::
    commaSeparated (assignments.map assignmentTokens))

def updateTokens (table : String) (assignments : List Assignment) : List Token :=
  let qualified (column : String) : List Token := identifier table ++ .mark '.' :: identifier column
  setTokens table assignments ++ blank :: .word "FROM" :: blank :: (recordTokens table ++
    blank :: .word "WHERE" :: blank :: (equalsParam (qualified Column.id) 2 ++ andTokens ++
      qualified Column.deletedAt ++ blank :: phrase ["IS", "NULL"]))

/-- Sets or takes away the tombstone of a row in the other state. -/
def tombstoneTokens (table : String) (source : Source) (before : Predicate) : List Token :=
  setTokens table [(Column.deletedAt, source)] ++ blank :: .word "WHERE" :: blank ::
    (identityIs 1 ++ andTokens ++ before.tokens .postgres)

def deleteTokens (table : String) : List Token :=
  phrase ["DELETE", "FROM"] ++ blank :: (identifier table ++ blank :: .word "WHERE" :: blank ::
    identityIs 1)

end Recordkeeper.Sql
