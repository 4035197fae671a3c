import Recordkeeper.Text.Blank
import Recordkeeper.Text.Numeral

/-!
The words of SQL statements and how they are written. A quoted name ends at the first quote that is
not doubled; names joined by dots are quoted part by part.
-/

set_option autoImplicit false

namespace Recordkeeper.Sql

inductive Dialect where
  | postgres
  | mysql
  deriving DecidableEq, Repr

def Dialect.quote : Dialect → Char
  | .postgres => '"'
  | .mysql => '\x60'

inductive Token where
  /-- A word of the language, or a name of its own that needs no quotes. -/
  | word (w : String)
  | name (part : List Char)
  | param (n : Nat)
  | number (n : Nat)
  /-- A blank or a punctuation mark. -/
  | mark (c : Char)
  | raw (clause : String)
  deriving DecidableEq, Repr

/-- A quote inside a name is written twice. -/
def doubled (q : Char) : List Char → List Char
  | [] => []
  | c :: r => if c = q then q :: q :: doubled q r else c :: doubled q r

def quotePart (d : Dialect) (part : List Char) : List Char :=
  d.quote :: (doubled d.quote part ++ [d.quote])

def Token.write (d : Dialect) : Token → List Char
  | .word w => w.toList
  | .name part => quotePart d part
  | .param n => match d with
    | .postgres => '$' :: Text.numeral n
    | .mysql => ['?']
  | .number n => Text.numeral n
  | .mark c => [c]
  | .raw clause => clause.toList

def write (d : Dialect) (ts : List Token) : List Char := ts.flatMap (Token.write d)

def text (d : Dialect) (ts : List Token) : String := String.ofList (write d ts)

def blank : Token := .mark ' '

def phrase (ws : List String) : List Token := (ws.map Token.word).intersperse blank

def commaSeparated (runs : List (List Token)) : List Token :=
  List.intercalate [.mark ',', blank] runs

def parenthesized (ts : List Token) : List Token := .mark '(' :: (ts ++ [.mark ')'])

/-- A name, quoted part by part. -/
def identifier (name : String) : List Token :=
  List.intercalate [.mark '.'] ((List.splitOn '.' name.toList).map fun part => [.name part])

def quoteIdentifier (d : Dialect) (name : String) : String := text d (identifier name)

end Recordkeeper.Sql
