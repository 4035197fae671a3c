import Recordkeeper.Query
import Recordkeeper.Number
import Recordkeeper.Json.Printer
import Recordkeeper.Text.Blank
import Recordkeeper.Text.Like

/-!
Comparing the columns of a row with the values of a filter. A value is first taken to the type of
the column it meets, as a typed column would: text that is a numeral equals a number, a number
equals its text. A value that the type cannot hold is an error, and a null column satisfies no
comparison.
-/

set_option autoImplicit false

namespace Recordkeeper.Matching

abbrev Columns := String → Json

def invalidNumber (column : Number) (value : Json) : String :=
  value.text ++ (if column.isInt then " is not a valid integer" else " is not a valid number")

/-- A value as a number for a numeric column; an integer column takes whole numbers only. -/
def numberFor (column : Number) (value : Json) : Except String Number :=
  let number := match value with
    | .num n => some n
    | .str s => Number.ofText? (Text.trim s.toList)
    | _ => none
  match number with
  | none => .error (invalidNumber column value)
  | some n =>
    if column.isInt && !n.isInt then .error (invalidNumber column value) else .ok n

def scalarText? : Json → Option String
  | .str s => some s
  | .num n => some n.toString
  | .bool true => some "true"
  | .bool false => some "false"
  | _ => none

def textFor (value : Json) : Except String String :=
  match scalarText? value with
  | some s => .ok s
  | none => .error (value.text ++ " is not a valid text value")

def trueWords : List String := ["t", "true", "y", "yes", "on", "1"]

def falseWords : List String := ["f", "false", "n", "no", "off", "0"]

def flagFor (value : Json) : Except String Bool :=
  let flag := match value with
    | .bool b => some b
    | .num n =>
      if n = .int 1 then some true
      else if n = .int 0 then some false
      else none
    | .str s =>
      let word := String.ofList (Text.lower (Text.trim s.toList))
      if trueWords.contains word then some true
      else if falseWords.contains word then some false
      else none
    | _ => none
  match flag with
  | some b => .ok b
  | none => .error (value.text ++ " is not a valid boolean")

def order? (column value : Json) : Except String (Option Ordering) :=
  match column with
  | .null => .ok none
  | .num a => do
    let b ← numberFor a value
    return a.order? b
  | .str a => do
    let b ← textFor value
    return some (compare a b)
  | .bool a => do
    let b ← flagFor value
    return some (compare a b)
  | .arr _ | .obj _ => .error "column does not hold a scalar"

def fieldOrder? (columns : Columns) (field : String) (value : Json) :
    Except String (Option Ordering) :=
  (order? (columns field) value).mapError fun m => "filter on '" ++ field ++ "': " ++ m

def likeHolds (columns : Columns) (t : LikeTerm) : Bool :=
  match scalarText? (columns t.field) with
  | some s => Text.like s.toList t.pattern.toList
  | none => false

/-- Every value of a constraint is tried, so one that the column cannot hold is always found. -/
def satisfies (columns : Columns) : Constraint → Except String Bool
  | .compare field op value => do
    let o ← fieldOrder? columns field value
    return o.any op.holds
  | .among field values => do
    let os ← values.mapM (fieldOrder? columns field)
    return os.any (· == some .eq)
  | .range field low high => do
    let above ← fieldOrder? columns field low
    let below ← fieldOrder? columns field high
    return above.any Comparison.atLeast.holds && below.any Comparison.atMost.holds
  | .anyLike terms => return terms.any (likeHolds columns)

def satisfiesAll (columns : Columns) : List Constraint → Except String Bool
  | [] => .ok true
  | c :: cs => do
    let here ← satisfies columns c
    let rest ← satisfiesAll columns cs
    return here && rest

/-- The order of two values in a sort: nulls first, and values that do not compare are equal. -/
def sortOrder (a b : Json) : Ordering :=
  match a.isNull, b.isNull with
  | true, true => .eq
  | true, false => .lt
  | false, true => .gt
  | false, false =>
    match order? a b with
    | .ok (some o) => o
    | _ => .eq

/-- The first key that tells two rows apart decides. -/
def rowOrder (a b : Columns) : List SortKey → Ordering
  | [] => .eq
  | k :: ks =>
    let o := sortOrder (a k.field) (b k.field)
    let o := match k.direction with
      | .ascending => o
      | .descending => o.swap
    o.then (rowOrder a b ks)

end Recordkeeper.Matching
