import Recordkeeper.Number.Shortest

set_option autoImplicit false

namespace Recordkeeper

inductive Number where
  | int (value : Int)
  | real (value : Double)
  deriving DecidableEq

namespace Number

def ofId (n : UInt64) : Number := .int n.toNat

def isInt : Number → Bool
  | .int _ => true
  | .real _ => false

def fits (n : Int) : Bool := -9223372036854775808 ≤ n && n < 18446744073709551616

def text : Number → List Char
  | .int n => Text.signedNumeral n
  | .real x => x.text

def toString (n : Number) : String := String.ofList n.text

def toDouble? : Number → Option Double
  | .int n => Double.ofInt? n
  | .real x => some x

def toUInt64? : Number → Option UInt64
  | .int n => if 0 ≤ n ∧ n < UInt64.size then some (UInt64.ofNat n.toNat) else none
  | .real _ => none

def toInt64? : Number → Option Int64
  | .int n => if -9223372036854775808 ≤ n ∧ n < 9223372036854775808 then some (Int64.ofInt n) else none
  | .real _ => none

/-- Two whole numbers compare exactly; otherwise both sides are first rounded. -/
def order? : Number → Number → Option Ordering
  | .int a, .int b => some (compare a b)
  | a, b => do
    let x ← a.toDouble?
    let y ← b.toDouble?
    return x.order y

/-- A decimal with an optional sign: digits with at most one point among or beside them, then
perhaps an exponent. Words such as "inf" are no decimals. -/
def decimal? (s : List Char) : Option Double :=
  let (negative, s) := match s with
    | '-' :: r => (true, r)
    | '+' :: r => (false, r)
    | r => (false, r)
  let (whole, s) := Text.spanDigits s
  let (places, s) := match s with
    | '.' :: r => Text.spanDigits r
    | r => ([], r)
  if whole.isEmpty && places.isEmpty then none
  else do
    let exponent ← match s with
      | [] => some 0
      | c :: r => if c = 'e' ∨ c = 'E' then Text.integer? r else none
    Double.ofDecimal? negative (Text.digitsValue (whole ++ places)) (exponent - places.length)

/-- A text as a number: whole where it is a numeral that fits, else the nearest binary64 number. -/
def ofText? (s : List Char) : Option Number :=
  match Text.integer? s with
  | some n =>
    if fits n then some (.int n) else (decimal? s).map .real
  | none => (decimal? s).map .real

end Number

end Recordkeeper
