import Recordkeeper.Number.Double
import Recordkeeper.Text.Numeral

set_option autoImplicit false

namespace Recordkeeper

structure Decimal where
  digits : Nat
  exponent : Int
  deriving DecidableEq, Repr

namespace Decimal

def compareBinary (d : Decimal) (n : Nat) (e : Int) : Ordering :=
  compare (d.digits * Nat.pow 10 d.exponent.toNat * Nat.pow 2 (-e).toNat)
    (n * Nat.pow 2 e.toNat * Nat.pow 10 (-d.exponent).toNat)

def strip (d : Decimal) : Nat → Decimal
  | 0 => d
  | fuel + 1 =>
    if d.digits ≠ 0 ∧ d.digits % 10 = 0 then strip ⟨d.digits / 10, d.exponent + 1⟩ fuel else d

end Decimal

namespace Double

/-- The gap below a power of two is half the gap above it. -/
def narrowBelow (x : Double) : Bool := x.rank % binade = 0 && 2 * binade ≤ x.rank

/-- The decimal lies among the reals that round to the magnitude of `x`. -/
def readsBack (x : Double) (d : Decimal) : Bool :=
  let (m, e) := x.magnitude
  let low := d.compareBinary (if x.narrowBelow then 4 * m - 1 else 4 * m - 2) (e - 2)
  let high := d.compareBinary (4 * m + 2) (e - 2)
  let closed := m % 2 == 0
  (low == .gt || (closed && low == .eq)) && (high == .lt || (closed && high == .eq))

/-- The least `k` with the magnitude below `10 ^ k`, looked for near the binary logarithm. -/
def decimalTop (x : Double) : Int :=
  let (m, e) := x.magnitude
  let guess : Int := (((Nat.log2 m : Int) + e) * 30103) / 100000 - 1
  let below (k : Int) : Bool := (Decimal.mk 1 k).compareBinary m e == .gt
  if below guess then guess
  else if below (guess + 1) then guess + 1
  else if below (guess + 2) then guess + 2
  else guess + 3

/-- Of the two neighbours of the magnitude with the given exponent, the one that reads back, the
nearer one where both do, the even one where both are equally near. -/
def neighbour? (x : Double) (exponent : Int) : Option Decimal :=
  let (m, e) := x.magnitude
  let down := m * Nat.pow 2 e.toNat * Nat.pow 10 (-exponent).toNat /
    (Nat.pow 2 (-e).toNat * Nat.pow 10 exponent.toNat)
  let lower : Decimal := ⟨down, exponent⟩
  let upper : Decimal := ⟨down + 1, exponent⟩
  match x.readsBack lower, x.readsBack upper with
  | true, true =>
    match (Decimal.mk (2 * down + 1) exponent).compareBinary (2 * m) e with
    | .gt => some lower
    | .lt => some upper
    | .eq => some (if down % 2 = 0 then lower else upper)
  | true, false => some lower
  | false, true => some upper
  | false, false => none

/-- The exact decimal value of the magnitude. -/
def exact (x : Double) : Decimal :=
  let (m, e) := x.magnitude
  ⟨m * Nat.pow 2 e.toNat * Nat.pow 5 (-e).toNat, -((-e).toNat : Int)⟩

/-- The first grid, from the coarsest on, with a decimal that reads back. -/
def shortest (x : Double) : Decimal :=
  let top := x.decimalTop
  let found := (List.range 17).findSome? fun (n : Nat) => x.neighbour? (top - (n + 1))
  (found.getD x.exact).strip 400

/-- Positional from `10 ^ (-5)` up to `10 ^ 16`, with at least one place after the point; else one
digit before the point and a signed exponent. -/
def layOut (d : Decimal) : List Char :=
  let ds := Text.numeral d.digits
  let point : Int := ds.length + d.exponent
  let zeros (n : Int) : List Char := List.replicate n.toNat '0'
  if 0 < point ∧ point ≤ 16 then
    if 0 ≤ d.exponent then ds ++ zeros d.exponent ++ ['.', '0']
    else ds.take point.toNat ++ '.' :: ds.drop point.toNat
  else if -5 < point ∧ point ≤ 0 then '0' :: '.' :: (zeros (-point) ++ ds)
  else
    let lead := ds.take 1 ++ (if ds.length = 1 then [] else '.' :: ds.drop 1)
    let e := point - 1
    lead ++ 'e' :: ((if 0 ≤ e then ['+'] else []) ++ Text.signedNumeral e)

def text (x : Double) : List Char :=
  let body := if x.rank = 0 then ['0', '.', '0'] else layOut x.shortest
  if x.negative then '-' :: body else body

end Double

end Recordkeeper
