/-!
Finite binary64 numbers, exactly. A number is its sign and the rank of its magnitude among the
nonnegative finite ones, so neighbours differ by one in rank and order is order of ranks. Ratios
are rounded to the nearest number, ties to the even rank.
-/

set_option autoImplicit false

namespace Recordkeeper

/-- How many magnitudes there are from one power of two up to the next: the 52nd power of two. -/
abbrev binade : Nat := 4503599627370496

structure Double where
  negative : Bool
  /-- How many nonnegative numbers lie below the magnitude. -/
  rank : Nat
  finite : rank < 2047 * binade
  deriving DecidableEq

namespace Double

def zero : Double := ⟨false, 0, by decide⟩

def position (x : Double) : Int := if x.negative then -(x.rank : Int) else x.rank

def order (x y : Double) : Ordering := compare x.position y.position

/-- The magnitude as a whole number times a power of two. -/
def magnitude (x : Double) : Nat × Int :=
  if x.rank < binade then (x.rank, -1074)
  else (binade + x.rank % binade, ((x.rank / binade : Nat) : Int) - 1075)

/-- Division rounded to the nearest whole number, a half going to the even neighbour. -/
def roundDiv (num den : Nat) : Nat :=
  let q := num / den
  let twice := 2 * (num % den)
  if twice < den then q
  else if den < twice then q + 1
  else if q % 2 = 0 then q else q + 1

/-- The largest power of two that does not exceed a positive ratio. -/
def log2Ratio (num den : Nat) : Int :=
  let l : Int := (Nat.log2 num : Int) - (Nat.log2 den : Int)
  if num * Nat.pow 2 (-l).toNat < den * Nat.pow 2 l.toNat then l - 1 else l

def rankNear (num den : Nat) : Nat :=
  let e := max (-1074) (log2Ratio num den - 52)
  (e + 1074).toNat * binade +
    roundDiv (num * Nat.pow 2 (-e).toNat) (den * Nat.pow 2 e.toNat)

/-- The number nearest to a ratio, unless that rounds past the largest finite one. -/
def ofRatio? (negative : Bool) (num den : Nat) : Option Double :=
  let r := if num = 0 then 0 else rankNear num den
  if h : r < 2047 * binade then some ⟨negative, r, h⟩ else none

def ofInt? (n : Int) : Option Double := ofRatio? (n < 0) n.natAbs 1

/-- The number nearest to `digits * 10 ^ exponent`. Magnitudes beyond `10 ^ 310` and below
`10 ^ (-330)` are settled by the count of digits alone. -/
def ofDecimal? (negative : Bool) (digits : Nat) (exponent : Int) : Option Double :=
  if digits = 0 then ofRatio? negative 0 1
  else
    let top : Int := (Nat.toDigits 10 digits).length + exponent
    if 310 < top then none
    else if top < -330 then ofRatio? negative 0 1
    else ofRatio? negative (digits * Nat.pow 10 exponent.toNat) (Nat.pow 10 (-exponent).toNat)

end Double

/-- A binary64 value; not all of them are numbers. -/
inductive Binary64 where
  | finite (x : Double)
  | infinite (negative : Bool)
  | nan
  deriving DecidableEq

end Recordkeeper
