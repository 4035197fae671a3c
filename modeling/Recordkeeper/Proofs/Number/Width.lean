import Mathlib.Algebra.Group.Nat.Defs
import Recordkeeper.Number

set_option autoImplicit false

namespace Recordkeeper

namespace Double

theorem roundDiv_le (num den : Nat) : roundDiv num den ≤ num / den + 1 := by
  simp only [roundDiv]
  split
  · omega
  · split
    · omega
    · split <;> omega

theorem log2Ratio_one {m : Nat} (hm : 0 < m) : log2Ratio m 1 = Nat.log2 m := by
  have hle : 2 ^ m.log2 ≤ m := Nat.log2_self_le (by omega)
  have hnot : ¬ m * Nat.pow 2 (-(m.log2 : Int)).toNat < 1 * Nat.pow 2 (m.log2 : Int).toNat := by
    simpa using hle
  simp only [log2Ratio, show Nat.log2 1 = 0 from rfl, Int.natCast_zero, Int.sub_zero, if_neg hnot]

theorem mantissa_lt (m : Nat) :
    m * 2 ^ (52 - m.log2) / 2 ^ (m.log2 - 52) < 2 * binade := by
  have hlt : m < 2 ^ (m.log2 + 1) := Nat.lt_log2_self
  have hbinades : 2 * binade = 2 ^ 53 := rfl
  rw [hbinades, Nat.div_lt_iff_lt_mul (Nat.two_pow_pos _), ← Nat.pow_add]
  calc m * 2 ^ (52 - m.log2) < 2 ^ (m.log2 + 1) * 2 ^ (52 - m.log2) :=
        Nat.mul_lt_mul_of_pos_right hlt (Nat.two_pow_pos _)
    _ = 2 ^ (53 + (m.log2 - 52)) := by
        rw [← Nat.pow_add]
        congr 1
        omega

/-- A whole number that is not zero keeps a distance from it when it is rounded. -/
theorem rankNear_bounds {m : Nat} (hm : 0 < m) (hlt : m < 18446744073709551616) :
    0 < rankNear m 1 ∧ rankNear m 1 < 2047 * binade := by
  have hlog : m.log2 < 64 := (Nat.log2_lt (by omega)).2 (by omega)
  have hexponent : max (-1074) (log2Ratio m 1 - 52) = (m.log2 : Int) - 52 := by
    rw [log2Ratio_one hm]
    omega
  have hmantissa := mantissa_lt m
  have hround := roundDiv_le (m * 2 ^ (52 - m.log2)) (2 ^ (m.log2 - 52))
  have hrank : rankNear m 1 = (m.log2 + 1022) * binade +
      roundDiv (m * 2 ^ (52 - m.log2)) (2 ^ (m.log2 - 52)) := by
    have hplace : ((m.log2 : Int) - 52 + 1074).toNat = m.log2 + 1022 := by omega
    have hdown : (-((m.log2 : Int) - 52)).toNat = 52 - m.log2 := by omega
    have hup : ((m.log2 : Int) - 52).toNat = m.log2 - 52 := by omega
    simp only [rankNear, hexponent, hplace, hdown, hup, Nat.pow_eq, Nat.one_mul]
  simp only [binade] at *
  omega

theorem exists_ofInt? {n : Int} (hn : n ≠ 0) (hlow : -18446744073709551616 < n)
    (hhigh : n < 18446744073709551616) :
    ∃ x, ofInt? n = some x ∧ (n < 0 → x.position < 0) ∧ (0 < n → 0 < x.position) := by
  obtain ⟨hpos, hfinite⟩ := rankNear_bounds (m := n.natAbs) (by omega) (by omega)
  have hzero : n.natAbs ≠ 0 := by omega
  refine ⟨⟨decide (n < 0), rankNear n.natAbs 1, hfinite⟩, ?_, fun hneg => ?_, fun hpos' => ?_⟩
  · simp [ofInt?, ofRatio?, hn, hfinite]
  · simp [position, hneg, hpos]
  · simp [position, show ¬ n < 0 by omega, hpos]

end Double

namespace Number

variable {a b : Int}

def roundedOrder? (a b : Number) : Option Ordering := do
  let x ← a.toDouble?
  let y ← b.toDouble?
  return x.order y

def unsignedOrder? (a b : Number) : Option Ordering :=
  match a.toUInt64?, b.toUInt64? with
  | some x, some y => some (compare x y)
  | _, _ => a.roundedOrder? b

def orderByWidth? (a b : Number) : Option Ordering :=
  match a.toInt64?, b.toInt64? with
  | some x, some y => some (compare x y)
  | _, _ => a.unsignedOrder? b

theorem unsignedOrder?_of_none {a b : Number} (h : a.toUInt64? = none ∨ b.toUInt64? = none) :
    a.unsignedOrder? b = a.roundedOrder? b := by
  unfold unsignedOrder?
  rcases h with h | h
  · rw [h]
  · rw [h]
    cases a.toUInt64? <;> rfl

theorem orderByWidth?_of_none {a b : Number} (h : a.toInt64? = none ∨ b.toInt64? = none) :
    a.orderByWidth? b = a.unsignedOrder? b := by
  unfold orderByWidth?
  rcases h with h | h
  · rw [h]
  · rw [h]
    cases a.toInt64? <;> rfl

theorem compare_int64 (ha : -9223372036854775808 ≤ a ∧ a < 9223372036854775808)
    (hb : -9223372036854775808 ≤ b ∧ b < 9223372036854775808) :
    compare (Int64.ofInt a) (Int64.ofInt b) = compare a b := by
  have hread {n : Int} (hn : -9223372036854775808 ≤ n ∧ n < 9223372036854775808) :
      (Int64.ofInt n).toInt = n := Int64.toInt_ofInt_of_le hn.1 hn.2
  simp only [compare, compareOfLessAndEq, Int64.lt_iff_toInt_lt, ← Int64.toInt_inj, hread ha,
    hread hb]

theorem compare_uint64 (ha : 0 ≤ a ∧ a < UInt64.size) (hb : 0 ≤ b ∧ b < UInt64.size) :
    compare (UInt64.ofNat a.toNat) (UInt64.ofNat b.toNat) = compare a b := by
  have hread {n : Int} (hn : 0 ≤ n ∧ n < UInt64.size) : (UInt64.ofNat n.toNat).toNat = n.toNat :=
    UInt64.toNat_ofNat_of_lt' (by omega)
  simp only [compare, compareOfLessAndEq, UInt64.lt_iff_toNat_lt, ← UInt64.toNat_inj, hread ha,
    hread hb, show a.toNat < b.toNat ↔ a < b by omega, show a.toNat = b.toNat ↔ a = b by omega]

def Fits (n : Number) : Prop := ∀ i, n = .int i → fits i = true

theorem fits_iff {n : Int} :
    fits n = true ↔ -9223372036854775808 ≤ n ∧ n < 18446744073709551616 := by
  simp [fits]

/-- Of whole numbers that share no width one is negative, so binary64 tells them apart as well. -/
theorem roundedOrder?_int (ha : fits a = true) (hb : fits b = true)
    (h : a < 0 ∧ 0 < b ∨ 0 < a ∧ b < 0) :
    roundedOrder? (.int a) (.int b) = some (compare a b) := by
  rw [fits_iff] at ha hb
  obtain ⟨x, hx, hxneg, hxpos⟩ := Double.exists_ofInt? (n := a) (by omega) (by omega) (by omega)
  obtain ⟨y, hy, hyneg, hypos⟩ := Double.exists_ofInt? (n := b) (by omega) (by omega) (by omega)
  have hsame : compare x.position y.position = compare a b := by
    rcases h with ⟨hneg, hpos⟩ | ⟨hpos, hneg⟩
    · have := hxneg hneg
      have := hypos hpos
      rw [Int.compare_eq_lt.2 (by omega), Int.compare_eq_lt.2 (by omega)]
    · have := hxpos hpos
      have := hyneg hneg
      rw [Int.compare_eq_gt.2 (by omega), Int.compare_eq_gt.2 (by omega)]
  simp [roundedOrder?, toDouble?, hx, hy, Double.order, hsame]

section

variable {n : Int}

theorem toInt64?_of_lt (hn : fits n = true) (h : n < 9223372036854775808) :
    toInt64? (.int n) = some (Int64.ofInt n) := if_pos ⟨(fits_iff.1 hn).1, h⟩

theorem toInt64?_of_le (h : 9223372036854775808 ≤ n) : toInt64? (.int n) = none :=
  if_neg fun hn => by omega

theorem toUInt64?_of_nonneg (hn : fits n = true) (h : 0 ≤ n) :
    toUInt64? (.int n) = some (UInt64.ofNat n.toNat) := if_pos ⟨h, (fits_iff.1 hn).2⟩

theorem toUInt64?_of_neg (h : n < 0) : toUInt64? (.int n) = none := if_neg fun hn => by omega

end

theorem orderByWidth?_int (ha : fits a = true) (hb : fits b = true) :
    orderByWidth? (.int a) (.int b) = some (compare a b) := by
  have hlow := (fits_iff.1 ha).1
  have hlow' := (fits_iff.1 hb).1
  by_cases hsigned : a < 9223372036854775808 ∧ b < 9223372036854775808
  · simp only [orderByWidth?, toInt64?_of_lt ha hsigned.1, toInt64?_of_lt hb hsigned.2,
      compare_int64 ⟨hlow, hsigned.1⟩ ⟨hlow', hsigned.2⟩]
  have hnone : toInt64? (.int a) = none ∨ toInt64? (.int b) = none :=
    (Decidable.not_and_iff_not_or_not.1 hsigned).imp (fun h => toInt64?_of_le (by omega))
      fun h => toInt64?_of_le (by omega)
  rw [orderByWidth?_of_none hnone]
  by_cases hunsigned : 0 ≤ a ∧ 0 ≤ b
  · simp only [unsignedOrder?, toUInt64?_of_nonneg ha hunsigned.1,
      toUInt64?_of_nonneg hb hunsigned.2,
      compare_uint64 ⟨hunsigned.1, (fits_iff.1 ha).2⟩ ⟨hunsigned.2, (fits_iff.1 hb).2⟩]
  have hnone : toUInt64? (.int a) = none ∨ toUInt64? (.int b) = none :=
    (Decidable.not_and_iff_not_or_not.1 hunsigned).imp (fun h => toUInt64?_of_neg (by omega))
      fun h => toUInt64?_of_neg (by omega)
  rw [unsignedOrder?_of_none hnone]
  exact roundedOrder?_int ha hb (by omega)

/-- Compared at their widths, numbers have their order. -/
theorem orderByWidth?_eq {a b : Number} (ha : a.Fits) (hb : b.Fits) :
    a.orderByWidth? b = a.order? b := by
  cases a with
  | real x => cases b <;> rfl
  | int a =>
    cases b with
    | real y => rw [orderByWidth?_of_none (.inr rfl), unsignedOrder?_of_none (.inr rfl)]; rfl
    | int b => exact orderByWidth?_int (ha a rfl) (hb b rfl)

end Number

end Recordkeeper
