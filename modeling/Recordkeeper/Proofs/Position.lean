import Mathlib.Order.Bounds.Defs
import Recordkeeper.Proofs.Paging

set_option autoImplicit false

namespace Recordkeeper

theorem UInt64.ne_zero_of_one_le {n : UInt64} (h : 1 ≤ n) : n ≠ 0 := by
  rintro rfl
  exact absurd h (by decide)

namespace Word

def ofNat? (n : Nat) : Option UInt64 := if n < UInt64.size then some (UInt64.ofNat n) else none

def sum? (a b : UInt64) : Option UInt64 := ofNat? (a.toNat + b.toNat)

def difference? (a b : UInt64) : Option UInt64 :=
  if b.toNat ≤ a.toNat then ofNat? (a.toNat - b.toNat) else none

def product? (a b : UInt64) : Option UInt64 := ofNat? (a.toNat * b.toNat)

def quotient? (a b : UInt64) : Option UInt64 :=
  if b.toNat = 0 then none else ofNat? (a.toNat / b.toNat)

def remainder? (a b : UInt64) : Option UInt64 :=
  if b.toNat = 0 then none else ofNat? (a.toNat % b.toNat)

def dividedUp? (a b : UInt64) : Option UInt64 := do
  let quotient ← quotient? a b
  let remainder ← remainder? a b
  if remainder = 0 then return quotient else sum? quotient 1

def orLargest (n : Option UInt64) : UInt64 := n.getD 18446744073709551615

theorem ofNat?_of_lt {n : Nat} (h : n < 2 ^ 64) : ofNat? n = some (UInt64.ofNat n) := if_pos h

theorem ofNat?_toNat (a : UInt64) : ofNat? a.toNat = some a := by
  rw [ofNat?_of_lt a.toNat_lt, UInt64.ofNat_toNat]

theorem orLargest_ofNat? (n : Nat) : orLargest (ofNat? n) = saturate n := by
  unfold ofNat? saturate
  split
  · next h =>
    have hmin : min n 18446744073709551615 = n := by
      simp only [UInt64.size] at h
      omega
    rw [hmin]
    rfl
  · next h =>
    have hmin : min n 18446744073709551615 = 18446744073709551615 := by
      simp only [UInt64.size] at h
      omega
    rw [hmin]
    rfl

theorem difference?_one (a : UInt64) :
    ((difference? a 1).getD 0).toNat = a.toNat - 1 := by
  have hlt := a.toNat_lt
  unfold difference?
  rw [UInt64.toNat_one]
  split
  · have hword : a.toNat - 1 < 2 ^ 64 := by omega
    rw [ofNat?_of_lt hword, Option.getD_some, UInt64.toNat_ofNat_of_lt' hword]
  · rw [Option.getD_none, UInt64.toNat_zero]
    omega

theorem quotient?_eq {a b : UInt64} (hb : b ≠ 0) : quotient? a b = some (a / b) := by
  have hb' : b.toNat ≠ 0 := fun h => hb (UInt64.toNat_inj.1 h)
  rw [quotient?, if_neg hb', ← UInt64.toNat_div, ofNat?_toNat]

theorem remainder?_eq {a b : UInt64} (hb : b ≠ 0) : remainder? a b = some (a % b) := by
  have hb' : b.toNat ≠ 0 := fun h => hb (UInt64.toNat_inj.1 h)
  rw [remainder?, if_neg hb', ← UInt64.toNat_mod, ofNat?_toNat]

theorem add_pred_div (t : Nat) {s : Nat} (hs : 1 ≤ s) :
    (t + s - 1) / s = if t % s = 0 then t / s else t / s + 1 := by
  have hsplit : t / s * s + t % s = t := Nat.div_add_mod' t s
  have hmod := Nat.mod_lt t hs
  split
  · refine Nat.div_eq_of_lt_le (by omega) ?_
    rw [Nat.succ_mul]
    omega
  · refine Nat.div_eq_of_lt_le ?_ ?_
    · rw [Nat.succ_mul]
      omega
    · rw [Nat.succ_mul, Nat.succ_mul]
      omega

theorem dividedUp?_eq {a b : UInt64} (hb : b ≠ 0) :
    dividedUp? a b = ofNat? ((a.toNat + b.toNat - 1) / b.toNat) := by
  have hb' : b.toNat ≠ 0 := fun h => hb (UInt64.toNat_inj.1 h)
  have hzero : a % b = 0 ↔ a.toNat % b.toNat = 0 := by
    rw [← UInt64.toNat_mod, ← UInt64.toNat_zero, UInt64.toNat_inj]
  have hdivided : dividedUp? a b = if a % b = 0 then some (a / b) else sum? (a / b) 1 := by
    rw [dividedUp?, quotient?_eq hb, remainder?_eq hb]
    rfl
  rw [hdivided, add_pred_div _ (by omega)]
  by_cases heven : a % b = 0
  · rw [if_pos heven, if_pos (hzero.1 heven), ← UInt64.toNat_div, ofNat?_toNat]
  · rw [if_neg heven, if_neg (mt hzero.2 heven), sum?, UInt64.toNat_div, UInt64.toNat_one]

end Word

namespace Pagination

section

open Word

variable (p : Pagination)

/-- Index zero counts as one, and a product that is too large as the largest word. -/
def offsetByWords : UInt64 := orLargest (product? ((difference? p.pageIndex 1).getD 0) p.pageSize)

def totalPagesByWords? : Option UInt64 :=
  if p.total = 0 ∨ p.pageSize = 0 then some 0 else dividedUp? p.total p.pageSize

def hasNextByWords : Bool := orLargest (sum? p.offsetByWords p.pageSize) < p.total

theorem offsetByWords_eq : p.offsetByWords = p.offset := by
  rw [offsetByWords, product?, difference?_one, orLargest_ofNat?, offset]

theorem hasNextByWords_eq : p.hasNextByWords = p.hasNext := by
  rw [hasNextByWords, offsetByWords_eq, sum?, orLargest_ofNat?, hasNext]

theorem totalPagesByWords?_eq : p.totalPagesByWords? = some p.totalPages := by
  unfold totalPagesByWords?
  split
  · next h => rw [totalPages, if_pos h]
  · next h =>
    obtain ⟨-, hsize⟩ := not_or.1 h
    rw [dividedUp?_eq hsize, ← toNat_totalPages (UInt64.one_le hsize), ofNat?_toNat]

end

section

variable {p : Pagination}

theorem toNat_offset (p : Pagination) :
    p.offset.toNat = min ((p.pageIndex.toNat - 1) * p.pageSize.toNat) (2 ^ 64 - 1) :=
  toNat_saturate _

theorem totalPages_le_iff (hsize : 1 ≤ p.pageSize) (n : Nat) :
    p.totalPages.toNat ≤ n ↔ p.total.toNat ≤ n * p.pageSize.toNat := by
  have hs : 1 ≤ p.pageSize.toNat := UInt64.le_iff_toNat_le.1 hsize
  rw [toNat_totalPages hsize, Nat.div_le_iff_le_mul_add_pred hs, Nat.mul_comm]
  omega

theorem hasNext_iff (hindex : 1 ≤ p.pageIndex) :
    p.hasNext = true ↔ p.pageIndex.toNat * p.pageSize.toNat < p.total.toNat := by
  have hi : 1 ≤ p.pageIndex.toNat := UInt64.le_iff_toNat_le.1 hindex
  have hend : p.pageIndex.toNat * p.pageSize.toNat =
      (p.pageIndex.toNat - 1) * p.pageSize.toNat + p.pageSize.toNat := by
    rw [← Nat.succ_mul]
    congr 1
    omega
  have ht := p.total.toNat_lt
  rw [hasNext, decide_eq_true_iff, UInt64.lt_iff_toNat_lt, toNat_saturate, toNat_offset, hend]
  omega

theorem hasPrevious_iff (p : Pagination) : p.hasPrevious = true ↔ 1 < p.pageIndex.toNat := by
  rw [hasPrevious, decide_eq_true_iff, UInt64.lt_iff_toNat_lt, UInt64.toNat_one]

theorem normalized_eq_self_iff {defaultSize : UInt64} {maxSize : Option UInt64} :
    p.normalized defaultSize maxSize = p ↔
      1 ≤ p.pageIndex ∧ 1 ≤ p.pageSize ∧ ∀ m, maxSize = some m → p.pageSize ≤ max m 1 := by
  constructor
  · intro h
    rw [← h]
    refine ⟨one_le_normalized_pageIndex .., one_le_normalized_pageSize .., ?_⟩
    rintro m rfl
    exact normalized_pageSize_le p defaultSize m
  · rintro ⟨hindex, hsize, hmax⟩
    have hindex0 := UInt64.ne_zero_of_one_le hindex
    have hsize0 := UInt64.ne_zero_of_one_le hsize
    obtain ⟨index, size, total⟩ := p
    cases maxSize with
    | none => simp_all [normalized]
    | some m =>
      have hmin : min size (max m 1) = size :=
        Std.LawfulOrderLeftLeaningMin.min_eq_left _ _ (hmax m rfl)
      simp_all [normalized]

end

structure Exact (p : Pagination) : Prop where
  offset : p.offset.toNat = min ((p.pageIndex.toNat - 1) * p.pageSize.toNat) (2 ^ 64 - 1)
  totalPages : IsLeast {n | p.total.toNat ≤ n * p.pageSize.toNat} p.totalPages.toNat
  hasNext_pages : p.hasNext = true ↔ p.pageIndex.toNat < p.totalPages.toNat
  hasNext_rows : p.hasNext = true ↔ p.pageIndex.toNat * p.pageSize.toNat < p.total.toNat
  hasPrevious : p.hasPrevious = true ↔ 1 < p.pageIndex.toNat

structure Stepwise (p : Pagination) : Prop where
  offset : p.offsetByWords = p.offset
  totalPages : p.totalPagesByWords? = some p.totalPages
  hasNext : p.hasNextByWords = p.hasNext

theorem exact_of_one_le {p : Pagination} (hindex : 1 ≤ p.pageIndex) (hsize : 1 ≤ p.pageSize) :
    p.Exact where
  offset := p.toNat_offset
  totalPages := by
    have hiff := totalPages_le_iff hsize
    exact ⟨(hiff _).1 (Nat.le_refl _), fun n hn => (hiff n).2 hn⟩
  hasNext_pages := by rw [hasNext_iff hindex, ← Nat.not_le, ← Nat.not_le, totalPages_le_iff hsize]
  hasNext_rows := hasNext_iff hindex
  hasPrevious := p.hasPrevious_iff

theorem stepwise (p : Pagination) : p.Stepwise where
  offset := p.offsetByWords_eq
  totalPages := p.totalPagesByWords?_eq
  hasNext := p.hasNextByWords_eq

/-- A position that was filled in lies within its bounds and stays as it is when it is filled in
again, and its arithmetic is exact. -/
theorem normalized_exact (p : Pagination) (defaultSize : UInt64) (maxSize : Option UInt64) :
    let q := p.normalized defaultSize maxSize
    1 ≤ q.pageIndex ∧ 1 ≤ q.pageSize ∧ (∀ m, maxSize = some m → q.pageSize ≤ max m 1) ∧
      q.total = p.total ∧ q.normalized defaultSize maxSize = q ∧ q.Exact ∧ q.Stepwise := by
  have hindex := p.one_le_normalized_pageIndex defaultSize maxSize
  have hsize := p.one_le_normalized_pageSize defaultSize maxSize
  have hmax : ∀ m, maxSize = some m → (p.normalized defaultSize maxSize).pageSize ≤ max m 1 := by
    rintro m rfl
    exact p.normalized_pageSize_le defaultSize m
  exact ⟨hindex, hsize, hmax, rfl, normalized_eq_self_iff.2 ⟨hindex, hsize, hmax⟩,
    exact_of_one_le hindex hsize, stepwise _⟩

def farthest : Pagination := ⟨18446744073709551615, 0, 18446744073709551615⟩

theorem normalized_exact_farthest :
    let q := farthest.normalized 4294967296 (some 4294967295)
    q.pageSize ≤ max 4294967295 1 ∧ q.offset.toNat = 2 ^ 64 - 1 ∧
      IsLeast {n | 2 ^ 64 - 1 ≤ n * 4294967295} 4294967297 ∧ q.hasNext = false := by
  obtain ⟨-, -, hmax, -, -, hexact, -⟩ := normalized_exact farthest 4294967296 (some 4294967295)
  refine ⟨hmax _ rfl, hexact.offset.trans (by decide), hexact.totalPages, ?_⟩
  have hpages := hexact.hasNext_pages
  exact Bool.eq_false_iff.2 (mt hpages.1 (by decide))

end Pagination

end Recordkeeper
