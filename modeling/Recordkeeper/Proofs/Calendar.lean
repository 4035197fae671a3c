import Mathlib.Algebra.Group.Nat.Defs
import Mathlib.Data.List.TakeWhile
import Recordkeeper.Calendar.Reader
import Recordkeeper.Proofs.Numeral

set_option autoImplicit false

namespace Recordkeeper.Timestamp

open Text

theorem isBlank_of_isDigit {c : Char} (h : c.isDigit = true) : isBlank c = false := by
  simp only [Char.isDigit, Bool.and_eq_true, decide_eq_true_eq, ge_iff_le,
    UInt32.le_iff_toNat_le] at h
  have hlow : 48 ≤ c.toNat := h.1
  have hhigh : c.toNat ≤ 57 := h.2
  simp only [isBlank, Bool.or_eq_false_iff, Bool.and_eq_false_iff, decide_eq_false_iff_not,
    beq_eq_false_iff_ne, ne_eq]
  omega

theorem trimStart_cons {c : Char} {s : List Char} (h : isBlank c = false) :
    trimStart (c :: s) = c :: s := by simp [trimStart, h]

theorem trimStart_digits {ds s : List Char} (hn : ds ≠ []) (hd : ∀ c ∈ ds, c.isDigit = true) :
    trimStart (ds ++ s) = ds ++ s := by
  cases ds with
  | nil => exact absurd rfl hn
  | cons c ds => exact trimStart_cons (isBlank_of_isDigit (hd c (by simp)))

theorem isDigit_of_mem_padded {w n : Nat} {c : Char} (h : c ∈ padded w n) : c.isDigit = true := by
  rcases List.mem_append.1 h with h | h
  · rw [List.eq_of_mem_replicate h]
    decide
  · exact isDigit_of_mem_numeral h

theorem padded_ne_nil (w n : Nat) : padded w n ≠ [] := by simp [padded, numeral_ne_nil]

theorem digitsValue_padded (w n : Nat) : digitsValue (padded w n) = n := by
  simp [padded, digitsValue_eq_ofDigitChars, Nat.ofDigitChars_append, numeral]

theorem length_padded {w n : Nat} (hw : 0 < w) (h : n < 10 ^ w) : (padded w n).length = w := by
  have hl : (numeral n).length ≤ w := (Nat.length_toDigits_le_iff (by decide) hw).2 h
  simp only [padded, List.length_append, List.length_replicate]
  omega

theorem digitsUpTo_append {w : Nat} {ds : List Char} (s : List Char) (hw : ds.length = w)
    (hn : ds ≠ []) (hd : ∀ c ∈ ds, c.isDigit = true) :
    digitsUpTo w (ds ++ s) = some (digitsValue ds, s) := by
  subst hw
  have ht : ds.takeWhile Char.isDigit = ds := List.takeWhile_eq_self_iff.2 hd
  simp [digitsUpTo, trimStart_digits hn hd, ht, hn]

theorem digitsUpTo_padded {w n : Nat} (s : List Char) (hw : 0 < w) (h : n < 10 ^ w) :
    digitsUpTo w (padded w n ++ s) = some (n, s) := by
  rw [digitsUpTo_append s (length_padded hw h) (padded_ne_nil w n)
    (fun _ => isDigit_of_mem_padded), digitsValue_padded]

theorem digitRun_padded (w n : Nat) {s : List Char} (hs : NoDigitFirst s) :
    digitRun (padded w n ++ s) = some (n, s) := by
  have h := spanDigits_append (fun _ => isDigit_of_mem_padded (w := w) (n := n)) hs
  simp [digitRun, h, padded_ne_nil, digitsValue_padded]

theorem readYear_writeYear (year : Int) (s : List Char) :
    readYear (writeYear year ++ '-' :: s) = some (year, '-' :: s) := by
  have hs : NoDigitFirst ('-' :: s) := noDigitFirst_cons.2 (by decide)
  unfold writeYear
  split
  · next h =>
    have hy : year.toNat < 10 ^ 4 := by omega
    have ht := trimStart_digits (s := '-' :: s) (padded_ne_nil 4 year.toNat)
      (fun _ => isDigit_of_mem_padded)
    have hd := digitsUpTo_padded ('-' :: s) (by decide) hy
    unfold readYear
    rw [ht]
    split
    · next hc =>
      have hm : '-' ∈ padded 4 year.toNat := by
        cases hp : padded 4 year.toNat with
        | nil => exact absurd hp (padded_ne_nil _ _)
        | cons c r => simp_all
      exact absurd (isDigit_of_mem_padded hm) (by decide)
    · next hc =>
      have hm : '+' ∈ padded 4 year.toNat := by
        cases hp : padded 4 year.toNat with
        | nil => exact absurd hp (padded_ne_nil _ _)
        | cons c r => simp_all
      exact absurd (isDigit_of_mem_padded hm) (by decide)
    · rw [hd]
      simp
      omega
  · next h =>
    have hd := digitRun_padded 4 year.natAbs hs
    split
    · rw [List.cons_append, readYear, trimStart_cons (by decide)]
      simp only [hd, Option.map_some, Option.some.injEq, Prod.mk.injEq, and_true]
      omega
    · rw [List.cons_append, readYear, trimStart_cons (by decide)]
      simp only [hd, Option.map_some, Option.some.injEq, Prod.mk.injEq, and_true]
      omega

theorem mark_cons {c : Char} (s : List Char) (h : isBlank c = false) :
    mark c (c :: s) = some s := by simp [mark, trimStart_cons h]

theorem readFraction_padded {w n : Nat} (s : List Char) (hw : 0 < w) (hw9 : w ≤ 9)
    (h : n < 10 ^ w) (hs : NoDigitFirst s) :
    readFraction ('.' :: (padded w n ++ s)) = some (n * 10 ^ (9 - w), s) := by
  have hd := spanDigits_append (fun _ => isDigit_of_mem_padded (w := w) (n := n)) hs
  have hl := length_padded hw h
  have ht : (padded w n).take 9 = padded w n := List.take_of_length_le (by omega)
  simp [readFraction, hd, ht, hl, padded_ne_nil, digitsValue_padded]

theorem readFraction_writeFraction {nano : Nat} (h : nano < 1000000000) :
    readFraction (writeFraction nano ++ ['Z']) = some (nano, ['Z']) := by
  have hs : NoDigitFirst ['Z'] := noDigitFirst_cons.2 (by decide)
  unfold writeFraction
  split
  · next h0 => simp [h0, readFraction]
  · split
    · next h3 =>
      rw [List.cons_append, readFraction_padded _ (by decide) (by decide) (by omega) hs]
      simp
      omega
    · split
      · next h6 =>
        rw [List.cons_append, readFraction_padded _ (by decide) (by decide) (by omega) hs]
        simp
        omega
      · rw [List.cons_append, readFraction_padded _ (by decide) (by decide) (by omega) hs]
        simp

theorem ofLocal?_zero (t : Timestamp) :
    ofLocal? t.date t.hour t.minute t.second t.nano 0 = some t := by
  obtain ⟨date, hour, minute, second, nano, hd, hn⟩ := t
  have hlow : ¬ ((hour * 60 + minute : Nat) : Int) - 0 < 0 := by omega
  have hhigh : ¬ 1440 ≤ ((hour * 60 + minute : Nat) : Int) - 0 := by omega
  have hday : ((((hour * 60 + minute : Nat) : Int) - 0) % 1440).toNat = hour * 60 + minute := by
    omega
  have hh : (hour * 60 + minute) / 60 = hour := by omega
  have hm : (hour * 60 + minute) % 60 = minute := by omega
  simp only [ofLocal?, hlow, hhigh, hday, hh, hm, if_false, Option.bind_eq_bind, Option.bind_some]
  simp [of?, hd, hn]

theorem date_of?_self (d : Date) : Date.of? d.year d.month d.day = some d := by
  simp [Date.of?, d.inYears, d.inMonths, d.inDays]

theorem read_write (t : Timestamp) : read? t.write = some t := by
  have hmonth : t.date.month < 10 ^ 2 := by have := t.date.inMonths; omega
  have hday : t.date.day < 10 ^ 2 := by
    have hd := t.date.inDays
    have hm : daysInMonth t.date.year t.date.month ≤ 31 := by
      unfold daysInMonth
      split
      · split <;> omega
      · split <;> omega
    omega
  have hin := t.inDay
  have hoffset : readOffset (trimStart ['Z']) = some (0, []) := by decide
  have hlate : ¬ (24 ≤ t.hour ∨ 60 ≤ t.minute ∨ 60 < t.second) := by omega
  unfold read? write
  rw [List.append_assoc (padded 2 t.second)]
  refine Option.bind_eq_some_iff.2 ⟨_, readYear_writeYear _ _, ?_⟩
  refine Option.bind_eq_some_iff.2 ⟨_, mark_cons _ (by decide), ?_⟩
  refine Option.bind_eq_some_iff.2 ⟨_, digitsUpTo_padded _ (by decide) hmonth, ?_⟩
  refine Option.bind_eq_some_iff.2 ⟨_, mark_cons _ (by decide), ?_⟩
  refine Option.bind_eq_some_iff.2 ⟨_, digitsUpTo_padded _ (by decide) hday, ?_⟩
  refine Option.bind_eq_some_iff.2 ⟨_, digitsUpTo_padded _ (by decide) (by omega), ?_⟩
  refine Option.bind_eq_some_iff.2 ⟨_, mark_cons _ (by decide), ?_⟩
  refine Option.bind_eq_some_iff.2 ⟨_, digitsUpTo_padded _ (by decide) (by omega), ?_⟩
  refine Option.bind_eq_some_iff.2 ⟨_, mark_cons _ (by decide), ?_⟩
  refine Option.bind_eq_some_iff.2 ⟨_, digitsUpTo_padded _ (by decide) (by omega), ?_⟩
  refine Option.bind_eq_some_iff.2 ⟨_, readFraction_writeFraction t.inSecond, ?_⟩
  refine Option.bind_eq_some_iff.2 ⟨_, hoffset, ?_⟩
  refine (if_neg (by decide)).trans ((if_neg hlate).trans ?_)
  exact Option.bind_eq_some_iff.2 ⟨_, date_of?_self t.date, ofLocal?_zero t⟩

end Recordkeeper.Timestamp
