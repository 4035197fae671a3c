import Recordkeeper.Proofs.Calendar

/-!
The order of instants against that of their texts. Written times of years with four digits compare
as the instants do, unless one of the two is the other with digits of its fraction cut off: the mark
that ends a text stands behind every digit, so that the shorter fraction counts as the later one.
-/

set_option autoImplicit false

namespace Recordkeeper

namespace Text

theorem compare_cons (c d : Char) (s t : List Char) :
    compare (String.ofList (c :: s)) (String.ofList (d :: t)) =
      (compare c d).then (compare (String.ofList s) (String.ofList t)) := by
  have hlt (s t : List Char) : String.ofList s < String.ofList t ↔ s < t := by
    show (String.ofList s).toList < (String.ofList t).toList ↔ s < t
    rw [String.toList_ofList, String.toList_ofList]
  show compareOfLessAndEq _ _ = (compareOfLessAndEq c d).then (compareOfLessAndEq _ _)
  simp only [compareOfLessAndEq, hlt, String.ofList_inj, List.cons_lt_cons_iff, List.cons.injEq]
  by_cases hcd : c < d
  · simp [hcd]
  · by_cases heq : c = d
    · subst heq
      simp only [Char.lt_irrefl c, true_and, false_or, if_false, if_true]
      rfl
    · simp [hcd, heq]

theorem digitsValue_cons (c : Char) (ds : List Char) :
    digitsValue (c :: ds) = (c.toNat - 48) * 10 ^ ds.length + digitsValue ds := by
  have hfrom (n : Nat) :
      ds.foldl (fun n c => 10 * n + (c.toNat - 48)) n = n * 10 ^ ds.length + digitsValue ds := by
    induction ds generalizing n with
    | nil => simp [digitsValue]
    | cons d ds ih =>
      rw [digitsValue, List.foldl_cons, List.foldl_cons, ih, ih (10 * 0 + _), List.length_cons]
      grind
  rw [digitsValue, List.foldl_cons, hfrom, Nat.mul_zero, Nat.zero_add]

theorem digit_bounds {c : Char} (h : c.isDigit = true) : 48 ≤ c.toNat ∧ c.toNat ≤ 57 := by
  simp only [Char.isDigit, Bool.and_eq_true, decide_eq_true_eq, ge_iff_le,
    UInt32.le_iff_toNat_le] at h
  exact h

theorem digitsValue_append (ds es : List Char) :
    digitsValue (ds ++ es) = digitsValue ds * 10 ^ es.length + digitsValue es := by
  induction ds with
  | nil => simp [digitsValue]
  | cons c ds ih =>
    rw [List.cons_append, digitsValue_cons, ih, digitsValue_cons, List.length_append, Nat.pow_add]
    grind

theorem digitsValue_lt {ds : List Char} (h : ∀ c ∈ ds, c.isDigit = true) :
    digitsValue ds < 10 ^ ds.length := by
  induction ds with
  | nil => decide
  | cons c ds ih =>
    obtain ⟨hc, hds⟩ := List.forall_mem_cons.1 h
    have hdigit := digit_bounds hc
    have hrest := ih hds
    have hle : (c.toNat - 48) * 10 ^ ds.length ≤ 9 * 10 ^ ds.length :=
      Nat.mul_le_mul_right _ (by omega)
    rw [digitsValue_cons, List.length_cons, Nat.pow_succ]
    omega

theorem compare_mul_add {a b x y n : Nat} (hx : x < n) (hy : y < n) :
    compare (a * n + x) (b * n + y) = (compare a b).then (compare x y) := by
  rcases Nat.lt_trichotomy a b with h | rfl | h
  · have hle : (a + 1) * n ≤ b * n := Nat.mul_le_mul_right _ h
    rw [Nat.add_mul] at hle
    rw [Nat.compare_eq_lt.2 h, Nat.compare_eq_lt.2 (by omega)]
    rfl
  · rw [Nat.compare_eq_eq.2 rfl]
    rcases Nat.lt_trichotomy x y with h | rfl | h
    · rw [Nat.compare_eq_lt.2 h, Nat.compare_eq_lt.2 (by omega)]
      rfl
    · rw [Nat.compare_eq_eq.2 rfl, Nat.compare_eq_eq.2 rfl]
      rfl
    · rw [Nat.compare_eq_gt.2 h, Nat.compare_eq_gt.2 (by omega)]
      rfl
  · have hle : (b + 1) * n ≤ a * n := Nat.mul_le_mul_right _ h
    rw [Nat.add_mul] at hle
    rw [Nat.compare_eq_gt.2 h, Nat.compare_eq_gt.2 (by omega)]
    rfl

theorem compare_digit {c d : Char} (hc : c.isDigit = true) (hd : d.isDigit = true) :
    compare c d = compare (c.toNat - 48) (d.toNat - 48) := by
  have hlow := digit_bounds hc
  have hlow' := digit_bounds hd
  have hlt : c < d ↔ c.toNat - 48 < d.toNat - 48 := by
    rw [Char.lt_def, UInt32.lt_iff_toNat_lt]
    show c.toNat < d.toNat ↔ _
    omega
  have heq : c = d ↔ c.toNat - 48 = d.toNat - 48 := by
    rw [← Char.toNat_inj]
    omega
  show compareOfLessAndEq c d = compareOfLessAndEq _ _
  simp only [compareOfLessAndEq, hlt, heq]

theorem compare_digits {ds es : List Char} (hlen : ds.length = es.length)
    (hds : ∀ c ∈ ds, c.isDigit = true) (hes : ∀ c ∈ es, c.isDigit = true) (s t : List Char) :
    compare (String.ofList (ds ++ s)) (String.ofList (es ++ t)) =
      (compare (digitsValue ds) (digitsValue es)).then
        (compare (String.ofList s) (String.ofList t)) := by
  induction ds generalizing es with
  | nil =>
    obtain rfl := List.length_eq_zero_iff.1 hlen.symm
    rfl
  | cons c ds ih =>
    cases es with
    | nil => cases hlen
    | cons d es =>
      obtain ⟨hc, hds⟩ := List.forall_mem_cons.1 hds
      obtain ⟨hd, hes⟩ := List.forall_mem_cons.1 hes
      have hlen : ds.length = es.length := Nat.succ.inj hlen
      have hvalue : compare (digitsValue (c :: ds)) (digitsValue (d :: es)) =
          (compare c d).then (compare (digitsValue ds) (digitsValue es)) := by
        rw [digitsValue_cons, digitsValue_cons, hlen, compare_digit hc hd]
        exact compare_mul_add (hlen ▸ digitsValue_lt hds) (digitsValue_lt hes)
      rw [List.cons_append, List.cons_append, compare_cons, ih hlen hds hes, hvalue,
        Ordering.then_assoc]

end Text

namespace Timestamp

open Text

def order (t u : Timestamp) : Ordering :=
  (compare t.date.year u.date.year).then <| (compare t.date.month u.date.month).then <|
    (compare t.date.day u.date.day).then <| (compare t.hour u.hour).then <|
      (compare t.minute u.minute).then <| (compare t.second u.second).then <|
        compare t.nano u.nano

def places (nano : Nat) : Nat :=
  if nano = 0 then 0
  else if nano % 1000000 = 0 then 3
  else if nano % 1000 = 0 then 6
  else 9

/-- A fraction without the digits behind so many places. -/
def cut (places nano : Nat) : Nat := nano / 10 ^ (9 - places) * 10 ^ (9 - places)

/-- An instant is another one with written digits of its fraction cut off. -/
structure CutOf (t u : Timestamp) : Prop where
  date : t.date = u.date
  time : t.hour = u.hour ∧ t.minute = u.minute ∧ t.second = u.second
  differ : t.nano ≠ u.nano
  nano : t.nano = cut (places t.nano) u.nano

theorem compare_padded {w m n : Nat} (hw : 0 < w) (hm : m < 10 ^ w) (hn : n < 10 ^ w)
    (s t : List Char) :
    compare (String.ofList (padded w m ++ s)) (String.ofList (padded w n ++ t)) =
      (compare m n).then (compare (String.ofList s) (String.ofList t)) := by
  have hlen : (padded w m).length = (padded w n).length := by
    rw [length_padded hw hm, length_padded hw hn]
  rw [compare_digits hlen (fun _ => isDigit_of_mem_padded) fun _ => isDigit_of_mem_padded,
    digitsValue_padded, digitsValue_padded]

theorem compare_padded_short {w v m n : Nat} (hw : 0 < w) (hv : 0 < v) (hm : m < 10 ^ w)
    (hn : n < 10 ^ (w + v)) (s t : List Char) :
    compare (String.ofList (padded w m ++ 'Z' :: s)) (String.ofList (padded (w + v) n ++ t)) =
      (compare m (n / 10 ^ v)).then .gt := by
  have hlen := length_padded (by omega) hn
  have hdigit (c : Char) (hc : c ∈ padded (w + v) n) : c.isDigit = true := isDigit_of_mem_padded hc
  have hvalue := digitsValue_padded (w + v) n
  generalize padded (w + v) n = long at hlen hdigit hvalue
  obtain ⟨ds, es, rfl, hds⟩ : ∃ ds es, long = ds ++ es ∧ ds.length = w :=
    ⟨long.take w, long.drop w, (List.take_append_drop w long).symm, by simp [hlen]⟩
  have hes : es.length = v := by
    rw [List.length_append] at hlen
    omega
  have hleading : digitsValue ds = n / 10 ^ v := by
    rw [digitsValue_append, hes] at hvalue
    have hlt := digitsValue_lt fun c hc => hdigit c (List.mem_append_right ds hc)
    rw [hes] at hlt
    rw [← hvalue, Nat.add_comm, Nat.add_mul_div_right _ _ (Nat.pow_pos (by decide)),
      Nat.div_eq_of_lt hlt, Nat.zero_add]
  have hmark : compare (String.ofList ('Z' :: s)) (String.ofList (es ++ t)) = .gt := by
    cases es with
    | nil => exact absurd hes (Nat.ne_of_lt hv)
    | cons c es =>
      have hc := digit_bounds (hdigit c (List.mem_append_right ds List.mem_cons_self))
      have hlater : compare 'Z' c = .gt := by
        have hlt : ¬ 'Z' < c := by
          rw [Char.lt_def, UInt32.lt_iff_toNat_lt]
          show ¬ 90 < c.toNat
          omega
        have hne : 'Z' ≠ c := fun h => by
          rw [← h] at hc
          exact absurd hc (by decide)
        show compareOfLessAndEq 'Z' c = .gt
        simp [compareOfLessAndEq, hlt, hne]
      rw [List.cons_append, compare_cons, hlater]
      rfl
  rw [List.append_assoc, compare_digits (by rw [hds, length_padded hw hm])
    (fun _ => isDigit_of_mem_padded) fun c hc => hdigit c (List.mem_append_left es hc),
    digitsValue_padded, hleading, hmark]

theorem writeFraction_eq {nano : Nat} (h : nano ≠ 0) : writeFraction nano =
    '.' :: padded (places nano) (nano / 10 ^ (9 - places nano)) := by
  unfold writeFraction places
  split
  · next h0 => exact absurd h0 h
  · split
    · rfl
    · split
      · rfl
      · simp

theorem places_cases (nano : Nat) :
    (places nano = 0 ∧ nano = 0) ∨ (places nano = 3 ∧ nano % 1000000 = 0 ∧ nano ≠ 0) ∨
      (places nano = 6 ∧ nano % 1000 = 0 ∧ nano % 1000000 ≠ 0) ∨
        (places nano = 9 ∧ nano % 1000 ≠ 0) := by
  unfold places
  split
  · next h => exact .inl ⟨rfl, h⟩
  · next h =>
    split
    · next h3 => exact .inr (.inl ⟨rfl, h3, h⟩)
    · next h3 =>
      split
      · next h6 => exact .inr (.inr (.inl ⟨rfl, h6, h3⟩))
      · next h6 => exact .inr (.inr (.inr ⟨rfl, h6⟩))

section

variable {m n : Nat}

theorem places_le (n : Nat) : places n ≤ 9 := by have := places_cases n; omega

theorem places_eq_zero : places n = 0 ↔ n = 0 := by have := places_cases n; omega

theorem places_pos (h : n ≠ 0) : 0 < places n := Nat.pos_of_ne_zero (mt places_eq_zero.1 h)

theorem cut_places (n : Nat) : cut (places n) n = n := by
  unfold cut
  rcases places_cases n with ⟨hp, h⟩ | ⟨hp, h, -⟩ | ⟨hp, h, -⟩ | ⟨hp, -⟩ <;> rw [hp] <;> omega

theorem cut_of_places_le {p : Nat} (h : places n ≤ p) : cut p n = n := by
  have hwritten : 10 ^ (9 - places n) ∣ n :=
    ⟨n / 10 ^ (9 - places n), by rw [Nat.mul_comm]; exact (cut_places n).symm⟩
  have hle : 9 - p ≤ 9 - places n := by omega
  exact Nat.div_mul_cancel (Nat.dvd_trans (Nat.pow_dvd_pow 10 hle) hwritten)

theorem compare_leading (p : Nat) :
    compare (m / 10 ^ (9 - p)) (n / 10 ^ (9 - p)) = compare (cut p m) (cut p n) := by
  have hpos : 0 < 10 ^ (9 - p) := Nat.pow_pos (by decide)
  have h := compare_mul_add (a := m / 10 ^ (9 - p)) (b := n / 10 ^ (9 - p)) hpos hpos
  rw [Nat.compare_eq_eq.2 rfl, Ordering.then_eq] at h
  exact h.symm

theorem leading_lt (hn : n < 1000000000) {p : Nat} (hp : p ≤ 9) : n / 10 ^ (9 - p) < 10 ^ p := by
  refine Nat.div_lt_of_lt_mul ?_
  rwa [← Nat.pow_add, Nat.sub_add_cancel hp]

theorem compare_fraction_same (hm : m < 1000000000) (hn : n < 1000000000)
    (h : places m = places n) :
    compare (String.ofList (writeFraction m ++ ['Z'])) (String.ofList (writeFraction n ++ ['Z'])) =
      compare m n := by
  have hzero : m = 0 ↔ n = 0 := by rw [← places_eq_zero, h, places_eq_zero]
  by_cases hm0 : m = 0
  · obtain rfl := hzero.1 hm0
    rw [hm0]
    rfl
  · have hn0 : n ≠ 0 := mt hzero.2 hm0
    rw [writeFraction_eq hm0, writeFraction_eq hn0, List.cons_append, List.cons_append,
      compare_cons, h, compare_padded (places_pos hn0) (leading_lt hm (places_le n))
        (leading_lt hn (places_le n)), compare_leading, cut_places n, ← h, cut_places m]
    simp

theorem compare_fraction_short (hm : m < 1000000000) (hn : n < 1000000000)
    (h : places m < places n) :
    compare (String.ofList (writeFraction m ++ ['Z'])) (String.ofList (writeFraction n ++ ['Z'])) =
      (compare m (cut (places m) n)).then .gt := by
  have hn0 : n ≠ 0 := mt places_eq_zero.2 (Nat.ne_of_gt (Nat.zero_lt_of_lt h))
  by_cases hm0 : m = 0
  · subst hm0
    have hcut : cut (places 0) n = 0 := by
      show n / 10 ^ 9 * 10 ^ 9 = 0
      omega
    rw [hcut, writeFraction_eq hn0]
    exact compare_cons 'Z' '.' _ _
  · obtain ⟨v, hvpos, hv⟩ : ∃ v, 0 < v ∧ places n = places m + v :=
      ⟨places n - places m, by omega, by omega⟩
    have hle := places_le n
    have hlong := leading_lt hn hle
    rw [hv] at hlong
    have hend := compare_padded_short (places_pos hm0) hvpos (leading_lt hm (places_le m)) hlong
      [] ['Z']
    have hplaces : 9 - places n + v = 9 - places m := by omega
    have hleading : n / 10 ^ (9 - places n) / 10 ^ v = n / 10 ^ (9 - places m) := by
      rw [Nat.div_div_eq_div_mul, ← Nat.pow_add, hplaces]
    rw [← hv, hleading, compare_leading, cut_places m] at hend
    have hpoint : compare '.' '.' = .eq := rfl
    rw [writeFraction_eq hm0, writeFraction_eq hn0, List.cons_append, List.cons_append,
      compare_cons, hpoint]
    exact hend

theorem compare_fraction_short_iff (hm : m < 1000000000) (hn : n < 1000000000)
    (h : places m < places n) :
    compare (String.ofList (writeFraction m ++ ['Z'])) (String.ofList (writeFraction n ++ ['Z'])) =
      compare m n ↔ m ≠ cut (places m) n := by
  rw [compare_fraction_short hm hn h]
  have hle : cut (places m) n ≤ n := Nat.div_mul_le_self ..
  rcases Nat.lt_trichotomy m (cut (places m) n) with hlt | heq | hgt
  · rw [Nat.compare_eq_lt.2 hlt, Nat.compare_eq_lt.2 (Nat.lt_of_lt_of_le hlt hle)]
    exact iff_of_true rfl (Nat.ne_of_lt hlt)
  · have hne : m ≠ n := fun h' => Nat.lt_irrefl _ (h' ▸ h)
    rw [← heq, Nat.compare_eq_eq.2 rfl, Nat.compare_eq_lt.2 (by omega)]
    exact iff_of_false nofun fun h' => h' rfl
  · have hlater : n < m := by
      have hcut : cut (places m) n < cut (places m) m := by rwa [cut_places m]
      exact Nat.lt_of_div_lt_div (Nat.lt_of_mul_lt_mul_right hcut)
    rw [Nat.compare_eq_gt.2 hgt, Nat.compare_eq_gt.2 hlater]
    exact iff_of_true rfl (Nat.ne_of_gt hgt)

/-- Fractions compare as their texts unless one is the other with digits cut off. -/
theorem compare_fraction_iff (hm : m < 1000000000) (hn : n < 1000000000) :
    compare (String.ofList (writeFraction m ++ ['Z'])) (String.ofList (writeFraction n ++ ['Z'])) =
        compare m n ↔
      ¬ ((m ≠ n ∧ m = cut (places m) n) ∨ (n ≠ m ∧ n = cut (places n) m)) := by
  rcases Nat.lt_trichotomy (places m) (places n) with h | h | h
  · have hne : m ≠ n := fun h' => Nat.lt_irrefl _ (h' ▸ h)
    rw [compare_fraction_short_iff hm hn h, cut_of_places_le (Nat.le_of_lt h)]
    simp [hne, hne.symm]
  · refine iff_of_true (compare_fraction_same hm hn h) ?_
    rw [h, cut_places, ← h, cut_places]
    rintro (⟨hne, hcut⟩ | ⟨hne, hcut⟩) <;> exact hne hcut
  · have hne : n ≠ m := fun h' => Nat.lt_irrefl _ (h' ▸ h)
    rw [Std.OrientedOrd.eq_swap, Std.OrientedOrd.eq_swap (a := m), Ordering.swap_inj,
      compare_fraction_short_iff hn hm h, cut_of_places_le (Nat.le_of_lt h)]
    simp [hne, hne.symm]

end

def FourDigits (t : Timestamp) : Prop := 0 ≤ t.date.year ∧ t.date.year ≤ 9999

theorem month_lt (d : Date) : d.month < 10 ^ 2 := by have := d.inMonths; omega

theorem day_lt (d : Date) : d.day < 10 ^ 2 := by
  have hday := d.inDays
  have hmonth : daysInMonth d.year d.month ≤ 31 := by
    unfold daysInMonth
    split
    · split <;> omega
    · split <;> omega
  omega

theorem compare_text {t u : Timestamp} (ht : t.FourDigits) (hu : u.FourDigits) :
    compare t.text u.text =
      (compare t.date.year u.date.year).then ((compare t.date.month u.date.month).then
        ((compare t.date.day u.date.day).then ((compare t.hour u.hour).then
          ((compare t.minute u.minute).then ((compare t.second u.second).then
            (compare (String.ofList (writeFraction t.nano ++ ['Z']))
              (String.ofList (writeFraction u.nano ++ ['Z'])))))))) := by
  have hin := t.inDay
  have hin' := u.inDay
  obtain ⟨hlow, hhigh⟩ := ht
  obtain ⟨hlow', hhigh'⟩ := hu
  have hyear : compare t.date.year.toNat u.date.year.toNat = compare t.date.year u.date.year := by
    show compareOfLessAndEq _ _ = compareOfLessAndEq _ _
    have hlt : t.date.year.toNat < u.date.year.toNat ↔ t.date.year < u.date.year := by omega
    have heq : t.date.year.toNat = u.date.year.toNat ↔ t.date.year = u.date.year := by omega
    simp only [compareOfLessAndEq, hlt, heq]
  have hpart {w m n : Nat} (hw : 0 < w) (hm : m < 10 ^ w) (hn : n < 10 ^ w) (c : Char)
      (r s : List Char) :
      compare (String.ofList (padded w m ++ c :: r)) (String.ofList (padded w n ++ c :: s)) =
        (compare m n).then (compare (String.ofList r) (String.ofList s)) := by
    have hmark : compare c c = .eq := Std.LawfulEqCmp.compare_eq_iff_eq.2 rfl
    rw [compare_padded hw hm hn, compare_cons, hmark]
    rfl
  rw [text, text, write, write, writeYear, writeYear, if_pos ⟨hlow, hhigh⟩, if_pos ⟨hlow', hhigh'⟩,
    hpart (by decide) (by omega) (by omega), hyear,
    hpart (by decide) (month_lt t.date) (month_lt u.date),
    hpart (by decide) (day_lt t.date) (day_lt u.date),
    hpart (by decide) (by omega) (by omega), hpart (by decide) (by omega) (by omega),
    List.append_assoc, List.append_assoc, compare_padded (by decide) (by omega) (by omega)]

theorem then_eq_then_iff (o a b : Ordering) : o.then a = o.then b ↔ (o = .eq → a = b) := by
  cases o <;> simp

/-- Written times of years with four digits compare as the instants do, unless one is the other with
digits of its fraction cut off. -/
theorem compare_text_iff {t u : Timestamp} (ht : t.FourDigits) (hu : u.FourDigits) :
    compare t.text u.text = t.order u ↔ ¬ (t.CutOf u ∨ u.CutOf t) := by
  rw [compare_text ht hu, order]
  simp only [then_eq_then_iff, Std.LawfulEqCmp.compare_eq_iff_eq,
    compare_fraction_iff t.inSecond u.inSecond]
  constructor
  · rintro h (⟨hdate, ⟨hhour, hminute, hsecond⟩, hne, hcut⟩ |
      ⟨hdate, ⟨hhour, hminute, hsecond⟩, hne, hcut⟩)
    · exact h (by rw [hdate]) (by rw [hdate]) (by rw [hdate]) hhour hminute hsecond
        (.inl ⟨hne, hcut⟩)
    · exact h (by rw [hdate]) (by rw [hdate]) (by rw [hdate]) hhour.symm hminute.symm hsecond.symm
        (.inr ⟨hne, hcut⟩)
  · intro h hyear hmonth hday hhour hminute hsecond hcut
    have hdate : t.date = u.date := by
      obtain ⟨⟨year, month, day, _, _, _⟩, _⟩ := t
      obtain ⟨⟨year', month', day', _, _, _⟩, _⟩ := u
      simp_all
    rcases hcut with ⟨hne, hcut⟩ | ⟨hne, hcut⟩
    · exact h (.inl ⟨hdate, ⟨hhour, hminute, hsecond⟩, hne, hcut⟩)
    · exact h (.inr ⟨hdate.symm, ⟨hhour.symm, hminute.symm, hsecond.symm⟩, hne, hcut⟩)

end Timestamp

end Recordkeeper
