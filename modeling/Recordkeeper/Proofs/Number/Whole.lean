import Recordkeeper.Proofs.Number.Width
import Recordkeeper.Store.Matching

/-!
Columns of whole numbers. A filter value that is a whole number of either width, or a text that
spells one, has its place in the order of the integers; every other value is refused. The text is
tried as a signed word, then as an unsigned one, then as a decimal, and two numbers are compared at
their widths: no stage of either kind answers anything but the integers would.
-/

set_option autoImplicit false

namespace Recordkeeper

namespace Text

variable {s ds : List Char} {n : Int}

def Digits (ds : List Char) : Prop := ds ≠ [] ∧ ∀ c ∈ ds, c.isDigit = true

theorem Digits.head_ne {c : Char} (h : Digits ds) (hc : c.isDigit = false) :
    ds.head? ≠ some c := fun hhead => by
  rw [h.2 c (List.mem_of_mem_head? hhead)] at hc
  cases hc

inductive Denotes : List Char → Int → Prop where
  | bare {ds : List Char} : Digits ds → Denotes ds (digitsValue ds)
  | plus {ds : List Char} : Digits ds → Denotes ('+' :: ds) (digitsValue ds)
  | minus {ds : List Char} : Digits ds → Denotes ('-' :: ds) (-digitsValue ds)

theorem natural?_eq_some {k : Nat} : natural? ds = some k ↔ Digits ds ∧ digitsValue ds = k := by
  simp [natural?, Digits]

theorem natural?_of_digits (h : Digits ds) : natural? ds = some (digitsValue ds) :=
  natural?_eq_some.2 ⟨h, rfl⟩

theorem integer?_of_digits (h : Digits ds) : integer? ds = some (digitsValue ds : Int) := by
  unfold integer?
  split
  · next ds => cases h.2 '+' List.mem_cons_self
  · next ds => cases h.2 '-' List.mem_cons_self
  · rw [natural?_of_digits h]
    rfl

theorem integer?_plus : integer? ('+' :: ds) = (natural? ds).map Int.ofNat := rfl

theorem integer?_minus : integer? ('-' :: ds) = (natural? ds).map fun k : Nat => -(k : Int) := by
  simp only [integer?]
  cases natural? ds <;> rfl

theorem denotes_of_natural? (mark : List Char → List Char) {value : Nat → Int}
    (hmark : ∀ {ds}, Digits ds → Denotes (mark ds) (value (digitsValue ds)))
    (h : (natural? ds).map value = some n) : Denotes (mark ds) n := by
  obtain ⟨k, hk, rfl⟩ := Option.map_eq_some_iff.1 h
  obtain ⟨hds, rfl⟩ := natural?_eq_some.1 hk
  exact hmark hds

theorem integer?_eq_some : integer? s = some n ↔ Denotes s n := by
  constructor
  · intro h
    by_cases hplus : ∃ ds, s = '+' :: ds
    · obtain ⟨ds, rfl⟩ := hplus
      exact denotes_of_natural? _ Denotes.plus h
    by_cases hminus : ∃ ds, s = '-' :: ds
    · obtain ⟨ds, rfl⟩ := hminus
      exact denotes_of_natural? _ Denotes.minus (integer?_minus ▸ h)
    have hbare : integer? s = (natural? s).map Int.ofNat := integer?.eq_3 s
      (fun ds hs => hplus ⟨ds, hs⟩) fun ds hs => hminus ⟨ds, hs⟩
    exact denotes_of_natural? id Denotes.bare (hbare ▸ h)
  · rintro (⟨hds⟩ | ⟨hds⟩ | ⟨hds⟩)
    · exact integer?_of_digits hds
    · simp [integer?_plus, natural?_of_digits hds]
    · simp [integer?_minus, natural?_of_digits hds]

theorem Denotes.nonpos (h : Denotes s n) (hs : s.head? = some '-') : n ≤ 0 := by
  rcases h with ⟨hds⟩ | ⟨hds⟩ | ⟨hds⟩
  · exact absurd hs (hds.head_ne rfl)
  · cases hs
  · omega

def unmarked : List Char → List Char
  | '+' :: ds => ds
  | ds => ds

theorem unmarked_of_ne (h : s.head? ≠ some '+') : unmarked s = s :=
  unmarked.eq_2 s fun _ hs => h (by rw [hs]; rfl)

theorem natural?_unmarked {k : Nat} :
    natural? (unmarked s) = some k ↔ Denotes s k ∧ s.head? ≠ some '-' := by
  constructor
  · intro h
    obtain ⟨hds, rfl⟩ := natural?_eq_some.1 h
    by_cases hplus : ∃ ds, s = '+' :: ds
    · obtain ⟨ds, rfl⟩ := hplus
      exact ⟨.plus hds, by simp⟩
    · have hs : unmarked s = s := unmarked.eq_2 s fun ds hs => hplus ⟨ds, hs⟩
      rw [hs] at hds ⊢
      exact ⟨.bare hds, hds.head_ne rfl⟩
  · rintro ⟨h, hminus⟩
    generalize hn : (k : Int) = n at h
    rcases h with ⟨hds⟩ | ⟨hds⟩ | ⟨hds⟩
    · rw [unmarked_of_ne (hds.head_ne rfl), natural?_of_digits hds, Int.ofNat_inj.1 hn]
    · exact (natural?_of_digits hds).trans (congrArg some (Int.ofNat_inj.1 hn).symm)
    · exact absurd rfl hminus

end Text

namespace Number

variable {s : List Char} {n : Int}

def signed? (s : List Char) : Option Int := do
  let n ← Text.integer? s
  if -9223372036854775808 ≤ n ∧ n < 9223372036854775808 then some n else none

def unsigned? (s : List Char) : Option Nat := do
  let n ← Text.natural? (Text.unmarked s)
  if n < UInt64.size then some n else none

def ofTextByWidth? (s : List Char) : Option Number :=
  match signed? s with
  | some n => some (.int n)
  | none =>
    match unsigned? s with
    | some n => some (.int n)
    | none => (decimal? s).map .real

theorem signed?_eq_some :
    signed? s = some n ↔ Text.Denotes s n ∧ -9223372036854775808 ≤ n ∧ n < 9223372036854775808 := by
  simp only [signed?, Option.bind_eq_bind, Option.bind_eq_some_iff, Text.integer?_eq_some,
    Option.ite_none_right_eq_some, Option.some.injEq]
  constructor
  · rintro ⟨m, hm, hrange, rfl⟩
    exact ⟨hm, hrange⟩
  · rintro ⟨hn, hrange⟩
    exact ⟨n, hn, hrange, rfl⟩

theorem unsigned?_eq_some {k : Nat} :
    unsigned? s = some k ↔ (Text.Denotes s k ∧ s.head? ≠ some '-') ∧ k < UInt64.size := by
  simp only [unsigned?, Option.bind_eq_bind, Option.bind_eq_some_iff, Text.natural?_unmarked,
    Option.ite_none_right_eq_some, Option.some.injEq]
  constructor
  · rintro ⟨m, hm, hrange, rfl⟩
    exact ⟨hm, hrange⟩
  · rintro ⟨hn, hrange⟩
    exact ⟨k, hn, hrange, rfl⟩

theorem ofText?_of_denotes (h : Text.Denotes s n) (hn : fits n = true) :
    ofText? s = some (.int n) := by
  simp [ofText?, Text.integer?_eq_some.2 h, hn]

theorem ofText?_of_not_denotes (h : ∀ n, Text.Denotes s n → fits n = false) :
    ofText? s = (decimal? s).map .real := by
  unfold ofText?
  split
  · next n hn => simp [h n (Text.integer?_eq_some.1 hn)]
  · rfl

theorem fits_of_ofText? {b : Number} (h : ofText? s = some b) : b.Fits := by
  rintro n rfl
  unfold ofText? at h
  split at h
  · split at h
    · next hn => exact Number.int.inj (Option.some.inj h) ▸ hn
    · obtain ⟨x, -, hx⟩ := Option.map_eq_some_iff.1 h
      cases hx
  · obtain ⟨x, -, hx⟩ := Option.map_eq_some_iff.1 h
    cases hx

/-- The stages read the numerals that fit as what they denote, and leave all others to the
decimals. -/
theorem ofTextByWidth?_eq (s : List Char) : ofTextByWidth? s = ofText? s := by
  unfold ofTextByWidth?
  split
  · next n hn =>
    obtain ⟨hn, hlow, hhigh⟩ := signed?_eq_some.1 hn
    exact (ofText?_of_denotes hn (fits_iff.2 ⟨hlow, by omega⟩)).symm
  · next hsigned =>
    split
    · next k hk =>
      obtain ⟨⟨hk, -⟩, hhigh⟩ := unsigned?_eq_some.1 hk
      simp only [UInt64.size] at hhigh
      have hfits : fits k = true := fits_iff.2 ⟨by omega, by omega⟩
      exact (ofText?_of_denotes hk hfits).symm
    · next hunsigned =>
      refine (ofText?_of_not_denotes fun n hn => Bool.eq_false_iff.2 fun hfits => ?_).symm
      obtain ⟨hlow, hhigh⟩ := fits_iff.1 hfits
      have hlarge : 9223372036854775808 ≤ n := Int.not_lt.1 fun hsmall => by
        have := signed?_eq_some.2 ⟨hn, hlow, hsmall⟩
        rw [hsigned] at this
        cases this
      obtain ⟨k, rfl⟩ := Int.eq_ofNat_of_zero_le (show 0 ≤ n by omega)
      have hminus : s.head? ≠ some '-' := fun hs => by
        have := hn.nonpos hs
        omega
      have := unsigned?_eq_some.2 ⟨⟨hn, hminus⟩, by simp only [UInt64.size]; omega⟩
      rw [hunsigned] at this
      cases this

end Number

namespace Json

def Representable (v : Json) : Prop := ∀ n, v = .num n → n.Fits

theorem representable_str (s : String) : (Json.str s).Representable := fun _ h => by cases h

/-- The whole number a value stands for: itself, or what its text spells between blanks. -/
inductive Denotes : Json → Int → Prop where
  | number {n : Int} : Number.fits n = true → Denotes (.num (.int n)) n
  | text {s : String} {n : Int} :
    Text.Denotes (Text.trim s.toList) n → Number.fits n = true → Denotes (.str s) n

end Json

namespace Matching

variable {c n : Int} {v : Json}

/-- The stages of `numberFor`, with a text read width by width. -/
def numberByWidth (column : Number) (value : Json) : Except String Number :=
  let number := match value with
    | .num n => some n
    | .str s => Number.ofTextByWidth? (Text.trim s.toList)
    | _ => none
  match number with
  | none => .error (invalidNumber column value)
  | some n =>
    if column.isInt && !n.isInt then .error (invalidNumber column value) else .ok n

def orderByWidth? (column : Number) (value : Json) : Except String (Option Ordering) := do
  let b ← numberByWidth column value
  return column.orderByWidth? b

theorem numberByWidth_eq (column : Number) (value : Json) :
    numberByWidth column value = numberFor column value := by
  simp only [numberByWidth, Number.ofTextByWidth?_eq]
  rfl

theorem numberFor_of_denotes (h : v.Denotes n) : numberFor (.int c) v = .ok (.int n) := by
  cases h with
  | number => rfl
  | text hs hn => simp [numberFor, Number.ofText?_of_denotes hs hn, Number.isInt]

theorem not_isInt_of_decimal {s : List Char} {b : Number}
    (h : (Number.decimal? s).map .real = some b) : b.isInt = false := by
  obtain ⟨x, -, rfl⟩ := Option.map_eq_some_iff.1 h
  rfl

theorem numberFor_of_not_denotes (hv : v.Representable) (h : ∀ n, ¬ v.Denotes n) :
    numberFor (.int c) v = .error (invalidNumber (.int c) v) := by
  cases v with
  | num b =>
    cases b with
    | int n => exact absurd (.number (hv _ rfl n rfl)) (h n)
    | real x => rfl
  | str s =>
    have hreal : Number.ofText? (Text.trim s.toList) =
        (Number.decimal? (Text.trim s.toList)).map .real :=
      Number.ofText?_of_not_denotes fun n hs => Bool.eq_false_iff.2 fun hn => h n (.text hs hn)
    simp only [numberFor, hreal]
    split
    · rfl
    · next b hb => rw [not_isInt_of_decimal hb]; rfl
  | null => rfl
  | bool b => rfl
  | arr vs => rfl
  | obj fs => rfl

theorem order?_of_denotes (h : v.Denotes n) :
    order? (.num (.int c)) v = .ok (some (compare c n)) := by
  simp only [order?, numberFor_of_denotes h]
  rfl

theorem order?_of_not_denotes (hv : v.Representable) (h : ∀ n, ¬ v.Denotes n) :
    order? (.num (.int c)) v = .error (invalidNumber (.int c) v) := by
  simp only [order?, numberFor_of_not_denotes hv h]
  rfl

theorem fits_of_numberFor {column b : Number} (hv : v.Representable)
    (h : numberFor column v = .ok b) : b.Fits := by
  simp only [numberFor] at h
  split at h
  · cases h
  · next m hm =>
    split at h
    · cases h
    cases h
    cases v with
    | num n => exact Option.some.inj hm ▸ hv n rfl
    | str s => exact Number.fits_of_ofText? hm
    | null | bool _ | arr _ | obj _ => cases hm

theorem orderByWidth?_eq {column : Number} (hc : column.Fits) (hv : v.Representable) :
    orderByWidth? column v = order? (.num column) v := by
  simp only [orderByWidth?, order?, numberByWidth_eq]
  cases h : numberFor column v with
  | error m => rfl
  | ok b => exact congrArg Except.ok (Number.orderByWidth?_eq hc (fits_of_numberFor hv h))

/-- A column of whole numbers compares exactly with every value that stands for a whole number of
either width, refuses every other, and does so by the stages as well. -/
theorem order?_whole (hc : Number.fits c = true) (hv : v.Representable) :
    (∀ n, v.Denotes n → order? (.num (.int c)) v = .ok (some (compare c n))) ∧
      ((∀ n, ¬ v.Denotes n) →
        order? (.num (.int c)) v = .error (v.text ++ " is not a valid integer")) ∧
      orderByWidth? (.int c) v = order? (.num (.int c)) v := by
  have hfits : (Number.int c).Fits := fun _ h => Number.int.inj h ▸ hc
  exact ⟨fun n hn => order?_of_denotes hn, order?_of_not_denotes hv, orderByWidth?_eq hfits hv⟩

/-- Pairs on both sides of either border, and a spelling that is no numeral. -/
theorem order?_whole_borders :
    (Json.str " +18446744073709551615 ").Denotes 18446744073709551615 ∧
      order? (.num (.int (-1))) (.str " +18446744073709551615 ") = .ok (some .lt) ∧
      order? (.num (.int 9223372036854775808)) (.num (.int 9223372036854775807)) = .ok (some .gt) ∧
      order? (.num (.int 10)) (.str "1e1") = .error "\"1e1\" is not a valid integer" := by
  have hword : (Json.str " +18446744073709551615 ").Denotes 18446744073709551615 :=
    .text (Text.integer?_eq_some.1 (by decide)) (by decide)
  refine ⟨hword, ?_, ?_, ?_⟩
  · exact (order?_whole (by decide) (Json.representable_str _)).1 _ hword
  · exact (order?_whole (by decide) fun _ h _ h' => by cases h; cases h'; rfl).1 _ (.number rfl)
  · refine (order?_whole (by decide) (Json.representable_str _)).2.1 fun n h => ?_
    cases h with
    | text hs => exact nomatch (Text.integer?_eq_some.2 hs : none = some n)

end Matching

end Recordkeeper
