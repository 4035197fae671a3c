import Recordkeeper.Text.Numeral

set_option autoImplicit false

namespace Recordkeeper.Text

theorem isDigit_of_mem_numeral {n : Nat} {c : Char} (h : c ∈ numeral n) : c.isDigit = true :=
  Nat.isDigit_of_mem_toDigits (by decide) (by decide) h

theorem numeral_ne_nil (n : Nat) : numeral n ≠ [] := Nat.toDigits_ne_nil

theorem digitsValue_eq_ofDigitChars (ds : List Char) :
    digitsValue ds = Nat.ofDigitChars 10 ds 0 := by
  simp [digitsValue, Nat.ofDigitChars_eq_foldl]

@[simp] theorem digitsValue_numeral (n : Nat) : digitsValue (numeral n) = n := by
  rw [digitsValue_eq_ofDigitChars, numeral, Nat.ofDigitChars_ten_toDigits]

theorem numeral_injective {m n : Nat} (h : numeral m = numeral n) : m = n := by
  have hv := congrArg digitsValue h
  simpa using hv

theorem natural?_numeral (n : Nat) : natural? (numeral n) = some n := by
  have hdigits : (numeral n).all Char.isDigit = true :=
    List.all_eq_true.2 fun _ h => isDigit_of_mem_numeral h
  simp [natural?, numeral_ne_nil, hdigits]

theorem integer?_numeral (n : Nat) : integer? (numeral n) = some (n : Int) := by
  have hnatural := natural?_numeral n
  have hdigit : ∀ c ∈ (numeral n).head?, c.isDigit = true := fun c hc =>
    isDigit_of_mem_numeral (List.mem_of_mem_head? hc)
  unfold integer?
  split
  · next ds heq =>
    rw [heq] at hdigit
    cases hdigit '+' rfl
  · next ds heq =>
    rw [heq] at hdigit
    cases hdigit '-' rfl
  · rw [hnatural]
    rfl

def NoDigitFirst (s : List Char) : Prop := ∀ c ∈ s.head?, c.isDigit = false

theorem noDigitFirst_nil : NoDigitFirst [] := by simp [NoDigitFirst]

theorem noDigitFirst_cons {c : Char} {s : List Char} :
    NoDigitFirst (c :: s) ↔ c.isDigit = false := by simp [NoDigitFirst]

theorem span_append {p : Char → Bool} {w s : List Char} (hw : ∀ c ∈ w, p c = true)
    (hs : ∀ c ∈ s.head?, p c = false) :
    (w ++ s).takeWhile p = w ∧ (w ++ s).dropWhile p = s := by
  have hnone : s.takeWhile p = [] ∧ s.dropWhile p = s := by
    cases s with
    | nil => exact ⟨rfl, rfl⟩
    | cons c s =>
      have hc : p c = false := hs c rfl
      simp [hc]
  rw [List.takeWhile_append_of_pos hw, List.dropWhile_append_of_pos hw, hnone.1, hnone.2]
  simp

theorem spanDigits_append {ds s : List Char} (hd : ∀ c ∈ ds, c.isDigit = true)
    (hs : NoDigitFirst s) : spanDigits (ds ++ s) = (ds, s) := by
  obtain ⟨htake, hdrop⟩ := span_append hd hs
  rw [spanDigits, htake, hdrop]

theorem spanDigits_numeral (n : Nat) {s : List Char} (hs : NoDigitFirst s) :
    spanDigits (numeral n ++ s) = (numeral n, s) :=
  spanDigits_append (fun _ h => isDigit_of_mem_numeral h) hs

theorem head_numeral {n : Nat} (hn : 0 < n) : (numeral n).head? ≠ some '0' := by
  induction n using Nat.strongRecOn with
  | ind n ih =>
    by_cases h : n < 10
    · have hdigit : ∀ d < 10, 0 < d → d.digitChar ≠ '0' := by decide
      rw [numeral, Nat.toDigits_of_lt_base h]
      simpa using hdigit n h hn
    · obtain ⟨c, cs, hc⟩ := List.exists_cons_of_ne_nil (numeral_ne_nil (n / 10))
      have hhigh := ih (n / 10) (by omega) (by omega)
      rw [numeral] at hc hhigh
      rw [numeral, Nat.toDigits_of_base_le (by decide) (by omega)]
      rw [hc] at hhigh ⊢
      exact hhigh

end Recordkeeper.Text
