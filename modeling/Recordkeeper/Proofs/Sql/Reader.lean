import Mathlib.Data.List.Chain
import Recordkeeper.Proofs.Identifier
import Recordkeeper.Proofs.Numeral
import Recordkeeper.Sql.Token

/-!
A reader of statements. It knows the quotes of a dialect, in which a quote that is doubled stands for
one, and gives back the tokens of every text that was written of tokens which keep apart.
-/

set_option autoImplicit false

namespace Recordkeeper.Sql

def readName? (q : Char) : List Char → Option (List Char × List Char)
  | [] => none
  | [c] => if c = q then some ([], []) else none
  | c :: c' :: s =>
    if c = q then
      if c' = q then (readName? q s).map fun (part, rest) => (q :: part, rest)
      else some ([], c' :: s)
    else (readName? q (c' :: s)).map fun (part, rest) => (c :: part, rest)

def readPlace? : Dialect → List Char → Option (Nat × List Char)
  | .postgres, '$' :: s =>
    match Text.spanDigits s with
    | ([], _) => none
    | (ds, rest) => some (Text.digitsValue ds, rest)
  | .mysql, '?' :: s => some (0, s)
  | _, _ => none

/-- The first token of a text, and what follows. A name whose quote is never closed is none. -/
def next? (d : Dialect) : List Char → Option (Token × List Char)
  | [] => none
  | c :: s =>
    if c = d.quote then (readName? c s).map fun (part, rest) => (.name part, rest)
    else if c.isDigit then
      let (ds, rest) := Text.spanDigits (c :: s)
      some (.number (Text.digitsValue ds), rest)
    else if Identifier.isStart c then
      some (.word (String.ofList ((c :: s).takeWhile Identifier.isPart)),
        (c :: s).dropWhile Identifier.isPart)
    else match readPlace? d (c :: s) with
      | some (n, rest) => some (.param n, rest)
      | none => some (.mark c, s)

def readWith (d : Dialect) : (fuel : Nat) → List Char → Option (List Token)
  | _, [] => some []
  | 0, _ => none
  | fuel + 1, s => do
    let (t, rest) ← next? d s
    let ts ← readWith d fuel rest
    return t :: ts

def read? (d : Dialect) (s : List Char) : Option (List Token) := readWith d s.length s

def Token.seen : Dialect → Token → Token
  | .mysql, .param _ => .param 0
  | _, t => t

def Token.isMark : Token → Bool
  | .mark _ => true
  | _ => false

def Token.Plain : Token → Prop
  | .word w => Identifier.isName w.toList = true
  | .mark c => Identifier.isPart c = false ∧ c ∉ ['"', '\x60', '$', '?']
  | .raw _ => False
  | .name _ | .param _ | .number _ => True

/-- Of two neighbours one at least is a mark. -/
def Apart (ts : List Token) : Prop := ts.IsChain fun a b => a.isMark || b.isMark

section

variable {d : Dialect} {t : Token} {s : List Char}

theorem write_seen (d : Dialect) (t : Token) : (t.seen d).write d = t.write d := by
  cases d <;> cases t <;> rfl

theorem readName?_doubled {q : Char} (part : List Char) (hs : ∀ c ∈ s.head?, c ≠ q) :
    readName? q (doubled q part ++ q :: s) = some (part, s) := by
  induction part with
  | nil =>
    cases s with
    | nil => simp [doubled, readName?]
    | cons c s =>
      have hc : c ≠ q := hs c rfl
      simp [doubled, readName?, hc]
  | cons c part ih =>
    obtain ⟨e, rest, hrest⟩ : ∃ e rest, doubled q part ++ q :: s = e :: rest :=
      List.exists_cons_of_ne_nil (by simp)
    by_cases hc : c = q
    · subst hc
      simp [doubled, readName?, ih]
    · simp only [doubled, if_neg hc, List.cons_append]
      rw [hrest] at ih ⊢
      simp [readName?, hc, ih]

theorem isPart_of_isDigit {c : Char} (h : c.isDigit = true) : Identifier.isPart c = true := by
  simp [Identifier.isPart, Char.isAlphanum, h]

def Stops (d : Dialect) (s : List Char) : Prop :=
  ∀ c ∈ s.head?, Identifier.isPart c = false ∧ c ≠ d.quote

theorem Stops.noDigitFirst (h : Stops d s) : Text.NoDigitFirst s := fun c hc => by
  cases hdigit : c.isDigit with
  | false => rfl
  | true =>
    have hpart := (h c hc).1
    rw [isPart_of_isDigit hdigit] at hpart
    cases hpart

theorem numeral_cons (n : Nat) : ∃ c ds, Text.numeral n = c :: ds ∧ c.isDigit = true := by
  obtain ⟨c, ds, h⟩ := List.exists_cons_of_ne_nil (Text.numeral_ne_nil n)
  exact ⟨c, ds, h, Text.isDigit_of_mem_numeral (h ▸ List.mem_cons_self)⟩

theorem quote_ne_of_isPart {c : Char} (h : Identifier.isPart c = true) : c ≠ d.quote := by
  rintro rfl
  cases d <;> revert h <;> decide

theorem isName_cons {c : Char} {w : List Char} (h : Identifier.isName (c :: w) = true) :
    Identifier.isStart c = true ∧ c.isDigit = false ∧
      ∀ e ∈ c :: w, Identifier.isPart e = true := by
  have hstart : Identifier.isStart c = true := (Bool.and_eq_true_iff.1 h).1
  refine ⟨hstart, ?_, Identifier.isPart_of_isName h⟩
  cases hdigit : c.isDigit with
  | false => rfl
  | true =>
    change ((decide (c.val ≥ 65 ∧ c.val ≤ 90) ||
      decide (c.val ≥ 97) && decide (c.val ≤ 122)) || decide (c = '_')) = true at hstart
    simp only [Char.isDigit, Bool.or_eq_true, Bool.and_eq_true, decide_eq_true_eq, ge_iff_le,
      UInt32.le_iff_toNat_le] at hstart hdigit
    rcases hstart with (hupper | hlower) | rfl
    · have h := hupper.1
      simp at h hdigit
      omega
    · have h := hlower.1
      simp at h hdigit
      omega
    · exact absurd hdigit (by decide)

theorem next?_word {w : String} (hw : Identifier.isName w.toList = true) (hs : Stops d s) :
    next? d (w.toList ++ s) = some (.word w, s) := by
  cases hl : w.toList with
  | nil =>
    rw [hl] at hw
    cases hw
  | cons c r =>
    rw [hl] at hw
    obtain ⟨hstart, hdigit, hpart⟩ := isName_cons hw
    obtain ⟨htake, hdrop⟩ := Text.span_append hpart fun e he => (hs e he).1
    rw [List.cons_append] at htake hdrop ⊢
    simp only [next?, if_neg (quote_ne_of_isPart (hpart c List.mem_cons_self)), hdigit, hstart, htake,
      hdrop]
    rw [← hl, String.ofList_toList]
    rfl

theorem next?_number (n : Nat) (hs : Stops d s) :
    next? d (Text.numeral n ++ s) = some (.number n, s) := by
  obtain ⟨c, ds, hn, hdigit⟩ := numeral_cons n
  have hspan := Text.spanDigits_numeral n hs.noDigitFirst
  have hquote : c ≠ d.quote := quote_ne_of_isPart (isPart_of_isDigit hdigit)
  rw [hn, List.cons_append] at hspan ⊢
  simp only [next?, if_neg hquote, hdigit, if_true, hspan]
  rw [← hn, Text.digitsValue_numeral]

theorem next?_param (n : Nat) (hs : Stops d s) :
    next? d ((Token.param n).write d ++ s) = some ((Token.param n).seen d, s) := by
  cases d with
  | postgres =>
    obtain ⟨c, ds, hn, -⟩ := numeral_cons n
    have hspan := Text.spanDigits_numeral n hs.noDigitFirst
    have hplace : readPlace? .postgres ('$' :: (Text.numeral n ++ s)) = some (n, s) := by
      have hvalue := Text.digitsValue_numeral n
      rw [hn] at hspan hvalue ⊢
      simp only [readPlace?, hspan, hvalue]
    have hnext : next? .postgres ('$' :: (Text.numeral n ++ s)) =
        (match readPlace? .postgres ('$' :: (Text.numeral n ++ s)) with
          | some (n, rest) => some (.param n, rest)
          | none => some (.mark '$', Text.numeral n ++ s)) := rfl
    exact hnext.trans (by rw [hplace]; rfl)
  | mysql => rfl

theorem next?_mark {c : Char} (hc : Identifier.isPart c = false)
    (hmark : c ∉ ['"', '\x60', '$', '?']) : next? d (c :: s) = some (.mark c, s) := by
  simp only [List.mem_cons, List.not_mem_nil, or_false, not_or] at hmark
  obtain ⟨hdouble, hback, hdollar, hask⟩ := hmark
  have hquote : c ≠ d.quote := by cases d <;> assumption
  have hdigit : c.isDigit = false := by
    cases h : c.isDigit with
    | false => rfl
    | true => rw [isPart_of_isDigit h] at hc; cases hc
  have hstart : Identifier.isStart c = false := by
    cases h : Identifier.isStart c with
    | false => rfl
    | true => rw [Identifier.isPart_of_isStart h] at hc; cases hc
  have hplace : readPlace? d (c :: s) = none := by
    unfold readPlace?
    split
    · next h => exact absurd (List.cons.inj h).1 hdollar
    · next h => exact absurd (List.cons.inj h).1 hask
    · rfl
  simp only [next?, if_neg hquote, hdigit, hstart, hplace]
  rfl

theorem next?_write (ht : t.Plain) (hs : t.isMark = true ∨ Stops d s) :
    next? d (t.write d ++ s) = some (t.seen d, s) := by
  have hseen : ∀ t : Token, (∀ n, t ≠ .param n) → t.seen d = t := by
    intro t ht
    cases d <;> cases t <;> first | rfl | exact absurd rfl (ht _)
  cases t with
  | word w =>
    rw [hseen _ (by simp)]
    exact next?_word ht (hs.resolve_left (by simp [Token.isMark]))
  | name part =>
    have hstops : Stops d s := hs.resolve_left (by simp [Token.isMark])
    rw [hseen _ (by simp)]
    have hread := readName?_doubled part fun c hc => (hstops c hc).2
    simp [Token.write, quotePart, next?, hread]
  | param n => exact next?_param n (hs.resolve_left (by simp [Token.isMark]))
  | number n =>
    rw [hseen _ (by simp)]
    exact next?_number n (hs.resolve_left (by simp [Token.isMark]))
  | mark c =>
    rw [hseen _ (by simp)]
    exact next?_mark ht.1 ht.2
  | raw clause => cases ht

theorem write_ne_nil (d : Dialect) (ht : t.Plain) : t.write d ≠ [] := by
  intro h
  have hnext := next?_write (d := d) (s := []) ht (.inr (by simp [Stops]))
  rw [h] at hnext
  cases hnext

theorem stops_of_mark (hplain : t.Plain) (hmark : t.isMark = true) : Stops d (t.write d ++ s) := by
  cases t with
  | mark c =>
    intro e he
    obtain rfl : c = e := by simpa [Token.write] using he
    refine ⟨hplain.1, ?_⟩
    rintro rfl
    have hnot := hplain.2
    cases d <;> simp [Dialect.quote] at hnot
  | _ => cases hmark

theorem readWith_write {ts : List Token} (hplain : ∀ t ∈ ts, t.Plain) (hapart : Apart ts)
    {fuel : Nat} (hfuel : (write d ts).length ≤ fuel) :
    readWith d fuel (write d ts) = some (ts.map (Token.seen d)) := by
  induction ts generalizing fuel with
  | nil => cases fuel <;> rfl
  | cons t ts ih =>
    obtain ⟨ht, hts⟩ := List.forall_mem_cons.1 hplain
    have hwrite : write d (t :: ts) = t.write d ++ write d ts := List.flatMap_cons
    have hstops : t.isMark = true ∨ Stops d (write d ts) := by
      cases ts with
      | nil => exact .inr (by simp [Stops, write])
      | cons u us =>
        rcases Bool.or_eq_true_iff.1 (List.isChain_cons_cons.1 hapart).1 with h | h
        · exact .inl h
        · exact .inr (stops_of_mark (hts u List.mem_cons_self) h)
    have hlength := List.length_pos_iff.2 (write_ne_nil d ht)
    rw [hwrite, List.length_append] at hfuel
    obtain ⟨n, rfl⟩ : ∃ n, fuel = n + 1 := ⟨fuel - 1, by omega⟩
    have hrest := ih hts hapart.tail (show (write d ts).length ≤ n by omega)
    rw [hwrite]
    obtain ⟨c, cs, hc⟩ := List.exists_cons_of_ne_nil (write_ne_nil d ht)
    have hnext := next?_write ht hstops
    rw [hc, List.cons_append] at hnext ⊢
    simp [readWith, hnext, hrest]

/-- Reading gives back what was written. -/
theorem read?_write {ts : List Token} (hplain : ∀ t ∈ ts, t.Plain) (hapart : Apart ts) :
    read? d (write d ts) = some (ts.map (Token.seen d)) :=
  readWith_write hplain hapart (Nat.le_refl _)

example : read? .postgres "\"a\"\"b\".\"c\" = $1".toList =
    some [.name ['a', '"', 'b'], .mark '.', .name ['c'], .mark ' ', .mark '=', .mark ' ', .param 1] := by
  decide +kernel

end

end Recordkeeper.Sql
