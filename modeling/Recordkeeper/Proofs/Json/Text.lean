import Recordkeeper.Json.Printer
import Recordkeeper.Json.Reader
import Recordkeeper.Proofs.Numeral

set_option autoImplicit false

namespace Recordkeeper.Json

inductive Closed : List Char → Prop where
  | nil : Closed []
  | mark {c : Char} (r : List Char) : c ∈ [',', ']', '}'] → Closed (c :: r)

/-- A value with whole numbers only, that fit, and at most so many containers around any part. -/
inductive Whole : Nat → Json → Prop where
  | null {d : Nat} : Whole d .null
  | bool {d : Nat} (b : Bool) : Whole d (.bool b)
  | int {d : Nat} {n : Int} : Number.fits n → Whole d (.num (.int n))
  | str {d : Nat} (s : String) : Whole d (.str s)
  | arr {d : Nat} {xs : List Json} : (∀ x ∈ xs, Whole d x) → Whole (d + 1) (.arr xs)
  | obj {d : Nat} {ms : List (String × Json)} : (∀ m ∈ ms, Whole d m.2) → Whole (d + 1) (.obj ms)

section

variable {s : List Char}

theorem Closed.noDigitFirst (h : Closed s) : Text.NoDigitFirst s := by
  cases h with
  | nil => exact Text.noDigitFirst_nil
  | mark r hc =>
    rw [Text.noDigitFirst_cons]
    simp only [List.mem_cons, List.not_mem_nil, or_false] at hc
    rcases hc with rfl | rfl | rfl <;> decide

theorem Closed.fraction (h : Closed s) : fraction s = some (none, s) := by
  cases h with
  | nil => rfl
  | mark r hc =>
    simp only [List.mem_cons, List.not_mem_nil, or_false] at hc
    rcases hc with rfl | rfl | rfl <;> simp [Json.fraction]

theorem Closed.exponent (h : Closed s) : exponent s = some (none, s) := by
  cases h with
  | nil => rfl
  | mark r hc =>
    simp only [List.mem_cons, List.not_mem_nil, or_false] at hc
    rcases hc with rfl | rfl | rfl <;> simp [Json.exponent]

theorem wholePart_numeral (n : Nat) (h : Closed s) :
    wholePart (Text.numeral n ++ s) = some (Text.numeral n, s) := by
  unfold wholePart
  rw [Text.spanDigits_numeral n h.noDigitFirst]
  rcases Nat.eq_zero_or_pos n with rfl | hn
  · rfl
  · have hhead := Text.head_numeral hn
    split
    · next hnil => exact absurd (congrArg Prod.fst hnil) (Text.numeral_ne_nil n)
    · next hzero =>
      rw [(Prod.mk.inj hzero).1] at hhead
      exact absurd rfl hhead
    · rfl

theorem number_numeral {k : Nat} (hk : Number.fits k) (h : Closed s) :
    number (Text.numeral k ++ s) = some (.int k, s) := by
  have hwhole := wholePart_numeral k h
  have hdigits : Text.digitsValue (Text.numeral k ++ (none : Option (List Char)).getD []) = k := by
    rw [Option.getD_none, List.append_nil, Text.digitsValue_numeral]
  obtain ⟨c, cs, hn⟩ := List.exists_cons_of_ne_nil (Text.numeral_ne_nil k)
  have hc : c ≠ '-' := by
    rintro rfl
    have hdigit : ('-').isDigit = true := Text.isDigit_of_mem_numeral (hn ▸ List.mem_cons_self)
    exact absurd hdigit (by decide)
  rw [hn, List.cons_append] at hwhole ⊢
  rw [hn] at hdigits
  unfold number
  split
  next negative t hsign =>
  split at hsign
  · next heq => exact absurd (List.cons.inj heq).1 hc
  · obtain ⟨rfl, rfl⟩ := Prod.mk.inj hsign
    refine Option.bind_eq_some_iff.2 ⟨_, hwhole, Option.bind_eq_some_iff.2 ⟨_, h.fraction,
      Option.bind_eq_some_iff.2 ⟨_, h.exponent, ?_⟩⟩⟩
    rw [hdigits]
    refine (if_pos ?_).trans rfl
    rw [if_neg Bool.false_ne_true, hk]
    rfl

theorem number_minus_numeral {k : Nat} (hk : Number.fits (-((k + 1 : Nat) : Int))) (h : Closed s) :
    number ('-' :: (Text.numeral (k + 1) ++ s)) = some (.int (-((k + 1 : Nat) : Int)), s) := by
  have hdigits :
      Text.digitsValue (Text.numeral (k + 1) ++ (none : Option (List Char)).getD []) = k + 1 := by
    rw [Option.getD_none, List.append_nil, Text.digitsValue_numeral]
  unfold number
  split
  next negative t hsign =>
  obtain ⟨rfl, rfl⟩ : true = negative ∧ Text.numeral (k + 1) ++ s = t := Prod.mk.inj hsign
  refine Option.bind_eq_some_iff.2 ⟨_, wholePart_numeral (k + 1) h, Option.bind_eq_some_iff.2
    ⟨_, h.fraction, Option.bind_eq_some_iff.2 ⟨_, h.exponent, ?_⟩⟩⟩
  rw [hdigits]
  refine (if_pos ?_).trans rfl
  rw [if_pos rfl, hk]
  rfl

theorem number_signedNumeral {n : Int} (hn : Number.fits n) (h : Closed s) :
    number (Text.signedNumeral n ++ s) = some (.int n, s) := by
  cases n with
  | ofNat k => exact number_numeral hn h
  | negSucc k => exact number_minus_numeral hn h

end

section

variable {t : List Char}

theorem pieces_letter {e c : Char} (he : e ≠ 'u') (hc : escaped? e = some c) :
    pieces ('\\' :: e :: t) = (pieces t).map fun (ps, rest) => (.char c :: ps, rest) := by
  rw [pieces.eq_def]
  split
  · next heq => cases heq
  · next heq => cases heq
  · next heq => exact absurd (List.cons.inj (List.cons.inj heq).2).1 he
  · next heq =>
    obtain ⟨rfl, rfl⟩ := List.cons.inj (List.cons.inj heq).2
    rw [hc]
    cases pieces t <;> rfl
  · next h heq =>
    obtain ⟨rfl, rfl⟩ := List.cons.inj heq
    exact absurd rfl (h _ _ rfl)

theorem pieces_unit {a b c d : Char} {n : Nat} (hn : Text.inBase? 16 [a, b, c, d] = some n) :
    pieces ('\\' :: 'u' :: a :: b :: c :: d :: t) =
      (pieces t).map fun (ps, rest) => (.unit n :: ps, rest) := by
  rw [pieces, hn]
  cases pieces t <;> rfl

theorem pieces_plain {c : Char} (hquote : c ≠ '"') (hslash : c ≠ '\\') (hc : ¬ c.toNat < 0x20) :
    pieces (c :: t) = (pieces t).map fun (ps, rest) => (.char c :: ps, rest) := by
  rw [pieces.eq_def]
  split
  · next heq => cases heq
  · next heq => exact absurd (List.cons.inj heq).1 hquote
  · next heq => exact absurd (List.cons.inj heq).1 hslash
  · next heq => exact absurd (List.cons.inj heq).1 hslash
  · next heq =>
    obtain ⟨rfl, rfl⟩ := List.cons.inj heq
    rw [if_neg hc]
    cases pieces t <;> rfl

end

theorem inBase?_control : ∀ n < 0x20,
    Text.inBase? 16 ['0', '0', hexDigit (n / 16), hexDigit n] = some n := by decide +kernel

theorem escape_cases (c : Char) :
    (∃ e, escape c = ['\\', e] ∧ e ≠ 'u' ∧ escaped? e = some c) ∨
      (c.toNat < 0x20 ∧
        escape c = ['\\', 'u', '0', '0', hexDigit (c.toNat / 16), hexDigit c.toNat]) ∨
      (c ≠ '"' ∧ c ≠ '\\' ∧ ¬ c.toNat < 0x20 ∧ escape c = [c]) := by
  by_cases hmark : c ∈ ['"', '\\', '\n', '\r', '\t', '\x08', '\x0c']
  · simp only [List.mem_cons, List.not_mem_nil, or_false] at hmark
    rcases hmark with rfl | rfl | rfl | rfl | rfl | rfl | rfl <;>
      exact .inl ⟨_, rfl, by decide, rfl⟩
  · simp only [List.mem_cons, List.not_mem_nil, or_false, not_or] at hmark
    refine .inr ?_
    by_cases hc : c.toNat < 0x20
    · exact .inl ⟨hc, by simp [escape, hmark, hc]⟩
    · exact .inr ⟨hmark.1, hmark.2.1, hc, by simp [escape, hmark, hc]⟩

theorem pieces_escape (c : Char) (t : List Char) : ∃ p,
    (pieces (escape c ++ t) = (pieces t).map fun (ps, rest) => (p :: ps, rest)) ∧
      ∀ ps, assemble (p :: ps) = (assemble ps).map (c :: ·) := by
  rcases escape_cases c with ⟨e, hescape, he, hread⟩ | ⟨hc, hescape⟩ | ⟨hquote, hslash, hc, hescape⟩
  · exact ⟨.char c, hescape ▸ pieces_letter he hread, fun _ => rfl⟩
  · refine ⟨.unit c.toNat, hescape ▸ pieces_unit (inBase?_control c.toNat hc), fun ps => ?_⟩
    have hhigh : isHigh c.toNat = false := by simp [isHigh]; omega
    have hlow : isLow c.toNat = false := by simp [isLow]; omega
    rw [assemble.eq_def]
    simp [hhigh, hlow]
  · exact ⟨.char c, hescape ▸ pieces_plain hquote hslash hc, fun _ => rfl⟩

theorem stringRest_escape (s : String) (t : List Char) :
    stringRest (s.toList.flatMap escape ++ '"' :: t) = some (s, t) := by
  have hread (cs : List Char) : ∃ ps, pieces (cs.flatMap escape ++ '"' :: t) = some (ps, t) ∧
      assemble ps = some cs := by
    induction cs with
    | nil => exact ⟨[], rfl, rfl⟩
    | cons c cs ih =>
      obtain ⟨ps, hps, hcs⟩ := ih
      obtain ⟨p, hp, hc⟩ := pieces_escape c (cs.flatMap escape ++ '"' :: t)
      refine ⟨p :: ps, ?_, by rw [hc, hcs]; rfl⟩
      rw [List.flatMap_cons, List.append_assoc, hp, hps]
      rfl
  obtain ⟨ps, hps, hcs⟩ := hread s.toList
  simp [stringRest, hps, hcs]

theorem ne_of_isDigit {c x : Char} (hc : c.isDigit = true) (hx : x.isDigit = false) : c ≠ x := by
  rintro rfl
  rw [hc] at hx
  cases hx

theorem not_isSpace_of_isDigit {c : Char} (hc : c.isDigit = true) : isSpace c = false := by
  have hblank := ne_of_isDigit hc (x := ' ') (by decide)
  have hline := ne_of_isDigit hc (x := '\n') (by decide)
  have hreturn := ne_of_isDigit hc (x := '\r') (by decide)
  have htab := ne_of_isDigit hc (x := '\t') (by decide)
  simp [isSpace, hblank, hline, hreturn, htab]

/-- The text of a value begins with a character that neither is blank nor closes a list. -/
theorem write_head {d : Nat} {j : Json} (h : Whole d j) :
    ∃ c t, write j = c :: t ∧ isSpace c = false ∧ c ≠ ']' := by
  cases h with
  | null => exact ⟨_, _, rfl, by decide, by decide⟩
  | bool b => cases b <;> exact ⟨_, _, rfl, by decide, by decide⟩
  | @int _ n _ =>
    cases n with
    | ofNat k =>
      obtain ⟨c, cs, hn⟩ := List.exists_cons_of_ne_nil (Text.numeral_ne_nil k)
      have hdigit : c.isDigit = true := Text.isDigit_of_mem_numeral (hn ▸ List.mem_cons_self)
      exact ⟨c, cs, hn, not_isSpace_of_isDigit hdigit, ne_of_isDigit hdigit (by decide)⟩
    | negSucc k => exact ⟨_, _, rfl, by decide, by decide⟩
  | str s => exact ⟨_, _, rfl, by decide, by decide⟩
  | @arr _ xs _ => cases xs <;> exact ⟨_, _, rfl, by decide, by decide⟩
  | @obj _ ms _ => cases ms <;> exact ⟨_, _, rfl, by decide, by decide⟩

theorem skipSpace_cons {c : Char} {t : List Char} (hc : isSpace c = false) :
    skipSpace (c :: t) = c :: t := by simp [skipSpace, hc]

theorem length_write_pos {d : Nat} {j : Json} (h : Whole d j) : 0 < (write j).length := by
  obtain ⟨c, t, hw, -⟩ := write_head h
  simp [hw]

def Reads (d : Nat) (j : Json) : Prop :=
  ∀ fuel s, (write j).length ≤ fuel → Closed s → value fuel d (write j ++ s) = some (j, s)

theorem Reads.of_succ {d : Nat} {j : Json} (hj : Whole d j)
    (h : ∀ fuel s, (write j).length ≤ fuel + 1 → Closed s →
      value (fuel + 1) d (write j ++ s) = some (j, s)) : Reads d j := by
  intro fuel s hfuel hs
  have hpos := length_write_pos hj
  cases fuel with
  | zero => omega
  | succ fuel => exact h fuel s hfuel hs

theorem value_number {c : Char} (hc : c = '-' ∨ c.isDigit = true) (fuel d : Nat) (t : List Char) :
    value (fuel + 1) d (c :: t) = (number (c :: t)).map fun (n, rest) => (.num n, rest) := by
  have hspace : isSpace c = false := by
    rcases hc with rfl | hc
    · decide
    · exact not_isSpace_of_isDigit hc
  have hne (x : Char) (hx : x.isDigit = false) (hminus : x ≠ '-') : c ≠ x := by
    rcases hc with rfl | hc
    · exact hminus.symm
    · exact ne_of_isDigit hc hx
  rw [value, skipSpace_cons hspace]
  split
  · next heq => cases heq
  · next heq => exact absurd (List.cons.inj heq).1 (hne 'n' (by decide) (by decide))
  · next heq => exact absurd (List.cons.inj heq).1 (hne 't' (by decide) (by decide))
  · next heq => exact absurd (List.cons.inj heq).1 (hne 'f' (by decide) (by decide))
  · next heq => exact absurd (List.cons.inj heq).1 (hne '"' (by decide) (by decide))
  · next heq => exact absurd (List.cons.inj heq).1 (hne '[' (by decide) (by decide))
  · next heq => exact absurd (List.cons.inj heq).1 (hne '\x7b' (by decide) (by decide))
  · rfl

theorem reads_int {d : Nat} {n : Int} (hn : Number.fits n) : Reads d (.num (.int n)) := by
  refine .of_succ (.int hn) fun fuel s _ hs => ?_
  have hread := number_signedNumeral hn hs
  rw [show write (.num (.int n)) = Text.signedNumeral n from rfl]
  obtain ⟨c, t, hw, hc⟩ : ∃ c t, Text.signedNumeral n = c :: t ∧ (c = '-' ∨ c.isDigit = true) := by
    cases n with
    | ofNat k =>
      obtain ⟨c, cs, hk⟩ := List.exists_cons_of_ne_nil (Text.numeral_ne_nil k)
      exact ⟨c, cs, hk, .inr (Text.isDigit_of_mem_numeral (hk ▸ List.mem_cons_self))⟩
    | negSucc k => exact ⟨_, _, rfl, .inl rfl⟩
  rw [hw, List.cons_append] at hread ⊢
  rw [value_number hc, hread]
  rfl

theorem quoted_append (k : String) (t : List Char) :
    quoted k ++ t = '"' :: (k.toList.flatMap escape ++ '"' :: t) := by simp [quoted]

theorem reads_str (d : Nat) (k : String) : Reads d (.str k) := by
  refine .of_succ (.str k) fun fuel s _ _ => ?_
  rw [show write (.str k) = quoted k from rfl, quoted_append]
  simp [value, skipSpace_cons, isSpace, stringRest_escape]

theorem items_write {d : Nat} {x : Json} {xs : List Json} (h : ∀ y ∈ x :: xs, Reads d y)
    {fuel : Nat} (hfuel : (write x ++ writeItems xs).length ≤ fuel) (s : List Char) :
    items fuel d (write x ++ (writeItems xs ++ s)) = some (x :: xs, s) := by
  induction xs generalizing x fuel with
  | nil =>
    rw [List.length_append, writeItems, List.length_singleton] at hfuel
    obtain ⟨fuel, rfl⟩ : ∃ n, fuel = n + 1 := ⟨fuel - 1, by omega⟩
    have hx := h x List.mem_cons_self fuel (']' :: s) (by omega) (.mark s (by decide))
    simp [writeItems, items, hx, skipSpace_cons, isSpace]
  | cons y xs ih =>
    rw [List.length_append, writeItems, List.length_cons] at hfuel
    obtain ⟨fuel, rfl⟩ : ∃ n, fuel = n + 1 := ⟨fuel - 1, by omega⟩
    have hx := h x List.mem_cons_self fuel (',' :: (write y ++ (writeItems xs ++ s))) (by omega)
      (.mark _ (by decide))
    have hlen : (write y ++ writeItems xs).length ≤ fuel := by omega
    have hrest := ih (fun z hz => h z (List.mem_cons_of_mem _ hz)) hlen
    simp [writeItems, items, hx, hrest, skipSpace_cons, isSpace]

theorem members_write {d : Nat} {k : String} {v : Json} {ms : List (String × Json)}
    (h : ∀ m ∈ (k, v) :: ms, Reads d m.2) {fuel : Nat}
    (hfuel : (quoted k ++ ':' :: (write v ++ writeMembers ms)).length ≤ fuel) (s : List Char) :
    members fuel d (quoted k ++ ':' :: (write v ++ (writeMembers ms ++ s))) =
      some ((k, v) :: ms, s) := by
  induction ms generalizing k v fuel with
  | nil =>
    rw [List.length_append, List.length_cons, List.length_append, writeMembers,
      List.length_singleton] at hfuel
    obtain ⟨fuel, rfl⟩ : ∃ n, fuel = n + 1 := ⟨fuel - 1, by omega⟩
    have hv := h (k, v) List.mem_cons_self fuel ('\x7d' :: s) (by simp only; omega)
      (.mark s (by decide))
    rw [quoted_append]
    simp [writeMembers, members, stringRest_escape, hv, skipSpace_cons, isSpace]
  | cons m ms ih =>
    obtain ⟨l, w⟩ := m
    rw [List.length_append, List.length_cons, List.length_append, writeMembers,
      List.length_cons] at hfuel
    obtain ⟨fuel, rfl⟩ : ∃ n, fuel = n + 1 := ⟨fuel - 1, by omega⟩
    have hv := h (k, v) List.mem_cons_self fuel
      (',' :: (quoted l ++ ':' :: (write w ++ (writeMembers ms ++ s)))) (by simp only; omega)
      (.mark _ (by decide))
    have hlen : (quoted l ++ ':' :: (write w ++ writeMembers ms)).length ≤ fuel := by omega
    have hrest := ih (fun z hz => h z (List.mem_cons_of_mem _ hz)) hlen
    rw [quoted_append]
    simp [writeMembers, members, stringRest_escape, hv, hrest, skipSpace_cons, isSpace]

theorem Whole.reads {d : Nat} {j : Json} (h : Whole d j) : Reads d j := by
  induction h with
  | null => exact .of_succ .null fun fuel s _ _ => rfl
  | bool b => cases b <;> exact .of_succ (.bool _) fun fuel s _ _ => rfl
  | int hn => exact reads_int hn
  | str s => exact reads_str _ s
  | @arr d xs hxs ih =>
    refine .of_succ (.arr hxs) fun fuel s hfuel hs => ?_
    cases xs with
    | nil => simp [write, value, skipSpace_cons, isSpace]
    | cons x xs =>
      obtain ⟨c, t, hw, hc, hclose⟩ := write_head (hxs x List.mem_cons_self)
      have hlen : (write x ++ writeItems xs).length ≤ fuel := by
        rw [write, List.length_cons] at hfuel
        omega
      have hitems := items_write ih hlen s
      rw [hw, List.cons_append] at hitems
      have hopen : isSpace '[' = false := by decide
      simp [write, value, skipSpace_cons hopen, skipSpace_cons hc, hw, hclose, hitems]
  | @obj d ms hms ih =>
    refine .of_succ (.obj hms) fun fuel s hfuel hs => ?_
    cases ms with
    | nil => simp [write, value, skipSpace_cons, isSpace]
    | cons m ms =>
      obtain ⟨k, v⟩ := m
      have hlen : (quoted k ++ ':' :: (write v ++ writeMembers ms)).length ≤ fuel := by
        rw [write, List.length_cons] at hfuel
        omega
      have hmembers := members_write ih hlen s
      rw [quoted_append] at hmembers
      simp [write, value, skipSpace_cons, isSpace, quoted, hmembers]

theorem source?_text {j : Json} (h : Whole maxDepth j) : source? j.text = some j := by
  have hread := h.reads (2 * (write j).length + 2) [] (by omega) .nil
  rw [List.append_nil] at hread
  unfold source? text
  rw [String.toList_ofList]
  refine Option.bind_eq_some_iff.2 ⟨_, hread, ?_⟩
  rfl

end Recordkeeper.Json
