import Recordkeeper.Proofs.Sql.Reader

set_option autoImplicit false

namespace Recordkeeper.Sql

def quotedParts (d : Dialect) (parts : List (List Char)) : List Char :=
  ['.'].intercalate (parts.map (quotePart d))

def readNamesWith (q : Char) : (fuel : Nat) → List Char → Option (List (List Char) × List Char)
  | 0, _ => none
  | fuel + 1, s => do
    let (part, rest) ← readName? q s
    match ['.', q].isPrefixOf? rest with
    | none => some ([part], rest)
    | some next => (readNamesWith q fuel next).map fun (parts, rest) => (part :: parts, rest)

def readNames? (d : Dialect) : List Char → Option (List (List Char) × List Char)
  | [] => none
  | c :: s => if c = d.quote then readNamesWith c s.length s else none

/-- A text in front of which quoted names come to their end. A quote would be the second of two, and a
dot with a quote behind it would go on with one name more. -/
def EndsNames (d : Dialect) (rest : List Char) : Prop :=
  (∀ c ∈ rest.head?, c ≠ d.quote) ∧ ¬ ['.', d.quote] <+: rest

section

variable {d : Dialect} {q : Char} {s rest part : List Char} {parts : List (List Char)} {fuel : Nat}

theorem eq_doubled_of_readName? (h : readName? q s = some (part, rest)) :
    s = doubled q part ++ q :: rest ∧ ∀ c ∈ rest.head?, c ≠ q := by
  fun_induction readName? q s generalizing part rest with
  | case1 => cases h
  | case2 =>
    cases h
    simp [doubled]
  | case3 => cases h
  | case4 s ih =>
    obtain ⟨⟨part, rest⟩, hread, heq⟩ := Option.map_eq_some_iff.1 h
    cases heq
    obtain ⟨rfl, hrest⟩ := ih hread
    exact ⟨by simp [doubled], hrest⟩
  | case5 c s hc =>
    cases h
    simpa [doubled] using hc
  | case6 c c' s hc ih =>
    obtain ⟨⟨part, rest⟩, hread, heq⟩ := Option.map_eq_some_iff.1 h
    cases heq
    obtain ⟨hs, hrest⟩ := ih hread
    exact ⟨by simp [doubled, hc, hs], hrest⟩

theorem isPrefixOf?_eq_none_iff {first t : List Char} :
    first.isPrefixOf? t = none ↔ ¬ first <+: t := by
  rw [← Option.not_isSome_iff_eq_none, List.isSome_isPrefixOf?_eq_isPrefixOf,
    List.isPrefixOf_iff_prefix]

theorem dot_ne_quote (d : Dialect) : '.' ≠ d.quote := by
  cases d <;> decide

theorem quotedParts_cons_cons (d : Dialect) (part part' : List Char) (parts : List (List Char)) :
    quotedParts d (part :: part' :: parts) =
      quotePart d part ++ '.' :: quotedParts d (part' :: parts) := rfl

theorem quotedParts_eq_cons (d : Dialect) (hne : parts ≠ []) :
    ∃ t, quotedParts d parts = d.quote :: t := by
  obtain ⟨part, parts, rfl⟩ := List.exists_cons_of_ne_nil hne
  cases parts <;> exact ⟨_, rfl⟩

theorem length_le_quotedParts (d : Dialect) (parts : List (List Char)) :
    2 * parts.length ≤ (quotedParts d parts).length := by
  have hquotes (part : List Char) : 2 ≤ (quotePart d part).length := by simp [quotePart]
  induction parts with
  | nil => simp
  | cons part parts ih =>
    have hpart := hquotes part
    cases parts with
    | nil => simpa [quotedParts] using hpart
    | cons part' parts =>
      rw [quotedParts_cons_cons]
      simp only [List.length_append, List.length_cons] at ih ⊢
      omega

/-- Reading loses nothing of a text, and leaves nothing that would belong to the names. -/
theorem quotedParts_of_readNamesWith (h : readNamesWith d.quote fuel s = some (parts, rest)) :
    parts ≠ [] ∧ d.quote :: s = quotedParts d parts ++ rest ∧ EndsNames d rest := by
  induction fuel generalizing s parts rest with
  | zero => cases h
  | succ fuel ih =>
    obtain ⟨⟨part, rest'⟩, hread, hstep⟩ := Option.bind_eq_some_iff.1 h
    obtain ⟨rfl, hquote⟩ := eq_doubled_of_readName? hread
    cases hdot : ['.', d.quote].isPrefixOf? rest' with
    | none =>
      simp only [hdot] at hstep
      cases hstep
      exact ⟨by simp, by simp [quotedParts, quotePart], hquote,
        isPrefixOf?_eq_none_iff.1 hdot⟩
    | some next =>
      simp only [hdot] at hstep
      obtain ⟨⟨parts, rest⟩, hnext, heq⟩ := Option.map_eq_some_iff.1 hstep
      cases heq
      obtain rfl := List.append_eq_of_isPrefixOf?_eq_some hdot
      obtain ⟨hne, hs, hrest⟩ := ih hnext
      obtain ⟨part', parts, rfl⟩ := List.exists_cons_of_ne_nil hne
      exact ⟨by simp, by simp [quotedParts_cons_cons, quotePart, ← hs], hrest⟩

theorem readNamesWith_quotedParts (hne : parts ≠ []) (hfuel : parts.length ≤ fuel)
    (hs : d.quote :: s = quotedParts d parts ++ rest) (hrest : EndsNames d rest) :
    readNamesWith d.quote fuel s = some (parts, rest) := by
  -- the first quote of a name is taken off together with the dot before it, so that the reader stands
  -- at the same place in front of each part
  induction parts generalizing fuel s with
  | nil => exact absurd rfl hne
  | cons part parts ih =>
    obtain ⟨n, rfl⟩ : ∃ n, fuel = n + 1 := ⟨fuel - 1, by simp at hfuel; omega⟩
    cases parts with
    | nil =>
      obtain rfl : s = doubled d.quote part ++ d.quote :: rest := by
        simpa [quotedParts, quotePart] using hs
      have hread := readName?_doubled part hrest.1
      have hdot := isPrefixOf?_eq_none_iff.2 hrest.2
      simp [readNamesWith, hread, hdot]
    | cons part' parts =>
      obtain ⟨t, ht⟩ := quotedParts_eq_cons d (List.cons_ne_nil part' parts)
      obtain rfl : s = doubled d.quote part ++ d.quote :: '.' :: d.quote :: (t ++ rest) := by
        simpa [quotedParts_cons_cons, quotePart, ht] using hs
      have hread : readName? d.quote
          (doubled d.quote part ++ d.quote :: '.' :: d.quote :: (t ++ rest)) =
            some (part, '.' :: d.quote :: (t ++ rest)) :=
        readName?_doubled part (by simpa using dot_ne_quote d)
      have hdot : ['.', d.quote].isPrefixOf? ('.' :: d.quote :: (t ++ rest)) = some (t ++ rest) :=
        List.isPrefixOf?_eq_some_iff_append_eq.2 rfl
      have hnext : readNamesWith d.quote n (t ++ rest) = some (part' :: parts, rest) :=
        ih (List.cons_ne_nil _ _) (by simpa using hfuel) (by rw [ht, List.cons_append])
      simp [readNamesWith, hread, hdot, hnext]

theorem readNames?_eq_some_iff : readNames? d s = some (parts, rest) ↔
    parts ≠ [] ∧ s = quotedParts d parts ++ rest ∧ EndsNames d rest := by
  constructor
  · intro h
    cases s with
    | nil => cases h
    | cons c s =>
      obtain ⟨rfl, hread⟩ := Option.ite_none_right_eq_some.1 h
      exact quotedParts_of_readNamesWith hread
  · rintro ⟨hne, rfl, hrest⟩
    obtain ⟨t, ht⟩ := quotedParts_eq_cons d hne
    have hs : quotedParts d parts ++ rest = d.quote :: (t ++ rest) := by rw [ht, List.cons_append]
    have hfuel : parts.length ≤ (t ++ rest).length := by
      have hlength := length_le_quotedParts d parts
      have hpos := List.length_pos_iff.2 hne
      rw [ht, List.length_cons] at hlength
      rw [List.length_append]
      omega
    rw [hs, readNames?, if_pos rfl]
    exact readNamesWith_quotedParts hne hfuel hs.symm hrest

end

section

variable (d : Dialect) (name : String)

theorem write_intercalate (c : Char) (runs : List (List Token)) :
    write d (List.intercalate [.mark c] runs) = [c].intercalate (runs.map (write d)) := by
  induction runs with
  | nil => rfl
  | cons run runs ih =>
    cases runs with
    | nil => simp
    | cons run' runs =>
      calc write d (List.intercalate [.mark c] (run :: run' :: runs))
          = write d run ++ c :: write d (List.intercalate [.mark c] (run' :: runs)) := by
            simp [List.intercalate_cons_cons, write, Token.write]
        _ = write d run ++ c :: [c].intercalate ((run' :: runs).map (write d)) := by rw [ih]
        _ = [c].intercalate ((run :: run' :: runs).map (write d)) := by
            simp [List.intercalate_cons_cons]

theorem toList_quoteIdentifier :
    (quoteIdentifier d name).toList = quotedParts d (List.splitOn '.' name.toList) := by
  have hpart : write d ∘ (fun part => [Token.name part]) = quotePart d :=
    funext fun part => List.append_nil _
  rw [quoteIdentifier, text, String.toList_ofList, identifier, write_intercalate, List.map_map, hpart,
    quotedParts]

/-- A text reads as the parts of a name exactly if it is the name's quoted form with an end to it. -/
theorem readNames?_eq_parts_iff {s rest : List Char} :
    readNames? d s = some (List.splitOn '.' name.toList, rest) ↔
      s = (quoteIdentifier d name).toList ++ rest ∧ EndsNames d rest := by
  rw [readNames?_eq_some_iff, toList_quoteIdentifier]
  exact and_iff_right (List.splitOn_ne_nil _ _)

theorem readNames?_quoteIdentifier :
    readNames? d (quoteIdentifier d name).toList = some (List.splitOn '.' name.toList, []) :=
  (readNames?_eq_parts_iff d name).2 ⟨(List.append_nil _).symm, by simp [EndsNames]⟩

/-- The quoted form of a name reads, to its last quote, as the parts of the name. No other text does,
and whatever text follows without going on with the names is left. So names that are quoted alike are
the same, whatever quotes and dots they hold. -/
theorem quoting_undone :
    readNames? d (quoteIdentifier d name).toList = some (List.splitOn '.' name.toList, []) ∧
      (∀ s rest, readNames? d s = some (List.splitOn '.' name.toList, rest) ↔
        s = (quoteIdentifier d name).toList ++ rest ∧ EndsNames d rest) ∧
      ∀ other, quoteIdentifier d other = quoteIdentifier d name ↔ other = name := by
  refine ⟨readNames?_quoteIdentifier d name, fun s rest => readNames?_eq_parts_iff d name,
    fun other => ⟨fun h => ?_, congrArg _⟩⟩
  have hread := readNames?_quoteIdentifier d other
  rw [h, readNames?_quoteIdentifier d name] at hread
  have hparts : List.splitOn '.' name.toList = List.splitOn '.' other.toList :=
    congrArg Prod.fst (Option.some.inj hread)
  exact (String.toList_inj.1 (Text.splitOn_inj.1 hparts)).symm

example : readNames? .postgres "\"\"\"\".\"\".\"a\"\"\" = $1".toList =
    some ([['"'], [], ['a', '"']], " = $1".toList) := by decide +kernel

end

end Recordkeeper.Sql
