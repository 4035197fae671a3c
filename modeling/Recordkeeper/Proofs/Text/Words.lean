import Recordkeeper.Proofs.Numeral
import Recordkeeper.Text.Blank

set_option autoImplicit false

namespace Recordkeeper.Text

def Blanks (s : List Char) : Prop := ∀ c ∈ s, isBlank c = true

theorem blanks_of_all {s : List Char} (h : s.all isBlank = true) : Blanks s := List.all_eq_true.1 h

structure Word (w : List Char) : Prop where
  ne_nil : w ≠ []
  unbroken : ∀ c ∈ w, isBlank c = false

theorem blanks_nil : Blanks [] := by simp [Blanks]

theorem words_append_cons {c : Char} (hc : isBlank c = true) (s t : List Char) :
    words (s ++ c :: t) = words s ++ words t := by
  rw [words, List.splitOnP_append_cons s t hc, List.filter_append, words, words]

theorem words_nil : words [] = [] := rfl

theorem words_blanks_append {s : List Char} (hs : Blanks s) (t : List Char) :
    words (s ++ t) = words t := by
  induction s with
  | nil => rfl
  | cons c s ih =>
    obtain ⟨hc, hs⟩ := List.forall_mem_cons.1 hs
    rw [List.cons_append, ← ih hs]
    exact words_append_cons hc [] (s ++ t)

theorem words_append_blanks {t : List Char} (ht : Blanks t) (s : List Char) :
    words (s ++ t) = words s := by
  cases t with
  | nil => rw [List.append_nil]
  | cons c t =>
    obtain ⟨hc, ht⟩ := List.forall_mem_cons.1 ht
    have hnone : words t = [] := by simpa [words_nil] using words_blanks_append ht []
    rw [words_append_cons hc, hnone, List.append_nil]

theorem words_word {w : List Char} (hw : Word w) : words w = [w] := by
  rw [words, List.splitOnP_eq_singleton hw.unbroken]
  simp [hw.ne_nil]

theorem words_word_append {w s : List Char} (hw : Word w) (hs : ∀ c ∈ s.head?, isBlank c = true) :
    words (w ++ s) = w :: words s := by
  cases s with
  | nil => rw [List.append_nil, words_word hw, words_nil]
  | cons c s =>
    have hc : isBlank c = true := hs c rfl
    rw [words_append_cons hc, words_word hw]
    exact congrArg (w :: ·) (words_append_cons hc [] s).symm

theorem blanks_or_word (s : List Char) :
    Blanks s ∨ ∃ before w after, Blanks before ∧ Word w ∧ (∀ c ∈ after.head?, isBlank c = true) ∧
      s = before ++ w ++ after := by
  have hbefore : Blanks (s.takeWhile isBlank) := List.all_eq_true.1 List.all_takeWhile
  have hs := List.takeWhile_append_dropWhile (p := isBlank) (l := s)
  cases hrest : s.dropWhile isBlank with
  | nil =>
    rw [hrest, List.append_nil] at hs
    exact .inl (hs ▸ hbefore)
  | cons c rest =>
    have hc : isBlank c = false := by
      have := List.head?_dropWhile_not isBlank s
      simpa [hrest] using this
    refine .inr ⟨_, (c :: rest).takeWhile (! isBlank ·), (c :: rest).dropWhile (! isBlank ·),
      hbefore, ⟨by simp [hc], ?_⟩, ?_, ?_⟩
    · intro d hd
      simpa using List.all_eq_true.1 List.all_takeWhile d hd
    · intro d hd
      have := List.head?_dropWhile_not (! isBlank ·) (c :: rest)
      rw [hd] at this
      simpa using this
    · rw [List.append_assoc, List.takeWhile_append_dropWhile, ← hrest, hs]

theorem words_eq_nil {s : List Char} : words s = [] ↔ Blanks s := by
  constructor
  · intro h
    rcases blanks_or_word s with hs | ⟨before, w, after, hbefore, hw, hafter, rfl⟩
    · exact hs
    · rw [List.append_assoc, words_blanks_append hbefore, words_word_append hw hafter] at h
      cases h
  · intro hs
    simpa [words_nil] using words_append_blanks hs []

theorem words_eq_cons {s w : List Char} {ws : List (List Char)} :
    words s = w :: ws ↔ ∃ before after, Blanks before ∧ Word w ∧
      (∀ c ∈ after.head?, isBlank c = true) ∧ s = before ++ w ++ after ∧ words after = ws := by
  constructor
  · intro h
    rcases blanks_or_word s with hs | ⟨before, w', after, hbefore, hw, hafter, rfl⟩
    · cases h.symm.trans (words_eq_nil.2 hs)
    · rw [List.append_assoc, words_blanks_append hbefore, words_word_append hw hafter] at h
      obtain ⟨rfl, rfl⟩ := List.cons_eq_cons.1 h
      exact ⟨before, after, hbefore, hw, hafter, rfl, rfl⟩
  · rintro ⟨before, after, hbefore, hw, hafter, rfl, rfl⟩
    rw [List.append_assoc, words_blanks_append hbefore, words_word_append hw hafter]

theorem exists_blanks_trim (s : List Char) :
    ∃ before after, Blanks before ∧ Blanks after ∧ s = before ++ trim s ++ after := by
  have htake (t : List Char) : Blanks (t.takeWhile isBlank) :=
    List.all_eq_true.1 List.all_takeWhile
  refine ⟨s.takeWhile isBlank, ((trimStart s).reverse.takeWhile isBlank).reverse, htake s, ?_, ?_⟩
  · exact fun c hc => htake _ c (List.mem_reverse.1 hc)
  · have hend : trim s ++ ((trimStart s).reverse.takeWhile isBlank).reverse = trimStart s := by
      rw [trim, trimEnd, ← List.reverse_append, List.takeWhile_append_dropWhile,
        List.reverse_reverse]
    rw [List.append_assoc, hend, trimStart, List.takeWhile_append_dropWhile]

theorem trim_eq_nil {s : List Char} : trim s = [] ↔ Blanks s := by
  constructor
  · intro h
    obtain ⟨before, after, hbefore, hafter, hs⟩ := exists_blanks_trim s
    rw [hs, h, List.append_nil]
    exact List.forall_mem_append.2 ⟨hbefore, hafter⟩
  · intro hs
    have hnone : trimStart s = [] := by
      simpa [trimStart] using (span_append (s := []) hs (by simp)).2
    rw [trim, hnone]
    rfl

theorem splitOn_append_left {sep : Char} {s : List Char} (hs : sep ∉ s) (t : List Char) :
    ∃ first rest, t.splitOn sep = first :: rest ∧ (s ++ t).splitOn sep = (s ++ first) :: rest := by
  by_cases ht : sep ∈ t
  · obtain ⟨u, v, rfl, hu⟩ := List.eq_append_cons_of_mem ht
    have hsu : sep ∉ s ++ u := by simp [hs, hu]
    refine ⟨u, v.splitOn sep, List.splitOn_append_cons_self_of_not_mem hu v, ?_⟩
    rw [← List.append_assoc, List.splitOn_append_cons_self_of_not_mem hsu]
  · exact ⟨t, [], List.splitOn_eq_singleton ht, List.splitOn_eq_singleton (by simp [hs, ht])⟩

theorem splitOn_append_right {sep : Char} {t : List Char} (ht : sep ∉ t) (s : List Char) :
    ∃ front last, s.splitOn sep = front ++ [last] ∧ (s ++ t).splitOn sep = front ++ [last ++ t] := by
  induction hn : s.length using Nat.strongRecOn generalizing s with
  | ind n ih =>
    by_cases hs : sep ∈ s
    · obtain ⟨u, v, rfl, hu⟩ := List.eq_append_cons_of_mem hs
      obtain ⟨front, last, hv, hvt⟩ := ih v.length (by simp at hn; omega) v rfl
      refine ⟨u :: front, last, ?_, ?_⟩
      · rw [List.splitOn_append_cons_self_of_not_mem hu, hv, List.cons_append]
      · rw [List.append_assoc, List.cons_append, List.splitOn_append_cons_self_of_not_mem hu, hvt,
          List.cons_append]
    · exact ⟨[], s, List.splitOn_eq_singleton hs, List.splitOn_eq_singleton (by simp [hs, ht])⟩

theorem map_words_splitOn_trim {sep : Char} (hsep : isBlank sep = false) (s : List Char) :
    ((trim s).splitOn sep).map words = (s.splitOn sep).map words := by
  have hmem {b : List Char} (hb : Blanks b) : sep ∉ b := fun h =>
    Bool.false_ne_true (hsep.symm.trans (hb sep h))
  obtain ⟨before, after, hbefore, hafter, hs⟩ := exists_blanks_trim s
  obtain ⟨first, rest, htrim, hfront⟩ := splitOn_append_left (hmem hbefore) (trim s)
  obtain ⟨front, last, hlast, hwhole⟩ := splitOn_append_right (hmem hafter) (before ++ trim s)
  rw [← hs] at hwhole
  calc ((trim s).splitOn sep).map words = ((before ++ trim s).splitOn sep).map words := by
        rw [htrim, hfront, List.map_cons, List.map_cons, words_blanks_append hbefore]
    _ = (s.splitOn sep).map words := by
        rw [hlast, hwhole, List.map_append, List.map_append, List.map_singleton, List.map_singleton,
          words_append_blanks hafter]

end Recordkeeper.Text
