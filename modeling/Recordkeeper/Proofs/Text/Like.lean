import Mathlib.Data.List.Forall2
import Recordkeeper.Text.Like

set_option autoImplicit false

namespace Recordkeeper.Text

inductive Spans : Char → List Char → Prop where
  | run (piece : List Char) : Spans '%' piece
  | one (c : Char) : Spans '_' [c]
  | same (c : Char) : c ≠ '%' → c ≠ '_' → Spans c [c]

/-- The text falls into pieces, one for each character of the pattern. -/
def LaidOver (pattern text : List Char) : Prop :=
  ∃ pieces : List (List Char), List.Forall₂ Spans pattern pieces ∧ text = pieces.flatten

theorem spans_iff {p : Char} (hp : p ≠ '%') {piece : List Char} :
    Spans p piece ↔ ∃ c, piece = [c] ∧ (p = '_' ∨ p = c) := by
  constructor
  · intro h
    cases h with
    | run => exact absurd rfl hp
    | one c => exact ⟨c, rfl, .inl rfl⟩
    | same => exact ⟨p, rfl, .inr rfl⟩
  · rintro ⟨c, rfl, rfl | rfl⟩
    · exact .one c
    · by_cases hone : p = '_'
      · subst hone
        exact .one '_'
      · exact .same p hp hone

theorem laidOver_nil {text : List Char} : LaidOver [] text ↔ text = [] := by
  simp [LaidOver]

theorem laidOver_cons {p : Char} {ps text : List Char} :
    LaidOver (p :: ps) text ↔
      ∃ piece rest, Spans p piece ∧ LaidOver ps rest ∧ text = piece ++ rest := by
  constructor
  · rintro ⟨pieces, h, rfl⟩
    obtain ⟨piece, pieces, hp, hps, rfl⟩ := List.forall₂_cons_left_iff.1 h
    exact ⟨piece, pieces.flatten, hp, ⟨pieces, hps, rfl⟩, rfl⟩
  · rintro ⟨piece, rest, hp, ⟨pieces, hps, rfl⟩, rfl⟩
    exact ⟨piece :: pieces, .cons hp hps, rfl⟩

theorem laidOver_run_nil {ps : List Char} : LaidOver ('%' :: ps) [] ↔ LaidOver ps [] := by
  rw [laidOver_cons]
  constructor
  · rintro ⟨piece, rest, -, h, heq⟩
    obtain ⟨rfl, rfl⟩ := List.append_eq_nil_iff.1 heq.symm
    exact h
  · intro h
    exact ⟨[], [], .run [], h, rfl⟩

theorem laidOver_run_cons {ps text : List Char} {c : Char} :
    LaidOver ('%' :: ps) (c :: text) ↔ LaidOver ps (c :: text) ∨ LaidOver ('%' :: ps) text := by
  simp only [laidOver_cons (p := '%')]
  constructor
  · rintro ⟨piece, rest, -, h, heq⟩
    cases piece with
    | nil => exact .inl (heq ▸ h)
    | cons d piece =>
      obtain ⟨rfl, rfl⟩ := List.cons_eq_cons.1 heq
      exact .inr ⟨piece, rest, .run piece, h, rfl⟩
  · rintro (h | ⟨piece, rest, -, h, rfl⟩)
    · exact ⟨[], c :: text, .run [], h, rfl⟩
    · exact ⟨c :: piece, rest, .run (c :: piece), h, rfl⟩

theorem not_laidOver_single_nil {p : Char} (hp : p ≠ '%') (ps : List Char) :
    ¬ LaidOver (p :: ps) [] := by
  simp [laidOver_cons, spans_iff hp]

theorem laidOver_single_cons {p : Char} (hp : p ≠ '%') {ps text : List Char} {c : Char} :
    LaidOver (p :: ps) (c :: text) ↔ (p = '_' ∨ p = c) ∧ LaidOver ps text := by
  rw [laidOver_cons]
  constructor
  · rintro ⟨piece, rest, hspans, h, heq⟩
    obtain ⟨d, rfl, hd⟩ := (spans_iff hp).1 hspans
    obtain ⟨rfl, rfl⟩ := List.cons_eq_cons.1 heq
    exact ⟨hd, h⟩
  · rintro ⟨hc, h⟩
    exact ⟨[c], text, (spans_iff hp).2 ⟨c, rfl, hc⟩, h, rfl⟩

theorem Spans.reverse {p : Char} {piece : List Char} (h : Spans p piece) :
    Spans p piece.reverse := by
  cases h with
  | run => exact .run _
  | one c => exact .one c
  | same _ hrun hone => exact .same p hrun hone

theorem LaidOver.reverse {pattern text : List Char} (h : LaidOver pattern text) :
    LaidOver pattern.reverse text.reverse := by
  obtain ⟨pieces, hpieces, rfl⟩ := h
  refine ⟨(pieces.map List.reverse).reverse, ?_, List.reverse_flatten⟩
  refine List.rel_reverse (List.forall₂_map_right_iff.2 ?_)
  exact hpieces.imp fun _ _ => Spans.reverse

theorem laidOver_reverse {pattern text : List Char} :
    LaidOver pattern.reverse text.reverse ↔ LaidOver pattern text :=
  ⟨fun h => by simpa using h.reverse, LaidOver.reverse⟩

/-- The places of a row tell which prefixes of a pattern cover what was read of a text. Prefixes and
text stand backwards, the last character first. -/
inductive Marks (seen : List Char) : List Char → List Char → List Bool → Prop where
  | last {done : List Char} {b : Bool} : (b = true ↔ LaidOver done seen) → Marks seen done [] [b]
  | next {done rest : List Char} {p : Char} {b : Bool} {row : List Bool} :
      (b = true ↔ LaidOver done seen) → Marks seen (p :: done) rest row →
      Marks seen done (p :: rest) (b :: row)

variable {seen done rest : List Char} {row : List Bool} {here : Bool}

theorem Marks.head (h : Marks seen done rest row) :
    ∃ b later, row = b :: later ∧ (b = true ↔ LaidOver done seen) := by
  cases h with
  | last hb => exact ⟨_, [], rfl, hb⟩
  | next hb => exact ⟨_, _, rfl, hb⟩

theorem marks_rowOfNothing (h : here = true ↔ LaidOver done []) :
    Marks [] done rest (rowOfNothing here rest) := by
  induction rest generalizing done here with
  | nil => exact .last h
  | cons p rest ih =>
    refine .next h (ih ?_)
    by_cases hp : p = '%'
    · subst hp
      simp [laidOver_run_nil, h]
    · simp [hp, not_laidOver_single_nil hp]

/-- One more character of the text turns the row of what was read before into the row of all. -/
theorem Marks.nextRow {c : Char} (h : Marks seen done rest row)
    (hhere : here = true ↔ LaidOver done (c :: seen)) :
    Marks (c :: seen) done rest (nextRow c here rest row) := by
  induction h generalizing here with
  | last => exact .last hhere
  | @next done rest p before row hbefore hrest ih =>
    obtain ⟨passed, later, rfl, hpassed⟩ := hrest.head
    refine .next hhere (ih ?_)
    by_cases hp : p = '%'
    · subst hp
      simp [laidOver_run_cons, hhere, hpassed]
    · rw [laidOver_single_cons hp, ← hbefore]
      by_cases hone : p = '_' <;> simp [hp, hone, and_comm]

theorem Marks.read (h : Marks seen [] rest row) (text : List Char) :
    Marks (text.reverse ++ seen) [] rest
      (text.foldl (fun row c => Text.nextRow c false rest row) row) := by
  induction text generalizing seen row with
  | nil => exact h
  | cons c text ih =>
    rw [List.foldl_cons, List.reverse_cons, List.append_assoc]
    exact ih (h.nextRow (by simp [laidOver_nil]))

theorem Marks.getLastD (h : Marks seen done rest row) (b : Bool) :
    row.getLastD b = true ↔ LaidOver (rest.reverse ++ done) seen := by
  induction h generalizing b with
  | last hb => exact hb
  | @next done rest p b' row hb hrest ih =>
    rw [List.getLastD_cons, ih, List.reverse_cons, List.append_assoc]
    rfl

theorem covers_iff_laidOver (pattern text : List Char) :
    covers pattern text = true ↔ LaidOver pattern text := by
  have hrow : Marks [] [] pattern (rowOfNothing true pattern) :=
    marks_rowOfNothing (by simp [laidOver_nil])
  have hread := (hrow.read text).getLastD false
  simp only [List.append_nil] at hread
  rw [covers, hread, laidOver_reverse]

/-- A pattern finds a text if and only if its characters, in lowercase, can be laid over the text in
lowercase: a percent sign over any run of characters, an underscore over any one of them, and every
other character over itself. -/
theorem like_iff_laidOver (text pattern : List Char) :
    like text pattern = true ↔ LaidOver (lower pattern) (lower text) :=
  covers_iff_laidOver (lower pattern) (lower text)

end Recordkeeper.Text
