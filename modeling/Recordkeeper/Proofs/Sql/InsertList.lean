import Recordkeeper.Proofs.Sql.SetList

set_option autoImplicit false

namespace Recordkeeper.Sql

def listBetween (first last : Token) (ts : List Token) : List (List Token) :=
  (between first last ts).splitOn (.mark ',')

def insertItems? (ts : List Token) : Option (List SetItem) :=
  if .word "DEFAULT" ∈ ts then some []
  else do
    let columns ← (listBetween (.mark '(') (.mark ')') ts).mapM name?
    let origins ← (listBetween (.word "SELECT") (.word "FROM") ts).mapM origin?
    if columns.length = origins.length then some (columns.zipWith SetItem.mk origins) else none

def insertList? (text : String) : Option (List SetItem) := do
  let ts ← read? .postgres text.toList
  insertItems? (compact ts)

theorem partsOf_inj {name other : String} : partsOf name = partsOf other ↔ name = other := by
  rw [partsOf, partsOf, Text.splitOn_inj, String.toList_inj]

section

variable (table : String) (columns : List Assignment)

def columnRuns : List (List Token) := columns.map fun a => identifier a.1

def sourceRuns : List (List Token) := columns.map fun a => sourceTokens a.1 a.2

theorem not_mem_columnRuns {t : Token} (hdot : t ≠ .mark '.') (hname : ∀ part, t ≠ .name part) :
    ∀ run ∈ columnRuns columns, t ∉ run := by
  intro run hrun
  obtain ⟨a, -, rfl⟩ := List.mem_map.1 hrun
  exact not_mem_identifier hdot hname

theorem not_mem_sourceRuns {t : Token} (hmark : t ∉ sourceMarks) (hname : ∀ part, t ≠ .name part) :
    ∀ run ∈ sourceRuns columns, t ∉ run := by
  intro run hrun
  obtain ⟨a, -, rfl⟩ := List.mem_map.1 hrun
  exact not_mem_sourceTokens hmark hname

theorem compact_runs {runs : List (List Token)} (h : ∀ run ∈ runs, blank ∉ run) :
    compact (commaSeparated runs) = List.intercalate [.mark ','] runs := by
  have hruns : runs.map compact = runs := by
    conv_rhs => rw [← List.map_id runs]
    exact List.map_congr_left fun run hrun => compact_eq_self (h run hrun)
  rw [commaSeparated, compact_intercalate, hruns]
  rfl

/-- Without blanks, an INSERT is its two lists between the tokens around them. -/
theorem compact_insertTokens (h : columns ≠ []) : ∃ rest, .word "DEFAULT" ∉ rest ∧
    compact (insertTokens table columns) =
      .word "INSERT" :: .word "INTO" :: (identifier table ++ .mark '(' ::
        (List.intercalate [.mark ','] (columnRuns columns) ++ .mark ')' :: .word "SELECT" ::
          (List.intercalate [.mark ','] (sourceRuns columns) ++ .word "FROM" :: rest))) := by
  have htable : compact (identifier table) = identifier table :=
    compact_eq_self (not_mem_identifier (by decide) (by simp [blank]))
  have hcolumns : compact (commaSeparated (columnRuns columns)) =
      List.intercalate [.mark ','] (columnRuns columns) :=
    compact_runs (not_mem_columnRuns columns (by decide) (by simp [blank]))
  have hsources : compact (commaSeparated (sourceRuns columns)) =
      List.intercalate [.mark ','] (sourceRuns columns) :=
    compact_runs (not_mem_sourceRuns columns (by decide) (by simp [blank]))
  have hshape : insertTokens table columns = phrase ["INSERT", "INTO"] ++ blank ::
      (identifier table ++ blank :: (parenthesized (commaSeparated (columnRuns columns)) ++
        blank :: .word "SELECT" :: blank :: (commaSeparated (sourceRuns columns) ++
          blank :: .word "FROM" :: blank :: (recordTokens table ++ returningTokens table)))) := by
    simp [insertTokens, h, columnRuns, sourceRuns]
  refine ⟨compact (recordTokens table ++ returningTokens table), fun hmem => ?_, ?_⟩
  · have hdefault : .word "DEFAULT" ∉ identifier table :=
      not_mem_identifier (by decide) (by simp)
    have hrest := List.mem_of_mem_filter hmem
    simp [recordTokens, returningTokens, rowTokens, parenthesized, phrase, blank, hdefault] at hrest
  · simp [hshape, phrase, parenthesized, compact_mark, htable, hcolumns, hsources]

theorem listBetween_eq {first last : Token} {before rest : List Token} {runs : List (List Token)}
    (hne : runs ≠ []) (hbefore : first ∉ before) (hlast : last ≠ .mark ',')
    (hruns : ∀ run ∈ runs, last ∉ run) (hcomma : ∀ run ∈ runs, .mark ',' ∉ run) :
    listBetween first last (before ++ first :: (List.intercalate [.mark ','] runs ++ last :: rest)) =
      runs := by
  have hinside : last ∉ List.intercalate [.mark ','] runs :=
    not_mem_intercalate (by simpa using hlast) hruns
  rw [listBetween, between_eq hbefore hinside, List.splitOn_intercalate _ hcomma hne]

variable {columns}

theorem listBetween_columns (h : columns ≠ []) :
    listBetween (.mark '(') (.mark ')') (compact (insertTokens table columns)) =
      columnRuns columns := by
  obtain ⟨rest, -, hrest⟩ := compact_insertTokens table columns h
  have hbefore : .mark '(' ∉ .word "INSERT" :: .word "INTO" :: identifier table := by
    simpa using not_mem_identifier (t := .mark '(') (by decide) (by simp)
  rw [hrest, ← List.cons_append, ← List.cons_append]
  refine listBetween_eq (by simpa [columnRuns] using h) hbefore (by decide) ?_ ?_
  · exact not_mem_columnRuns columns (by decide) (by simp)
  · exact not_mem_columnRuns columns (by decide) (by simp)

theorem listBetween_sources (h : columns ≠ []) :
    listBetween (.word "SELECT") (.word "FROM") (compact (insertTokens table columns)) =
      sourceRuns columns := by
  obtain ⟨rest, -, hrest⟩ := compact_insertTokens table columns h
  have hcolumns : .word "SELECT" ∉ List.intercalate [.mark ','] (columnRuns columns) :=
    not_mem_intercalate (by simp) (not_mem_columnRuns columns (by decide) (by simp))
  have hbefore : .word "SELECT" ∉ .word "INSERT" :: .word "INTO" :: (identifier table ++
      .mark '(' :: (List.intercalate [.mark ','] (columnRuns columns) ++ [.mark ')'])) := by
    simpa [hcolumns] using not_mem_identifier (t := .word "SELECT") (by decide) (by simp)
  have hsplit : compact (insertTokens table columns) =
      (.word "INSERT" :: .word "INTO" :: (identifier table ++ .mark '(' ::
        (List.intercalate [.mark ','] (columnRuns columns) ++ [.mark ')']))) ++ .word "SELECT" ::
          (List.intercalate [.mark ','] (sourceRuns columns) ++ .word "FROM" :: rest) := by
    simp [hrest]
  rw [hsplit]
  refine listBetween_eq (by simpa [sourceRuns] using h) hbefore (by decide) ?_ ?_
  · exact not_mem_sourceRuns columns (by decide) (by simp)
  · exact not_mem_sourceRuns columns (by decide) (by simp)

theorem default_not_mem (h : columns ≠ []) :
    .word "DEFAULT" ∉ compact (insertTokens table columns) := by
  obtain ⟨rest, hrest, hcompact⟩ := compact_insertTokens table columns h
  have htable : .word "DEFAULT" ∉ identifier table := not_mem_identifier (by decide) (by simp)
  have hcolumns : .word "DEFAULT" ∉ List.intercalate [.mark ','] (columnRuns columns) :=
    not_mem_intercalate (by simp) (not_mem_columnRuns columns (by decide) (by simp))
  have hsources : .word "DEFAULT" ∉ List.intercalate [.mark ','] (sourceRuns columns) :=
    not_mem_intercalate (by simp) (not_mem_sourceRuns columns (by decide) (by simp))
  simp [hcompact, htable, hcolumns, hsources, hrest]

theorem mapM_columnRuns (columns : List Assignment) :
    (columnRuns columns).mapM name? = some (columns.map fun a => (Assignment.item a).column) := by
  have hread : name? ∘ (fun a : Assignment => identifier a.1) =
      fun a => pure (Assignment.item a).column := funext fun a => name?_identifier a.1
  rw [columnRuns, List.mapM_map, hread, List.mapM_pure]
  rfl

theorem mapM_sourceRuns (columns : List Assignment) :
    (sourceRuns columns).mapM origin? = some (columns.map fun a => (Assignment.item a).origin) := by
  have hread : origin? ∘ (fun a : Assignment => sourceTokens a.1 a.2) =
      fun a => pure (Assignment.item a).origin := funext origin?_sourceTokens
  rw [sourceRuns, List.mapM_map, hread, List.mapM_pure]
  rfl

theorem insertItems?_insertTokens (columns : List Assignment) :
    insertItems? (compact (insertTokens table columns)) = some (columns.map Assignment.item) := by
  by_cases h : columns = []
  · subst h
    have hdefault : .word "DEFAULT" ∈ compact (insertTokens table []) := by
      simp [insertTokens, phrase]
    simp [insertItems?, hdefault]
  · simp [insertItems?, default_not_mem table h, listBetween_columns table h,
      listBetween_sources table h, mapM_columnRuns, mapM_sourceRuns]

theorem readable_rowTokens : Readable (rowTokens table) :=
  (legible_projection (N := fun _ => True) (d := .postgres) fun _ _ => trivial).readable

theorem readable_returningTokens : Readable (returningTokens table) :=
  ((readable_rowTokens table).blank.word (by decide) (markFirst_mark _ _)).blank

theorem readable_insertTokens (columns : List Assignment) :
    Readable (insertTokens table columns) := by
  have hcolumns : Readable (commaSeparated (columns.map fun a => identifier a.1)) := by
    refine readable_commaSeparated fun run hrun => ?_
    obtain ⟨a, -, rfl⟩ := List.mem_map.1 hrun
    exact readable_identifier a.1
  have hsources : Readable (commaSeparated (columns.map fun a => sourceTokens a.1 a.2)) := by
    refine readable_commaSeparated fun run hrun => ?_
    obtain ⟨a, -, rfl⟩ := List.mem_map.1 hrun
    exact readable_sourceTokens a
  have hfrom := ((readable_recordTokens table).blank.word (w := "FROM") (by decide)
    (markFirst_mark _ _)).blank
  have hselect := ((hsources.append hfrom (.inr (markFirst_mark _ _))).blank.word (w := "SELECT")
    (by decide) (markFirst_mark _ _)).blank
  have hlists := hcolumns.parenthesized.append hselect (.inr (markFirst_mark _ _))
  have hinto {what : List Token} (h : Readable what) : Readable (phrase ["INSERT", "INTO"] ++
      blank :: (identifier table ++ blank :: (what ++ returningTokens table))) := by
    have hrow := h.append (readable_returningTokens table) (.inr (markFirst_mark _ _))
    have htable := (readable_identifier table).append hrow.blank (.inr (markFirst_mark _ _))
    exact (readable_phrase (by decide)).append htable.blank (.inr (markFirst_mark _ _))
  unfold insertTokens
  split
  · exact hinto (readable_phrase (by decide))
  · exact hinto hlists

/-- An INSERT reads as the columns it was written for, with the source of each. -/
theorem insertList?_insertTokens (columns : List Assignment) :
    insertList? (text .postgres (insertTokens table columns)) =
      some (columns.map Assignment.item) := by
  simp [insertList?, (readable_insertTokens table columns).read, insertItems?_insertTokens]

example :
    insertList? "INSERT INTO \"t\" (\"a.b\", \"at\") SELECT r.\"a.b\", now() FROM \"t\"" =
      some [⟨["a.b".toList], .record ["a.b".toList]⟩, ⟨["at".toList], .now⟩] := by
  decide +kernel

end

end Recordkeeper.Sql
