import Recordkeeper.Proofs.Identity
import Recordkeeper.Proofs.Query.Composition
import Recordkeeper.Proofs.Query.Meaning
import Recordkeeper.Proofs.Identifier
import Recordkeeper.Proofs.Text.Lowercase

set_option autoImplicit false

namespace Recordkeeper

structure Table.Shows (t : Table) (e : Id × Row) (column : String) (text : List Char) : Prop where
  row : e ∈ t.rows
  live : e.2.isDeleted = false
  text : e.2.column e.1 column = .str (String.ofList text)

def Row.ofText (text : List Char) : Row := { data := [("value", .str (String.ofList text))] }

def Table.ofText (text : List Char) : Table := { rows := [(1, .ofText text)], counter := 1 }

theorem Table.ofText_shows (text : List Char) :
    (Table.ofText text).Shows (1, .ofText text) "value" text where
  row := List.mem_singleton_self _
  live := rfl
  text := rfl

namespace Filter

variable {f : Filter} {column needle : String} {t : Table} {e : Id × Row} {text : List Char}

structure LooksFor (f : Filter) (column needle : String) : Prop where
  asks : f.Asks .like
  columns : ∀ c ∈ f.likeFields, Identifier.isColumn c = true
  column : column ∈ f.likeFields
  needle : ∃ value, f.value = .str value ∧ needle ∈ likeNeedles value

/-- The filter by itself, however its request is compiled, finds the row of the table. -/
def Finds (f : Filter) (t : Table) (e : Id × Row) : Prop :=
  ∀ options, ∃ q found, f.alone.compile options = .ok q ∧ Table.matching q t.rows = .ok found ∧
    e ∈ found

theorem mem_likeTerms {fields needles : List String} {term : LikeTerm} :
    term ∈ likeTerms fields needles ↔
      ∃ field ∈ fields, ∃ needle ∈ needles, term = ⟨field, "%" ++ needle ++ "%"⟩ := by
  simp [likeTerms, List.mem_flatMap, eq_comm]

theorem LooksFor.compile (h : f.LooksFor column needle) :
    ∃ value, f.value = .str value ∧ needle ∈ likeNeedles value ∧
      f.compile = .ok (.constraint (.anyLike (likeTerms f.likeFields (likeNeedles value)))) := by
  obtain ⟨value, hvalue, hneedle⟩ := h.needle
  refine ⟨value, hvalue, hneedle, ?_⟩
  have hfield : f.field ≠ "" := fun hnone => by
    have hfields : f.likeFields = [] := by
      rw [likeFields, hnone]
      rfl
    exact absurd (hfields ▸ h.column) List.not_mem_nil
  have hcomplete := isComplete_of_operator hfield h.asks.operator (by rw [hvalue]; rfl)
  have hfields : f.likeFields.isEmpty = false :=
    List.isEmpty_eq_false_iff.2 (List.ne_nil_of_mem h.column)
  have hneedles : (likeNeedles value).isEmpty = false :=
    List.isEmpty_eq_false_iff.2 (List.ne_nil_of_mem hneedle)
  have hcolumns : f.likeFields.forM requireColumn = .ok () :=
    FirstFails.forM_eq_ok.2 fun c hc => if_pos (h.columns c hc)
  simp only [Filter.compile, hcomplete, h.asks.seen, h.asks.operator, compileLike, hvalue, hfields,
    hneedles, hcolumns]
  rfl

/-- No row makes a `like` filter fail, so those are found that one of its terms finds. -/
theorem finds_iff {terms : List LikeTerm} (h : f.compile = .ok (.constraint (.anyLike terms)))
    (he : e ∈ t.rows) (hlive : e.2.isDeleted = false) :
    f.Finds t e ↔ ∃ term ∈ terms, Matching.likeHolds (e.2.column e.1) term = true := by
  have hmatching : Table.matching (Query.add {} (.constraint (.anyLike terms))) t.rows = .ok
      (t.rows.filter fun e => !e.2.isDeleted && terms.any (Matching.likeHolds (e.2.column e.1))) :=
    Table.matching_decided fun e _ => Matching.satisfiesAll_singleton (e.2.column e.1) _
  have hsees : e ∈ t.rows.filter (fun e =>
      !e.2.isDeleted && terms.any (Matching.likeHolds (e.2.column e.1))) ↔
      ∃ term ∈ terms, Matching.likeHolds (e.2.column e.1) term = true := by
    simp [List.mem_filter, he, hlive]
  rw [← hsees]
  constructor
  · intro hfinds
    obtain ⟨q, found, hcompile, hfound, hmem⟩ := hfinds {}
    obtain rfl := Except.ok.inj ((FilterRequest.compile_alone_eq_ok h).symm.trans hcompile)
    obtain rfl := Except.ok.inj (hmatching.symm.trans hfound)
    exact hmem
  · exact fun hmem options => ⟨_, _, FilterRequest.compile_alone_eq_ok h, hmatching, hmem⟩

theorem likeHolds_shown (h : t.Shows e column text) :
    Matching.likeHolds (e.2.column e.1) ⟨column, "%" ++ needle ++ "%"⟩ =
      Text.like text ('%' :: needle.toList ++ ['%']) := by
  have hpattern : ("%" ++ needle ++ "%").toList = '%' :: needle.toList ++ ['%'] := by simp
  simp only [Matching.likeHolds, h.text, Matching.scalarText?, String.toList_ofList, hpattern]

theorem LooksFor.finds (h : f.LooksFor column needle) (hshows : t.Shows e column text)
    (hlike : Text.like text ('%' :: needle.toList ++ ['%']) = true) : f.Finds t e := by
  obtain ⟨value, -, hneedle, hcompile⟩ := h.compile
  refine (finds_iff hcompile hshows.row hshows.live).2 ⟨⟨column, "%" ++ needle ++ "%"⟩, ?_, ?_⟩
  · exact mem_likeTerms.2 ⟨column, h.column, needle, hneedle, rfl⟩
  · rw [likeHolds_shown hshows, hlike]

def plainLike (column needle : String) : Filter := ⟨column, "like", .str needle⟩

theorem likeFields_plainLike (h : Identifier.isColumn column = true) (needle : String) :
    (plainLike column needle).likeFields = [column] := by
  have hpath := Identifier.isRelationPath_of_isColumn h
  have hbar : separator ∉ column.toList :=
    Identifier.not_mem_of_isRelationPath hpath (by decide) (by decide)
  have hblank := Identifier.isBlank_of_isRelationPath hpath
  have hempty := Identifier.ne_nil_of_isRelationPath hpath
  simp [likeFields, plainLike, List.splitOn_eq_singleton hbar, Text.trim_eq_self hblank, hempty]

theorem likeNeedles_singleton (hne : needle ≠ "") (hbar : separator ∉ needle.toList) :
    likeNeedles needle = [needle] := by
  simp [likeNeedles, List.splitOn_eq_singleton hbar, hne]

theorem plainLike_looksFor (hne : needle ≠ "") (hbar : separator ∉ needle.toList)
    (hcolumn : Identifier.isColumn column = true) (hfield : column ≠ visibilityField) :
    (plainLike column needle).LooksFor column needle where
  asks := ⟨decide_eq_false hfield, show Operator.ofWord? "like" = some .like by decide +kernel⟩
  columns := by simpa [likeFields_plainLike hcolumn] using hcolumn
  column := by simp [likeFields_plainLike hcolumn]
  needle := ⟨needle, rfl, by simp [likeNeedles_singleton hne hbar]⟩

/-- The plain filter finds what its one pattern covers, and no more. -/
theorem plainLike_finds_iff (hne : needle ≠ "") (hbar : separator ∉ needle.toList)
    (hcolumn : Identifier.isColumn column = true) (hfield : column ≠ visibilityField)
    (hshows : t.Shows e column text) :
    (plainLike column needle).Finds t e ↔
      Text.like text ('%' :: needle.toList ++ ['%']) = true := by
  obtain ⟨value, hvalue, -, hcompile⟩ := (plainLike_looksFor hne hbar hcolumn hfield).compile
  obtain rfl := Json.str.inj hvalue
  rw [finds_iff hcompile hshows.row hshows.live, ← likeHolds_shown hshows,
    likeFields_plainLike hcolumn, likeNeedles_singleton hne hbar]
  simp [likeTerms]

/-- A needle without a bar is looked for by the filter that names it alone, and by every other that
has it among its needles. Each of them finds the live rows that hold the needle where its capital
sigmas keep their forms. The needle is found wherever it occurs if and only if no sigma of it has
its form from what may stand around it, as in a needle without one. -/
theorem finds_occurrences {needle : String} (hne : needle ≠ "") (hbar : separator ∉ needle.toList) :
    (∀ column, Identifier.isColumn column = true → column ≠ visibilityField →
      (⟨column, "like", .str needle⟩ : Filter).LooksFor column needle) ∧
    (∀ (f : Filter) (t : Table) (e : Id × Row) (column : String) (before after : List Char),
      f.LooksFor column needle → t.Shows e column (before ++ needle.toList ++ after) →
      Text.KeepsForms before needle.toList after → f.Finds t e) ∧
    ((∀ (f : Filter) (t : Table) (e : Id × Row) (column : String) (text : List Char),
      f.LooksFor column needle → t.Shows e column text → needle.toList <:+: text → f.Finds t e) ↔
      Text.SigmaSettled needle.toList) ∧
    ('Σ' ∉ needle.toList → Text.SigmaSettled needle.toList) := by
  refine ⟨fun column hcolumn hfield => plainLike_looksFor hne hbar hcolumn hfield, ?_, ⟨?_, ?_⟩,
    Text.sigmaSettled_of_not_mem⟩
  · intro f t e column before after hlooks hshows hforms
    exact hlooks.finds hshows (Text.like_of_keepsForms hforms)
  · intro hall
    have hcolumn : Identifier.isColumn "value" = true := by decide
    have hfield : "value" ≠ visibilityField := by decide
    refine Text.sigmaSettled_iff.2 fun before after => ?_
    have hshows := Table.ofText_shows (before ++ needle.toList ++ after)
    exact (plainLike_finds_iff hne hbar hcolumn hfield hshows).1 <|
      hall _ _ _ _ _ (plainLike_looksFor hne hbar hcolumn hfield) hshows ⟨before, after, rfl⟩
  · rintro hsettled f t e column text hlooks hshows ⟨before, after, rfl⟩
    exact hlooks.finds hshows (Text.like_of_keepsForms (hsettled.keepsForms before after))

theorem finds_occurrences_sea :
    Text.SigmaSettled "ΣΑ".toList ∧
      (⟨"name | value", "Like", .str "ΓΗ|ΣΑ"⟩ : Filter).Finds (.ofText "ΘΑΛΑΣΣΑ".toList)
        (1, .ofText "ΘΑΛΑΣΣΑ".toList) := by
  have hsettled : Text.SigmaSettled ['Σ', 'Α'] := by
    intro p q hv
    cases p with
    | nil =>
      obtain ⟨-, rfl⟩ := List.cons_eq_cons.1 hv
      decide +kernel
    | cons c p =>
      obtain ⟨-, hrest⟩ := List.cons_eq_cons.1 hv
      have hmem : 'Σ' ∈ ['Α'] := hrest ▸ List.mem_append_right p List.mem_cons_self
      exact absurd hmem (by decide)
  have hfields : (⟨"name | value", "Like", .str "ΓΗ|ΣΑ"⟩ : Filter).likeFields =
      ["name", "value"] := by decide +kernel
  have hlooks : (⟨"name | value", "Like", .str "ΓΗ|ΣΑ"⟩ : Filter).LooksFor "value" "ΣΑ" :=
    { asks := ⟨by decide, by decide +kernel⟩
      columns := by rw [hfields]; decide
      column := by rw [hfields]; decide
      needle := ⟨_, rfl, by decide +kernel⟩ }
  have hfound := (finds_occurrences (show "ΣΑ" ≠ "" by decide) (by decide)).2.2.1.2 hsettled
  exact ⟨hsettled, hfound _ _ _ _ _ hlooks (Table.ofText_shows _) ⟨"ΘΑΛΑΣ".toList, [], by decide⟩⟩

/-- By itself the needle ends a word, and its sigma is final; in the text it is not. -/
theorem not_finds_odysseus :
    (plainLike "value" "ΟΔΥΣ").LooksFor "value" "ΟΔΥΣ" ∧
      (Table.ofText "ΟΔΥΣΣΕΑΣ".toList).Shows (1, .ofText "ΟΔΥΣΣΕΑΣ".toList) "value"
        "ΟΔΥΣΣΕΑΣ".toList ∧
      "ΟΔΥΣ".toList <:+: "ΟΔΥΣΣΕΑΣ".toList ∧
      ¬ (plainLike "value" "ΟΔΥΣ").Finds (.ofText "ΟΔΥΣΣΕΑΣ".toList)
        (1, .ofText "ΟΔΥΣΣΕΑΣ".toList) := by
  have hne : "ΟΔΥΣ" ≠ "" := by decide
  have hbar : separator ∉ "ΟΔΥΣ".toList := by decide
  have hcolumn : Identifier.isColumn "value" = true := by decide
  have hfield : "value" ≠ visibilityField := by decide
  have hshows := Table.ofText_shows "ΟΔΥΣΣΕΑΣ".toList
  refine ⟨plainLike_looksFor hne hbar hcolumn hfield, hshows, ⟨[], "ΣΕΑΣ".toList, by decide⟩, ?_⟩
  rw [plainLike_finds_iff hne hbar hcolumn hfield hshows]
  decide +kernel

end Filter

end Recordkeeper
