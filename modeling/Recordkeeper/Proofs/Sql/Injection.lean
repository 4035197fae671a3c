import Recordkeeper.Proofs.Sql.Legible

set_option autoImplicit false

namespace Recordkeeper.Sql

variable {d : Dialect} {table : String} {q q' : Query}

theorem predicate_erased (bound : Nat) (c : Constraint) :
    predicate d table bound c.erased = predicate d table bound c := by
  cases c with
  | among field values =>
    cases values with
    | nil => rfl
    | cons v vs =>
      exact congrArg (Predicate.among field) (List.ext_getElem (by simp) fun i _ _ => by
        rw [List.getElem_mapIdx, List.getElem_mapIdx])
  | anyLike terms =>
    exact congrArg Predicate.anyLike (List.ext_getElem (by simp) fun i _ _ => by simp)
  | compare | range => rfl

theorem length_binds_erased (c : Constraint) :
    (binds d table c.erased).length = (binds d table c).length := by
  cases c <;> simp [Constraint.erased, binds]

theorem predicates_erased (bound : Nat) (cs : List Constraint) :
    predicates d table bound (cs.map Constraint.erased) = predicates d table bound cs := by
  induction cs generalizing bound with
  | nil => rfl
  | cons c cs ih =>
    rw [List.map_cons, predicates, predicates, predicate_erased, length_binds_erased, ih]

/-- Values leave no trace in a statement. -/
theorem select_erased (d : Dialect) (table : String) (q : Query) (w : Option Window) :
    (select d table q.erased w).tokens = (select d table q w).tokens := by
  simp [select, renderWhere, queryPredicates, Query.erased, predicates_erased]

theorem count_erased (d : Dialect) (table : String) (q : Query) :
    (count d table q.erased).tokens = (count d table q).tokens := by
  simp [count, renderWhere, queryPredicates, Query.erased, predicates_erased]

/-- The tokens of a text are a statement's own and allowed names, and the text is made of them. -/
def ReadsWithin (N : List Char → Prop) (d : Dialect) (s : String) : Prop :=
  ∃ ts, read? d s.toList = some ts ∧ write d ts = s.toList ∧ ∀ t ∈ ts, t.Within N

end Recordkeeper.Sql

namespace Recordkeeper.FilterRequest

/-- A part, between its dots, of the table's name or of a name that the request gives, or the name of
the tombstone column. -/
def Quotable (r : FilterRequest) (table : String) (part : List Char) : Prop :=
  part ∈ List.splitOn '.' table.toList ∨
    (∃ column ∈ r.columns, part ∈ List.splitOn '.' column.toList) ∨
    part = Column.deletedAt.toList

open Sql in
/-- However a request is worded, a statement quotes its names and keeps its values out. -/
theorem readsWithin_quotable {r : FilterRequest} {sortable : List String} {q : Query}
    (h : r.compile { policy := .strict, sortable := sortable } = .ok q) (d : Dialect) (table : String)
    (w : Option Window) :
    ReadsWithin (r.Quotable table) d (text d (select d table q w).tokens) ∧
      ReadsWithin (r.Quotable table) d (text d (count d table q).tokens) ∧
      ∀ r' q', r.Alike r' → r'.compile { policy := .strict, sortable := sortable } = .ok q' →
        q.visibility = q'.visibility →
        text d (select d table q' w).tokens = text d (select d table q w).tokens ∧
          text d (count d table q').tokens = text d (count d table q).tokens := by
  have htable : Allows (r.Quotable table) table := fun part hpart => .inl hpart
  have hdeleted : Allows (r.Quotable table) Column.deletedAt := by
    intro part hpart
    rw [List.splitOn_eq_singleton (by decide), List.mem_singleton] at hpart
    exact .inr (.inr hpart)
  have hcolumn {column : String} (hc : column ∈ r.columns) : Allows (r.Quotable table) column :=
    fun part hpart => .inr (.inl ⟨column, hc, hpart⟩)
  have hq : Admissible (r.Quotable table) q := by
    obtain ⟨hfields, horder⟩ := columns_of_compile h
    exact ⟨fun c hc field hfield => hcolumn (hfields c hc field hfield),
      fun o ho => ⟨(horder o ho).1, fun field hfield => hcolumn ((horder o ho).2 field hfield)⟩⟩
  refine ⟨(legible_select htable hdeleted hq d w).read d, (legible_count htable hdeleted hq d).read d,
    fun r' q' hr hr' hvisibility => ?_⟩
  have hsame : q.erased = q'.erased := hr.erased h hr' hvisibility
  rw [← select_erased d table q' w, ← count_erased d table q', ← hsame, select_erased, count_erased]
  exact ⟨rfl, rfl⟩

def peopleSearch (name : String) (age : Int) : FilterRequest where
  filters := [⟨"people.name|email", "like", .str name⟩,
    ⟨"age", "between", .arr [.num (.int age), .null]⟩, ⟨Filter.visibilityField, "=", .str "all"⟩]
  order := some "people.age desc"

def peopleQuery (pattern : String) (age : Int) : Query where
  constraints := [.anyLike [⟨"people.name", pattern⟩, ⟨"email", pattern⟩],
    .compare "age" .atLeast (.num (.int age))]
  visibility := .all
  order := some (.keys [⟨"people.age", .descending⟩])

open Sql in
theorem readsWithin_peopleSearch :
    (peopleSearch "ann" 18).compile { policy := .strict, sortable := ["people.age"] } =
        .ok (peopleQuery "%ann%" 18) ∧
      ReadsWithin ((peopleSearch "ann" 18).Quotable "o\"people") .postgres
        (text .postgres (select .postgres "o\"people" (peopleQuery "%ann%" 18) none).tokens) ∧
      text .postgres (select .postgres "o\"people" (peopleQuery "%b' OR 1%" 40) none).tokens =
        text .postgres (select .postgres "o\"people" (peopleQuery "%ann%" 18) none).tokens := by
  have hcompile : (peopleSearch "ann" 18).compile { policy := .strict, sortable := ["people.age"] } =
      .ok (peopleQuery "%ann%" 18) := by decide +kernel
  have hother : (peopleSearch "b' OR 1" 40).compile
      { policy := .strict, sortable := ["people.age"] } = .ok (peopleQuery "%b' OR 1%" 40) := by
    decide +kernel
  have halike : (peopleSearch "ann" 18).Alike (peopleSearch "b' OR 1" 40) := by
    refine ⟨.cons ⟨rfl, rfl, ?_⟩ (.cons ⟨rfl, rfl, ?_⟩ (.cons ⟨rfl, rfl, ?_⟩ .nil)), rfl, rfl⟩ <;>
      decide +kernel
  obtain ⟨hselect, -, hsame⟩ := readsWithin_quotable hcompile .postgres "o\"people" none
  exact ⟨hcompile, hselect, (hsame _ _ halike hother rfl).1⟩

open Sql in
/-- A value can be seen in a statement where it names a visibility. A list of columns is quoted
column by column, so that the names are parts of the list and not of the field as it was written. -/
theorem text_of_visibility_and_list :
    (¬ ∀ (r r' : FilterRequest) (q q' : Query), r.Alike r' →
      r.compile {} = .ok q → r'.compile {} = .ok q' →
      text .postgres (select .postgres "t" q none).tokens =
        text .postgres (select .postgres "t" q' none).tokens) ∧
      ∃ q part, FilterRequest.compile {} { filters := [⟨"name|email", "like", .str "ann"⟩] } = .ok q ∧
        Token.name part ∈ (select .postgres "t" q none).tokens ∧
        part ∉ List.splitOn '.' "t".toList ∧ part ∉ List.splitOn '.' "name|email".toList ∧
        part ≠ Column.deletedAt.toList := by
  constructor
  · intro h
    have halike : FilterRequest.Alike
        { filters := [⟨Filter.visibilityField, "=", .str "all"⟩] }
        { filters := [⟨Filter.visibilityField, "=", .str "deleted"⟩] } :=
      ⟨.cons ⟨rfl, rfl, by decide +kernel⟩ .nil, rfl, rfl⟩
    have hsame := h _ _ { visibility := .all } { visibility := .onlyDeleted } halike
      (by decide +kernel) (by decide +kernel)
    revert hsame
    decide +kernel
  · refine ⟨{ constraints := [.anyLike [⟨"name", "%ann%"⟩, ⟨"email", "%ann%"⟩]] }, "email".toList, ?_⟩
    decide +kernel

end Recordkeeper.FilterRequest
