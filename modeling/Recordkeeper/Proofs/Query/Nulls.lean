import Recordkeeper.Proofs.Query.Meaning
import Recordkeeper.Proofs.Query.Template
import Recordkeeper.Proofs.Run

/-!
Nulls in filters. A null is refused, or leaves a bound open, wherever it stands in a filter, except
in a list: there it reaches the store, where every row that has a value in the column fails on it.
-/

set_option autoImplicit false

namespace Recordkeeper

def Constraint.values : Constraint → List Json
  | .compare _ _ v => [v]
  | .among _ vs => vs
  | .range _ low high => [low, high]
  | .anyLike _ => []

namespace Matching

def FailsOn (columns : Columns) (c : Constraint) (v : Json) : Prop :=
  v ∈ c.values ∧ ∃ field ∈ c.fields, ∃ m, fieldOrder? columns field v = .error m

variable {columns : Columns} {c : Constraint}

theorem mapM_fails_iff {ε β γ : Type} {f : β → Except ε γ} {xs : List β} :
    (∃ m, xs.mapM f = .error m) ↔ ∃ x ∈ xs, ∃ m, f x = .error m := by
  constructor
  · rintro ⟨m, hm⟩
    by_contra hnone
    have hall : ∀ x ∈ xs, ∃ y, f x = .ok y := by
      intro x hx
      cases hf : f x with
      | error m => exact absurd ⟨x, hx, m, hf⟩ hnone
      | ok y => exact ⟨y, rfl⟩
    obtain ⟨ys, hys, -⟩ := Table.mapM_of_forall hall
    cases hm.symm.trans hys
  · rintro ⟨x, hx, m, hm⟩
    cases hxs : xs.mapM f with
    | error m => exact ⟨m, rfl⟩
    | ok ys =>
      obtain ⟨y, hy⟩ := Table.forall_of_mapM hxs x hx
      cases hm.symm.trans hy

theorem satisfies_fails_iff :
    (∃ m, satisfies columns c = .error m) ↔ ∃ v, FailsOn columns c v := by
  cases c with
  | compare field op v =>
    simp only [satisfies, FailsOn, Constraint.values, Constraint.fields, List.mem_singleton,
      exists_eq_left]
    cases fieldOrder? columns field v <;> simp [bind, Except.bind, pure, Except.pure]
  | among field vs =>
    simp only [FailsOn, Constraint.values, Constraint.fields, List.mem_singleton, exists_eq_left,
      ← mapM_fails_iff, satisfies]
    cases vs.mapM (fieldOrder? columns field) <;> simp [bind, Except.bind, pure, Except.pure]
  | range field low high =>
    simp only [satisfies, FailsOn, Constraint.values, Constraint.fields, List.mem_cons,
      List.not_mem_nil, or_false, exists_eq_left, or_and_right, exists_or]
    cases fieldOrder? columns field low <;> cases fieldOrder? columns field high <;>
      simp [bind, Except.bind, pure, Except.pure]
  | anyLike terms => simp [satisfies, FailsOn, Constraint.values, pure, Except.pure]

theorem fieldOrder?_null (field : String) :
    (∃ m, fieldOrder? columns field .null = .error m) ↔ columns field ≠ .null := by
  unfold fieldOrder? order?
  cases columns field <;>
    simp [Except.mapError, numberFor, textFor, flagFor, scalarText?, bind, Except.bind]

end Matching

theorem Row.exists_column_ne_null (field : String) :
    ∃ e : Id × Row, e.2.column e.1 field ≠ .null := by
  by_cases hid : Identifier.unqualified field = Column.id
  · refine ⟨(1, { data := [] }), ?_⟩
    simp [Row.column, hid, Json.ofId]
  by_cases hdeleted : Identifier.unqualified field = Column.deletedAt
  · refine ⟨(1, { data := [], deletedAt := some Moment.epoch.wall }), ?_⟩
    simp [Row.column, hdeleted, show Column.deletedAt ≠ Column.id by decide, Row.tombstone,
      Json.ofOption]
  · refine ⟨(1, { data := [(Identifier.unqualified field, .str "")] }), ?_⟩
    simp [Row.column, hid, hdeleted, Object.get?]

namespace Filter

def ListsNull (f : Filter) : Prop := f.Asks .among ∧ ∃ values, f.value = .arr values ∧ .null ∈ values

variable {f : Filter} {c : Constraint} {clause : Clause}

theorem Asks.unique {op op' : Operator} (h : f.Asks op) (h' : f.Asks op') : op = op' :=
  Option.some.inj (h.operator.symm.trans h'.operator)

theorem compileVisibility_ne (f : Filter) (c : Constraint) : f.compileVisibility ≠ .constraint c := by
  unfold compileVisibility
  split
  · nofun
  · split <;> nofun

theorem Means.values (h : f.Means (.constraint c)) :
    (f.Asks .among ∧ ∃ values, f.value = .arr values ∧ c = .among f.field values ∧
      ∀ v ∈ values, v.isScalar = true) ∨ (¬ f.Asks .among ∧ ∀ v ∈ c.values, v.IsValue) := by
  have hother {op : Operator} (hop : f.Asks op) (hne : op ≠ .among) : ¬ f.Asks .among := fun h =>
    hne (hop.unique h)
  generalize hclause : Clause.constraint c = clause at h
  cases h with
  | reserved hseen => exact absurd hclause.symm (f.compileVisibility_ne c)
  | compare hop hv =>
    obtain rfl := Clause.constraint.inj hclause
    exact .inr ⟨hother hop nofun, List.forall_mem_singleton.2 hv⟩
  | among hop hvalues hscalars =>
    exact .inl ⟨hop, _, hvalues, Clause.constraint.inj hclause, hscalars⟩
  | range hop hvalues hlow hhigh =>
    obtain rfl := Clause.constraint.inj hclause
    exact .inr ⟨hother hop nofun,
      List.forall_mem_cons.2 ⟨hlow, List.forall_mem_singleton.2 hhigh⟩⟩
  | above hop hvalues hlow =>
    obtain rfl := Clause.constraint.inj hclause
    exact .inr ⟨hother hop nofun, List.forall_mem_singleton.2 hlow⟩
  | below hop hvalues hhigh =>
    obtain rfl := Clause.constraint.inj hclause
    exact .inr ⟨hother hop nofun, List.forall_mem_singleton.2 hhigh⟩
  | unbounded hop hvalues => cases hclause
  | like hop hvalue =>
    obtain rfl := Clause.constraint.inj hclause
    exact .inr ⟨hother hop nofun, by simp [Constraint.values]⟩

theorem Means.constraint_of_among (h : f.Means clause) (hop : f.Asks .among) :
    ∃ c, clause = .constraint c := by
  cases h with
  | reserved hseen => cases hop.seen.symm.trans hseen
  | unbounded hop' => cases hop.unique hop'
  | compare | among | range | above | below | like => exact ⟨_, rfl⟩

theorem Means.isScalar (h : f.Means (.constraint c)) : ∀ v ∈ c.values, v.isScalar = true := by
  rcases h.values with ⟨-, values, -, rfl, hscalars⟩ | ⟨-, hvalues⟩
  · exact hscalars
  · exact fun v hv => (hvalues v hv).1

theorem Means.null_mem_iff (h : f.Means (.constraint c)) : .null ∈ c.values ↔ f.ListsNull := by
  rcases h.values with ⟨hop, values, hvalue, rfl, -⟩ | ⟨hop, hvalues⟩
  · constructor
    · intro hnull
      exact ⟨hop, values, hvalue, hnull⟩
    · rintro ⟨-, values', hvalue', hnull⟩
      obtain rfl := Json.arr.inj (hvalue.symm.trans hvalue')
      exact hnull
  · exact iff_of_false (fun hnull => Bool.false_ne_true (hvalues _ hnull).2.symm) fun h => hop h.1

def boundsGiven (field : String) (low high : Json) : List Constraint :=
  (if low.isNull then [] else [.compare field .atLeast low]) ++
    if high.isNull then [] else [.compare field .atMost high]

theorem Means.bounds {low high : Json} (h : f.Means clause) (hop : f.Asks .between)
    (hvalue : f.value = .arr [low, high]) (columns : Matching.Columns) :
    Matching.satisfiesAll columns clause.constraint?.toList =
      Matching.satisfiesAll columns (boundsGiven f.field low high) := by
  have hnull : Json.null.isNull = true := rfl
  have hbounds {low' high' : Json} (hvalue' : f.value = .arr [low', high']) :
      low' = low ∧ high' = high := by
    simpa using hvalue'.symm.trans hvalue
  cases h with
  | reserved hseen => cases hop.seen.symm.trans hseen
  | compare hop' hv => cases hop.unique hop'
  | among hop' hvalues hscalars => cases hop.unique hop'
  | like hop' hvalue' => cases hop.unique hop'
  | range hop' hvalues hlow hhigh =>
    obtain ⟨rfl, rfl⟩ := hbounds hvalues
    simpa [Clause.constraint?, boundsGiven, hlow.2, hhigh.2] using
      (Matching.satisfiesAll_singleton columns _).trans (Matching.satisfies_range columns ..)
  | above hop' hvalues hlow =>
    obtain ⟨rfl, rfl⟩ := hbounds hvalues
    simp [Clause.constraint?, boundsGiven, hlow.2, hnull]
  | below hop' hvalues hhigh =>
    obtain ⟨rfl, rfl⟩ := hbounds hvalues
    simp [Clause.constraint?, boundsGiven, hhigh.2, hnull]
  | unbounded hop' hvalues =>
    obtain ⟨rfl, rfl⟩ := hbounds hvalues
    simp [Clause.constraint?, boundsGiven, hnull]

end Filter

namespace FilterRequest

open Recordkeeper.Filter (Clause CompilesTo)
open Recordkeeper.Matching (FailsOn)

variable {options : CompileOptions} {r : FilterRequest} {q : Query}

theorem mem_constraints (h : r.compile options = .ok q) (c : Constraint) :
    c ∈ q.constraints ↔ ∃ f ∈ r.filters, f.compile = .ok (.constraint c) := by
  obtain ⟨-, clauses, order, hclauses, -, rfl⟩ := compile_eq_ok.1 h
  have hmem := Table.mem_mapM (Table.mapM_eq_ok.2 hclauses)
  simp only [List.mem_filterMap]
  constructor
  · rintro ⟨clause, hclause, hc⟩
    obtain ⟨f, hf, hcompile⟩ := (hmem clause).1 hclause
    cases clause with
    | constraint c' =>
      obtain rfl := Option.some.inj hc
      exact ⟨f, hf, hcompile⟩
    | visibility v => cases hc
    | nothing => cases hc
  · rintro ⟨f, hf, hcompile⟩
    exact ⟨.constraint c, (hmem _).2 ⟨f, hf, hcompile⟩, rfl⟩

theorem filter_compiles (h : r.compile options = .ok q) :
    ∀ f ∈ r.filters, ∃ clause, f.compile = .ok clause := by
  obtain ⟨-, clauses, order, hclauses, -, rfl⟩ := compile_eq_ok.1 h
  exact Table.forall_of_mapM (Table.mapM_eq_ok.2 hclauses)

theorem null_carried_iff (h : r.compile options = .ok q) :
    (∃ c ∈ q.constraints, .null ∈ c.values) ↔ ∃ f ∈ r.filters, f.ListsNull := by
  simp only [mem_constraints h]
  constructor
  · rintro ⟨c, ⟨f, hf, hcompile⟩, hnull⟩
    exact ⟨f, hf, (Filter.means_of_compile hcompile).null_mem_iff.1 hnull⟩
  · rintro ⟨f, hf, hlists⟩
    obtain ⟨clause, hcompile⟩ := filter_compiles h f hf
    have hmeans := Filter.means_of_compile hcompile
    obtain ⟨c, rfl⟩ := hmeans.constraint_of_among hlists.1
    exact ⟨c, ⟨f, hf, hcompile⟩, hmeans.null_mem_iff.2 hlists⟩

theorem failsOn_null_iff (c : Constraint) :
    (∃ e : Id × Row, FailsOn (e.2.column e.1) c .null) ↔ .null ∈ c.values := by
  constructor
  · rintro ⟨e, hnull, -⟩
    exact hnull
  · intro hnull
    obtain ⟨field, hfield⟩ : ∃ field, field ∈ c.fields := by
      cases c with
      | compare | among | range => exact ⟨_, List.mem_singleton_self _⟩
      | anyLike terms => cases hnull
    obtain ⟨e, he⟩ := Row.exists_column_ne_null field
    exact ⟨e, hnull, field, hfield, (Matching.fieldOrder?_null field).2 he⟩

/-- A request carries no null to a store, and no constraint of it fails on a null, if and only if none
of its filters lists one. All that it carries are scalars, and in a range a null leaves a bound open. -/
theorem nullFree_iff (h : r.compile options = .ok q) :
    (∀ c ∈ q.constraints, ∀ v ∈ c.values, v.isScalar = true) ∧
    ((∀ c ∈ q.constraints, .null ∉ c.values) ↔ ∀ f ∈ r.filters, ¬ f.ListsNull) ∧
    ((∀ c ∈ q.constraints, ∀ e : Id × Row, ¬ FailsOn (e.2.column e.1) c .null) ↔
      ∀ f ∈ r.filters, ¬ f.ListsNull) ∧
    (∀ (columns : Matching.Columns) (c : Constraint),
      (∃ m, Matching.satisfies columns c = .error m) ↔ ∃ v, FailsOn columns c v) ∧
    ∀ f ∈ r.filters, f.value.isNull = false ∧ ∀ low high, f.Asks .between →
      f.value = .arr [low, high] → ∃ clause, f.compile = .ok clause ∧ ∀ columns,
        Matching.satisfiesAll columns clause.constraint?.toList =
          Matching.satisfiesAll columns (Filter.boundsGiven f.field low high) := by
  have hcarried := null_carried_iff h
  refine ⟨fun c hc => ?_, ?_, ?_, fun _ _ => Matching.satisfies_fails_iff, fun f hf => ?_⟩
  · obtain ⟨f, -, hcompile⟩ := (mem_constraints h c).1 hc
    exact (Filter.means_of_compile hcompile).isScalar
  · simpa using not_congr hcarried
  · simpa [← failsOn_null_iff] using not_congr hcarried
  · obtain ⟨clause, hcompile⟩ := filter_compiles h f hf
    exact ⟨Filter.isNull_of_compile hcompile, fun low high hop hvalue =>
      ⟨clause, hcompile, (Filter.means_of_compile hcompile).bounds hop hvalue⟩⟩

def agesListed : FilterRequest where
  filters := [⟨"age", "between", .arr [.ofId 5, .null]⟩, ⟨"age", "in", .arr [.ofId 7, .str "9"]⟩]

def agesQuery : Query where
  constraints := [.compare "age" .atLeast (.ofId 5), .among "age" [.ofId 7, .str "9"]]

theorem nullFree_agesListed :
    agesListed.compile {} = .ok agesQuery ∧ (∀ f ∈ agesListed.filters, ¬ f.ListsNull) ∧
      ∀ c ∈ agesQuery.constraints, .null ∉ c.values ∧
        ∀ e : Id × Row, ¬ FailsOn (e.2.column e.1) c .null := by
  have hcompile : agesListed.compile {} = .ok agesQuery := by decide +kernel
  have hfree : ∀ f ∈ agesListed.filters, ¬ f.ListsNull := by
    refine List.forall_mem_cons.2 ⟨?_, List.forall_mem_singleton.2 ?_⟩
    · rintro ⟨⟨-, hop⟩, -⟩
      exact absurd hop (by decide +kernel)
    · rintro ⟨-, values, hvalues, hnull⟩
      obtain rfl := Json.arr.inj hvalues
      exact absurd hnull (by decide +kernel)
  obtain ⟨-, hcarried, hfails, -⟩ := nullFree_iff hcompile
  exact ⟨hcompile, hfree, fun c hc => ⟨hcarried.2 hfree c hc, hfails.2 hfree c hc⟩⟩

def nullListed : FilterRequest where
  filters := [⟨"age", "in", .arr [.ofId 7, .null]⟩]

def nullQuery : Query where
  constraints := [.among "age" [.ofId 7, .null]]

def sevenYears : Table := { rows := [(1, { data := [("age", .ofId 7)] })], counter := 1 }

/-- A null in a list is carried to the store, where it fails a row that the list finds. -/
theorem not_nullFree :
    nullListed.compile {} = .ok nullQuery ∧ (∃ c ∈ nullQuery.constraints, .null ∈ c.values) ∧
      sevenYears.count nullQuery =
        .error (.query "memory" "filter on 'age': null is not a valid integer") := by
  decide +kernel

end FilterRequest

end Recordkeeper
