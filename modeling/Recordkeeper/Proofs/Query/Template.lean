import Recordkeeper.Proofs.Query.Compile
import Recordkeeper.Proofs.Table.Query

/-!
What a request compiles to, apart from the values of its filters. A filter compiles to its template
with values put in, and the template is made of the field, the operator and the outline of the value:
how long a list is, which bounds are given, how many needles there are. A filter on the reserved field
has none, since it names a visibility.
-/

set_option autoImplicit false

namespace Recordkeeper

/-- A constraint without its values. -/
def Constraint.erased : Constraint → Constraint
  | .compare field op _ => .compare field op .null
  | .among field values => .among field (List.replicate values.length .null)
  | .range field _ _ => .range field .null .null
  | .anyLike terms => .anyLike (terms.map fun t => ⟨t.field, ""⟩)

def Constraint.fields : Constraint → List String
  | .compare field .. | .among field _ | .range field .. => [field]
  | .anyLike terms => terms.map (·.field)

def Order.fields : Order → List String
  | .keys ks => ks.map (·.field)
  | .raw _ => []

def Order.isRead : Order → Bool
  | .keys _ => true
  | .raw _ => false

theorem Constraint.fields_erased (c : Constraint) : c.erased.fields = c.fields := by
  cases c <;> simp [erased, fields, Function.comp_def]

def Query.erased (q : Query) : Query := { q with constraints := q.constraints.map Constraint.erased }

namespace Filter

def Clause.erased : Clause → Option Constraint
  | .constraint c => some c.erased
  | .visibility _ | .nothing => none

inductive Outline where
  | value
  | list (length : Nat)
  | bounds (given : List Bool)
  | needles (count : Nat)
  deriving DecidableEq, Repr

def outline (f : Filter) : Outline :=
  match Operator.ofWord? f.operator, f.value with
  | some .among, .arr values => .list values.length
  | some .between, .arr values => .bounds (values.map fun v => !v.isNull)
  | some .like, .str value => .needles (likeNeedles value).length
  | _, _ => .value

/-- The columns that a filter names: those that a `like` filter lists, else its field. The reserved
field names none. -/
def columns (f : Filter) : List String :=
  if f.isVisibility then []
  else if Operator.ofWord? f.operator = some .like then f.likeFields
  else [f.field]

def template (f : Filter) : Option Constraint :=
  if f.isVisibility then none
  else match Operator.ofWord? f.operator, f.outline with
    | some (.compare op), _ => some (.compare f.field op .null)
    | some .among, .list n => some (.among f.field (List.replicate n .null))
    | some .between, .bounds [true, true] => some (.range f.field .null .null)
    | some .between, .bounds [true, false] => some (.compare f.field .atLeast .null)
    | some .between, .bounds [false, true] => some (.compare f.field .atMost .null)
    | some .like, .needles n =>
      some (.anyLike (f.likeFields.flatMap fun field => List.replicate n ⟨field, ""⟩))
    | _, _ => none

structure Alike (f g : Filter) : Prop where
  field : f.field = g.field
  operator : f.operator = g.operator
  outline : f.outline = g.outline

variable {f g : Filter} {clause : Clause}

theorem Alike.template (h : f.Alike g) : f.template = g.template := by
  have hreserved : f.isVisibility = g.isVisibility := by rw [isVisibility, isVisibility, h.field]
  have hfields : f.likeFields = g.likeFields := by rw [likeFields, likeFields, h.field]
  unfold Filter.template
  rw [hreserved, h.operator, h.outline, h.field, hfields]

theorem erased_of_compileLike (h : f.compileLike = .ok clause) :
    ∃ value, f.value = .str value ∧ clause.erased =
      some (.anyLike (f.likeFields.flatMap fun field =>
        List.replicate (likeNeedles value).length ⟨field, ""⟩)) := by
  unfold compileLike at h
  split at h
  · next value hvalue =>
    refine ⟨value, hvalue, ?_⟩
    simp only at h
    split at h
    · cases h
    · cases hfields : f.likeFields.forM requireColumn with
      | error e =>
        rw [hfields] at h
        cases h
      | ok b =>
        rw [hfields] at h
        obtain rfl := Except.ok.inj h
        simp [Clause.erased, Constraint.erased, likeTerms, List.map_flatMap, Function.comp_def]
  · cases h

theorem erased_of_compile (h : f.compile = .ok clause) : clause.erased = f.template := by
  unfold compile at h
  split at h
  · cases h
  · unfold template
    split at h
    · next hv =>
      rw [if_pos hv]
      obtain rfl := Except.ok.inj h
      unfold compileVisibility
      split
      · rfl
      · split <;> rfl
    · next hv =>
      rw [if_neg hv]
      split at h
      · cases h
      · next op hop =>
        rw [hop]
        have hdone := requireColumn_bind h
        split at hdone
        · obtain rfl := Except.ok.inj hdone
          rfl
        · cases hdone
      · next hop =>
        have hdone := requireColumn_bind h
        split at hdone
        · next values hvalue =>
          split at hdone
          · obtain rfl := Except.ok.inj hdone
            simp [outline, hop, hvalue, Clause.erased, Constraint.erased]
          · cases hdone
        · cases hdone
      · next hop =>
        have hdone := requireColumn_bind h
        split at hdone
        · next low high hvalue =>
          split at hdone
          · cases hdone
          · simp only [outline, hop, hvalue, List.map_cons, List.map_nil]
            cases hlow : low.isNull <;> cases hhigh : high.isNull <;>
              simp only [hlow, hhigh] at hdone <;> obtain rfl := Except.ok.inj hdone <;> rfl
        · cases hdone
        · cases hdone
      · next hop =>
        obtain ⟨value, hvalue, hclause⟩ := erased_of_compileLike h
        simp [outline, hop, hvalue, hclause]

theorem fields_template {c : Constraint} (h : f.template = some c) :
    ∀ field ∈ c.fields, field ∈ f.columns := by
  unfold template at h
  unfold columns
  split at h
  · cases h
  · next hv =>
    rw [if_neg hv]
    split at h <;> cases h
    all_goals simp +contextual [Constraint.fields, *]

end Filter

namespace FilterRequest

open Recordkeeper.Filter (Clause CompilesTo)

/-- Requests that differ in the values of their filters alone. -/
structure Alike (r s : FilterRequest) : Prop where
  filters : List.Forall₂ Filter.Alike r.filters s.filters
  order : r.order = s.order
  preloads : r.preloads = s.preloads

def sortColumns (clause : String) : List String :=
  (List.splitOn ',' clause.toList).filterMap fun part =>
    ((Text.words part).map String.ofList).head?

def columns (r : FilterRequest) : List String :=
  r.filters.flatMap Filter.columns ++ sortColumns (Text.trimmed (r.order.getD ""))

variable {r s : FilterRequest} {options : CompileOptions} {q q' : Query} {filters : List Filter}

theorem erased_of_clauses {clauses : List Clause}
    (h : List.Forall₂ CompilesTo filters clauses) :
    (clauses.filterMap Clause.constraint?).map Constraint.erased =
      filters.filterMap Filter.template := by
  induction h with
  | nil => rfl
  | @cons f clause filters clauses hf _ ih =>
    rw [List.filterMap_cons, List.filterMap_cons, ← Filter.erased_of_compile hf, ← ih]
    cases clause <;> rfl

/-- Requests that are alike and ask for one visibility compile, but for the values, to one query. -/
theorem Alike.erased (h : r.Alike s) (hr : r.compile options = .ok q)
    (hs : s.compile options = .ok q') (hv : q.visibility = q'.visibility) :
    q.erased = q'.erased := by
  obtain ⟨-, clauses, order, hclauses, horder, rfl⟩ := compile_eq_ok.1 hr
  obtain ⟨-, clauses', order', hclauses', horder', rfl⟩ := compile_eq_ok.1 hs
  rw [h.order, horder'] at horder
  obtain rfl := Except.ok.inj horder
  have htemplates {fs gs : List Filter} (hfg : List.Forall₂ Filter.Alike fs gs) :
      fs.filterMap Filter.template = gs.filterMap Filter.template := by
    induction hfg with
    | nil => rfl
    | cons hfg _ ih => rw [List.filterMap_cons, List.filterMap_cons, hfg.template, ih]
  simp only [Query.erased, Query.mk.injEq]
  refine ⟨h.preloads, ?_, hv, trivial⟩
  rw [erased_of_clauses hclauses, erased_of_clauses hclauses', htemplates h.filters]

theorem fields_of_clauses {clauses : List Clause} (h : List.Forall₂ CompilesTo filters clauses) :
    ∀ c ∈ clauses.filterMap Clause.constraint?, ∀ field ∈ c.fields,
      field ∈ filters.flatMap Filter.columns := by
  intro c hc field hfield
  have herased := List.mem_map_of_mem (f := Constraint.erased) hc
  rw [erased_of_clauses h] at herased
  obtain ⟨f, hf, htemplate⟩ := List.mem_filterMap.1 herased
  rw [← Constraint.fields_erased] at hfield
  exact List.mem_flatMap.2 ⟨f, hf, Filter.fields_template htemplate field hfield⟩

theorem head_of_ofWords {words : List String} {k : SortKey} (h : SortKey.ofWords words = .ok k) :
    words.head? = some k.field := by
  unfold SortKey.ofWords at h
  split at h
  · cases h
  · split at h
    · cases h
    · split at h
      · obtain rfl := Except.ok.inj h
        rfl
      · split at h
        · cases h
        · split at h
          · obtain rfl := Except.ok.inj h
            rfl
          · cases h

theorem fields_of_ofClause {clause : String} {ks : List SortKey}
    (h : SortKey.ofClause clause = .ok ks) : ∀ k ∈ ks, k.field ∈ sortColumns clause := by
  intro k hk
  obtain ⟨hlen, hparts⟩ := List.forall₂_iff_get.1 (Table.mapM_eq_ok.1 h)
  obtain ⟨i, hi, rfl⟩ := List.getElem_of_mem hk
  have hwords := head_of_ofWords (hparts i (hlen ▸ hi) hi)
  exact List.mem_filterMap.2 ⟨_, List.get_mem _ ⟨i, hlen ▸ hi⟩, hwords⟩

theorem fields_of_compileOrder {sortable : List String} {order : Option String} {o : Order}
    (h : compileOrder { policy := .strict, sortable := sortable } order = .ok (some o)) :
    o.isRead = true ∧ ∀ field ∈ o.fields, field ∈ sortColumns (Text.trimmed (order.getD "")) := by
  unfold compileOrder at h
  simp only at h
  split at h
  · cases h
  · split at h
    · cases h
    · next ks hks =>
      split at h
      · cases h
      · obtain rfl := Option.some.inj (Except.ok.inj h)
        exact ⟨rfl, List.forall_mem_map.2 (fields_of_ofClause hks)⟩

theorem columns_of_compile {sortable : List String}
    (h : r.compile { policy := .strict, sortable := sortable } = .ok q) :
    (∀ c ∈ q.constraints, ∀ field ∈ c.fields, field ∈ r.columns) ∧
      ∀ o, q.order = some o → o.isRead = true ∧ ∀ field ∈ o.fields, field ∈ r.columns := by
  obtain ⟨-, clauses, order, hclauses, horder, rfl⟩ := compile_eq_ok.1 h
  constructor
  · intro c hc field hfield
    exact List.mem_append_left _ (fields_of_clauses hclauses c hc field hfield)
  · rintro o rfl
    obtain ⟨hread, hfields⟩ := fields_of_compileOrder horder
    exact ⟨hread, fun field hfield => List.mem_append_right _ (hfields field hfield)⟩

end FilterRequest

end Recordkeeper
