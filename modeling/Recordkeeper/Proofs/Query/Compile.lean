import Mathlib.Data.List.Forall2
import Recordkeeper.Proofs.Table.Query
import Recordkeeper.Query.Compile

set_option autoImplicit false

namespace Recordkeeper

namespace Filter

def Clause.constraint? : Clause → Option Constraint
  | .constraint c => some c
  | .visibility _ | .nothing => none

def Clause.visibility? : Clause → Option Visibility
  | .visibility v => some v
  | .constraint _ | .nothing => none

def CompilesTo (f : Filter) (clause : Clause) : Prop := f.compile = .ok clause

theorem isComplete_of_operator {f : Filter} {op : Operator} (hfield : f.field ≠ "")
    (hop : Operator.ofWord? f.operator = some op) (hvalue : f.value.isNull = false) :
    f.isComplete = true := by
  have hempty : Operator.ofWord? "" = none := by decide +kernel
  have hword : f.operator ≠ "" := by
    intro heq
    rw [heq, hempty] at hop
    cases hop
  simp [isComplete, hfield, hword, hvalue]

theorem requireColumn_bind {β : Type} {field : String} {next : Except RequestError β} {b : β}
    (h : (do requireColumn field; next) = .ok b) : next = .ok b := by
  unfold requireColumn at h
  split at h
  · exact h
  · cases h

end Filter

namespace Query

open Recordkeeper.Filter (Clause CompilesTo)

/-- The clauses of a list conjoin their constraints, and the last visibility among them counts. -/
theorem foldl_add (clauses : List Clause) (q : Query) :
    clauses.foldl add q =
      { q with
        constraints := q.constraints ++ clauses.filterMap Clause.constraint?
        visibility := (clauses.filterMap Clause.visibility?).getLast?.getD q.visibility } := by
  induction clauses generalizing q with
  | nil => simp
  | cons clause clauses ih =>
    rw [List.foldl_cons, ih]
    cases clause <;>
      simp [add, List.filterMap_cons, Clause.constraint?, Clause.visibility?, List.getLast?_cons]

theorem foldlM_addFilter (filters : List Filter) (q : Query) :
    filters.foldlM addFilter q =
      (filters.mapM Filter.compile).map fun clauses => clauses.foldl add q := by
  induction filters generalizing q with
  | nil => rfl
  | cons f filters ih =>
    rw [List.foldlM_cons, List.mapM_cons, addFilter]
    cases f.compile with
    | error e => rfl
    | ok clause =>
      refine (ih (q.add clause)).trans ?_
      cases filters.mapM Filter.compile <;> rfl

theorem foldlM_addFilter_eq_ok {filters : List Filter} {q q₀ : Query} :
    filters.foldlM addFilter q₀ = .ok q ↔
      ∃ clauses, List.Forall₂ CompilesTo filters clauses ∧ q = clauses.foldl add q₀ := by
  have hclauses (clauses : List Clause) :
      List.Forall₂ CompilesTo filters clauses ↔ filters.mapM Filter.compile = .ok clauses :=
    Table.mapM_eq_ok.symm
  simp only [foldlM_addFilter, hclauses]
  cases filters.mapM Filter.compile <;> simp [Except.map, eq_comm]

end Query

namespace FilterRequest

open Recordkeeper.Filter (Clause CompilesTo)

variable {r : FilterRequest} {options : CompileOptions} {q : Query}

theorem compileOrder_none (options : CompileOptions) : compileOrder options none = .ok none := by
  have hblank : Text.trimmed "" = "" := by decide
  simp [compileOrder, hblank]

theorem compile_ok (h : r.compile options = .ok q) :
    r.preloads.forM requireRelation = .ok () ∧
      ∃ q₀ order, r.filters.foldlM Query.addFilter { preloads := r.preloads } = .ok q₀ ∧
        compileOrder options r.order = .ok order ∧ q = { q₀ with order := order } := by
  unfold compile at h
  cases hpreloads : r.preloads.forM requireRelation with
  | error e =>
    rw [hpreloads] at h
    cases h
  | ok b =>
    rw [hpreloads] at h
    cases hfilters : r.filters.foldlM Query.addFilter { preloads := r.preloads } with
    | error e =>
      simp only [hfilters] at h
      cases h
    | ok q₀ =>
      simp only [hfilters] at h
      cases horder : compileOrder options r.order with
      | error e =>
        simp only [horder] at h
        cases h
      | ok order =>
        simp only [horder] at h
        exact ⟨rfl, q₀, order, rfl, rfl, (Except.ok.inj h).symm⟩

theorem compile_eq_ok :
    r.compile options = .ok q ↔
      r.preloads.forM requireRelation = .ok () ∧
        ∃ clauses order, List.Forall₂ CompilesTo r.filters clauses ∧
          compileOrder options r.order = .ok order ∧
          q = {
            preloads := r.preloads
            constraints := clauses.filterMap Clause.constraint?
            visibility := (clauses.filterMap Clause.visibility?).getLast?.getD .active
            order := order } := by
  constructor
  · intro h
    obtain ⟨hpreloads, q₀, order, hfilters, horder, rfl⟩ := compile_ok h
    obtain ⟨clauses, hclauses, rfl⟩ := Query.foldlM_addFilter_eq_ok.1 hfilters
    exact ⟨hpreloads, clauses, order, hclauses, horder, by simp [Query.foldl_add]⟩
  · rintro ⟨hpreloads, clauses, order, hclauses, horder, rfl⟩
    have hfilters : r.filters.foldlM Query.addFilter { preloads := r.preloads } =
        .ok (clauses.foldl Query.add { preloads := r.preloads }) :=
      Query.foldlM_addFilter_eq_ok.2 ⟨clauses, hclauses, rfl⟩
    unfold compile
    rw [hpreloads]
    simp only [bind, Except.bind] at hfilters ⊢
    rw [hfilters, horder]
    simp [Query.foldl_add, pure, Except.pure]

end FilterRequest

end Recordkeeper
