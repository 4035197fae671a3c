import Mathlib.Data.List.Perm.Basic
import Recordkeeper.Entity.Catalog
import Recordkeeper.Proofs.Query.Template
import Recordkeeper.Proofs.Table.Agreement

set_option autoImplicit false

namespace Recordkeeper

namespace Filter

/-- The visibility that a filter asks for, if it is on the reserved field and names one. -/
def visibility? (f : Filter) : Option Visibility :=
  if f.isVisibility then f.compileVisibility.visibility? else none

variable {f : Filter} {clause : Clause}

theorem visibility?_of_compileLike (h : f.compileLike = .ok clause) : clause.visibility? = none := by
  obtain ⟨value, -, herased⟩ := erased_of_compileLike h
  cases clause with
  | constraint c => rfl
  | visibility v => cases herased
  | nothing => rfl

theorem CompilesTo.visibility?_eq (h : f.CompilesTo clause) : clause.visibility? = f.visibility? := by
  unfold CompilesTo compile at h
  unfold visibility?
  split at h
  · cases h
  · split at h
    · next hv =>
      obtain rfl := Except.ok.inj h
      rw [if_pos hv]
    · next hv =>
      rw [if_neg hv]
      split at h
      · cases h
      · have hdone := requireColumn_bind h
        split at hdone
        · obtain rfl := Except.ok.inj hdone
          rfl
        · cases hdone
      · have hdone := requireColumn_bind h
        split at hdone
        · split at hdone
          · obtain rfl := Except.ok.inj hdone
            rfl
          · cases hdone
        · cases hdone
      · have hdone := requireColumn_bind h
        split at hdone
        · split at hdone
          · cases hdone
          · split at hdone <;> obtain rfl := Except.ok.inj hdone <;> rfl
        · cases hdone
        · cases hdone
      · exact visibility?_of_compileLike h

end Filter

namespace FilterRequest

open Recordkeeper.Filter (Clause CompilesTo)

variable {r s : FilterRequest} {options : CompileOptions} {q : Query}

/-- The same request with its filters in another order, in which those on the reserved field follow
each other as before. -/
structure Reordered (r s : FilterRequest) : Prop where
  filters : r.filters.Perm s.filters
  visibility : r.filters.filter Filter.isVisibility = s.filters.filter Filter.isVisibility
  order : r.order = s.order
  preloads : r.preloads = s.preloads

theorem Reordered.symm (h : r.Reordered s) : s.Reordered r :=
  ⟨h.filters.symm, h.visibility.symm, h.order.symm, h.preloads.symm⟩

theorem visibility?_of_clauses {filters : List Filter} {clauses : List Clause}
    (h : List.Forall₂ CompilesTo filters clauses) :
    clauses.filterMap Clause.visibility? =
      (filters.filter Filter.isVisibility).filterMap Filter.visibility? := by
  induction h with
  | nil => rfl
  | @cons f clause filters clauses hf _ ih =>
    rw [List.filterMap_cons, hf.visibility?_eq, ih, List.filter_cons]
    cases hv : f.isVisibility with
    | true => simp [List.filterMap_cons]
    | false => simp [Filter.visibility?, hv]

/-- A reordered request compiles to a query with the same constraints in another order. -/
theorem Reordered.compile (h : r.Reordered s) (hr : r.compile options = .ok q) :
    ∃ q', s.compile options = .ok q' ∧ q.constraints.Perm q'.constraints ∧
      q.visibility = q'.visibility ∧ q.order = q'.order := by
  obtain ⟨hpreloads, clauses, order, hclauses, horder, rfl⟩ := compile_eq_ok.1 hr
  obtain ⟨clauses', hclauses', hperm⟩ := List.perm_comp_forall₂ h.filters.symm hclauses
  refine ⟨_, compile_eq_ok.2 ⟨h.preloads ▸ hpreloads, clauses', order, hclauses',
    h.order ▸ horder, rfl⟩, ?_, ?_, rfl⟩
  · exact (hperm.filterMap Clause.constraint?).symm
  · simp only
    rw [visibility?_of_clauses hclauses, visibility?_of_clauses hclauses', h.visibility]

/-- Reordered requests are refused both or compile both, and then their queries find the same records
in the same order on every table, or fail both. -/
theorem reordered_agree (h : r.Reordered s) (options : CompileOptions) :
    (∃ e e', r.compile options = .error e ∧ s.compile options = .error e') ∨
      ∃ q q', r.compile options = .ok q ∧ s.compile options = .ok q' ∧
        ∀ t : Table, Agree (t.count q) (t.count q') ∧
          ∀ {α : Type} (E : EntityType α) (w : Option Window),
            Agree (t.query E q w) (t.query E q' w) := by
  cases hr : r.compile options with
  | error e =>
    cases hs : s.compile options with
    | error e' => exact .inl ⟨e, e', rfl, rfl⟩
    | ok q' =>
      obtain ⟨q, hq, -⟩ := h.symm.compile hs
      cases hr.symm.trans hq
  | ok q =>
    obtain ⟨q', hs, hconstraints, hvisibility, horder⟩ := h.compile hr
    exact .inr ⟨q, q', rfl, hs, fun t => ⟨t.count_agree hvisibility hconstraints,
      fun E w => t.query_agree E hvisibility hconstraints horder w⟩⟩

def misreadLast : FilterRequest where
  filters := [⟨Filter.visibilityField, "=", .str "deleted"⟩, ⟨"value", "=", .str "b"⟩,
    ⟨Filter.visibilityField, "=", .str "all"⟩, ⟨"id", ">", .str "ten"⟩]

def misreadFirst : FilterRequest where
  filters := [⟨"id", ">", .str "ten"⟩, ⟨Filter.visibilityField, "=", .str "deleted"⟩,
    ⟨Filter.visibilityField, "=", .str "all"⟩, ⟨"value", "=", .str "b"⟩]

def misreadQuery : Query where
  constraints := [.compare "value" .equal (.str "b"), .compare "id" .greater (.str "ten")]
  visibility := .all

def oneWord : Table := { rows := [(1, { data := [("value", .str "a")] })], counter := 1 }

theorem reordered_misread :
    misreadLast.Reordered misreadFirst ∧ misreadLast.compile {} = .ok misreadQuery ∧
      (oneWord.query Catalog.plain misreadQuery none).isOk = false ∧
      ∃ q, misreadFirst.compile {} = .ok q ∧
        Agree (oneWord.query Catalog.plain misreadQuery none) (oneWord.query Catalog.plain q none) := by
  have hreordered : misreadLast.Reordered misreadFirst :=
    ⟨by decide +kernel, by decide +kernel, rfl, rfl⟩
  have hlast : misreadLast.compile {} = .ok misreadQuery := by decide +kernel
  have hfails : (oneWord.query Catalog.plain misreadQuery none).isOk = false := by decide +kernel
  refine ⟨hreordered, hlast, hfails, ?_⟩
  rcases reordered_agree hreordered {} with ⟨e, e', he, -⟩ | ⟨q, q', hq, hq', hagree⟩
  · cases he.symm.trans hlast
  · obtain rfl := Except.ok.inj (hq.symm.trans hlast)
    exact ⟨q', hq', (hagree oneWord).2 Catalog.plain none⟩

end FilterRequest

end Recordkeeper
