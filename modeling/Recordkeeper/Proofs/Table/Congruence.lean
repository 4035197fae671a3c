import Mathlib.Data.List.Forall2
import Recordkeeper.Proofs.Table.Query

set_option autoImplicit false

namespace Recordkeeper.Table

variable {α : Type} {E : EntityType α}

structure Alike (E : EntityType α) (a b : Id × Row) : Prop where
  deleted : a.2.isDeleted = b.2.isDeleted
  column : a.2.column a.1 = b.2.column b.1
  record : recordOf E a.1 a.2 = recordOf E b.1 b.2

theorem matching_congr {q : Query} {rows rows' : List (Id × Row)}
    (h : List.Forall₂ (Alike E) rows rows') :
    (∃ e, matching q rows = .error e ∧ matching q rows' = .error e) ∨
      ∃ found found', matching q rows = .ok found ∧ matching q rows' = .ok found' ∧
        List.Forall₂ (Alike E) found found' := by
  induction h with
  | nil => exact .inr ⟨[], [], rfl, rfl, .nil⟩
  | @cons a b rows rows' hab _ ih =>
    obtain ⟨i, row⟩ := a
    obtain ⟨j, row'⟩ := b
    have hdeleted : row.isDeleted = row'.isDeleted := hab.deleted
    have hcolumn : row.column i = row'.column j := hab.column
    simp only [matching, hdeleted, hcolumn]
    split
    · cases (Matching.satisfiesAll (row'.column j) q.constraints).mapError queryError with
      | error e => exact .inl ⟨e, rfl, rfl⟩
      | ok keep =>
        rcases ih with ⟨e, he, he'⟩ | ⟨found, found', hf, hf', hfound⟩
        · exact .inl ⟨e, by simp [he, bind, Except.bind], by simp [he', bind, Except.bind]⟩
        · simp only [hf, hf', bind, Except.bind, pure, Except.pure]
          refine .inr ⟨_, _, rfl, rfl, ?_⟩
          split
          · exact .cons hab hfound
          · exact hfound
    · exact ih

theorem insertSorted_congr {keys : List SortKey} {a b : Id × Row} (hab : Alike E a b)
    {rows rows' : List (Id × Row)} (h : List.Forall₂ (Alike E) rows rows') :
    List.Forall₂ (Alike E) (insertSorted keys a rows) (insertSorted keys b rows') := by
  induction h with
  | nil => exact .cons hab .nil
  | @cons c d rows rows' hcd hrest ih =>
    simp only [insertSorted, hab.column, hcd.column]
    split
    · exact .cons hcd ih
    · exact .cons hab (.cons hcd hrest)

theorem sort_congr (keys : List SortKey) {rows rows' : List (Id × Row)}
    (h : List.Forall₂ (Alike E) rows rows') :
    List.Forall₂ (Alike E) (sort keys rows) (sort keys rows') := by
  have hfold {sorted sorted' : List (Id × Row)} (hs : List.Forall₂ (Alike E) sorted sorted') :
      List.Forall₂ (Alike E) (rows.foldl (fun sorted x => insertSorted keys x sorted) sorted)
        (rows'.foldl (fun sorted x => insertSorted keys x sorted) sorted') := by
    induction h generalizing sorted sorted' with
    | nil => exact hs
    | cons hab _ ih => exact ih (insertSorted_congr hab hs)
  exact List.rel_reverse (hfold .nil)

theorem cut_congr (w : Option Window) {rows rows' : List (Id × Row)}
    (h : List.Forall₂ (Alike E) rows rows') :
    List.Forall₂ (Alike E) (Window.cut w rows) (Window.cut w rows') := by
  cases w with
  | none => exact h
  | some w => exact List.forall₂_take _ (List.forall₂_drop _ h)

theorem records_congr {rows rows' : List (Id × Row)} (h : List.Forall₂ (Alike E) rows rows') :
    (rows.mapM fun (id, r) => recordOf E id r) = rows'.mapM fun (id, r) => recordOf E id r := by
  induction h with
  | nil => rfl
  | cons hab _ ih => simp only [List.mapM_cons, hab.record, ih]

variable {t t' : Table}

theorem query_congr (h : List.Forall₂ (Alike E) t.rows t'.rows) (q : Query) (w : Option Window) :
    t.query E q w = t'.query E q w := by
  unfold query
  rcases matching_congr (q := q) h with ⟨e, he, he'⟩ | ⟨found, found', hf, hf', hfound⟩
  · rw [he, he']
  · rw [hf, hf']
    cases sortKeys q.order with
    | error e => rfl
    | ok keys => exact records_congr (cut_congr w (sort_congr keys hfound))

theorem count_congr (h : List.Forall₂ (Alike E) t.rows t'.rows) (q : Query) :
    t.count q = t'.count q := by
  unfold count
  rcases matching_congr (q := q) h with ⟨e, he, he'⟩ | ⟨found, found', hf, hf', hfound⟩
  · rw [he, he']
  · rw [hf, hf']
    simp only [bind, Except.bind, hfound.length_eq]

end Recordkeeper.Table
