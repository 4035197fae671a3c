import Recordkeeper.Proofs.Table.Query

set_option autoImplicit false

namespace Recordkeeper.Table

/-- One row stands before another: it is less, or neither is and it stood before it. -/
def Precedes (cmp : Id × Row → Id × Row → Ordering) (before : Id × Row → Id × Row → Prop)
    (a b : Id × Row) : Prop := cmp a b = .lt ∨ cmp a b = .eq ∧ before a b

def ComparedBy (keys : List SortKey) (cmp : Id × Row → Id × Row → Ordering)
    (rows : List (Id × Row)) : Prop :=
  ∀ a ∈ rows, ∀ b ∈ rows, Matching.rowOrder (a.2.column a.1) (b.2.column b.1) keys = cmp a b

theorem perm_insertSorted (keys : List SortKey) (x : Id × Row) (sorted : List (Id × Row)) :
    (insertSorted keys x sorted).Perm (x :: sorted) := by
  induction sorted with
  | nil => rfl
  | cons y sorted ih =>
    simp only [insertSorted]
    split
    · exact (ih.cons y).trans (.swap x y sorted)
    · rfl

theorem perm_insertSorted_append (keys : List SortKey) (x : Id × Row)
    (sorted rest : List (Id × Row)) :
    (insertSorted keys x sorted ++ rest).Perm (sorted ++ x :: rest) :=
  ((perm_insertSorted keys x sorted).append_right rest).trans List.perm_middle.symm

theorem perm_sort (keys : List SortKey) (rows : List (Id × Row)) : (sort keys rows).Perm rows := by
  have hfold (sorted : List (Id × Row)) :
      (rows.foldl (fun sorted x => insertSorted keys x sorted) sorted).Perm (sorted ++ rows) := by
    induction rows generalizing sorted with
    | nil => simp
    | cons x rows ih =>
      exact (ih _).trans (perm_insertSorted_append keys x sorted rows)
  exact (List.reverse_perm _).trans (hfold [])

section

variable {cmp : Id × Row → Id × Row → Ordering} [Std.TransCmp cmp]
  {before : Id × Row → Id × Row → Prop} {keys : List SortKey}

theorem pairwise_insertSorted {x : Id × Row} {sorted : List (Id × Row)}
    (hkeys : ∀ y ∈ sorted, Matching.rowOrder (x.2.column x.1) (y.2.column y.1) keys = cmp x y)
    (hx : ∀ y ∈ sorted, before y x) (h : sorted.Pairwise fun b a => Precedes cmp before a b) :
    (insertSorted keys x sorted).Pairwise fun b a => Precedes cmp before a b := by
  induction sorted with
  | nil => exact List.pairwise_singleton _ _
  | cons y sorted ih =>
    obtain ⟨hy, hsorted⟩ := List.pairwise_cons.1 h
    rw [List.forall_mem_cons] at hkeys hx
    simp only [insertSorted, hkeys.1]
    split
    · next hlt =>
      refine List.pairwise_cons.2 ⟨fun z hz => ?_, ih hkeys.2 hx.2 hsorted⟩
      rcases List.mem_cons.1 ((perm_insertSorted keys x sorted).mem_iff.1 hz) with rfl | hz
      · exact .inl hlt
      · exact hy z hz
    · next hlt =>
      have hle : (cmp y x).isLE :=
        Std.OrientedCmp.isGE_iff_isLE.1 (Ordering.isGE_iff_ne_lt.2 hlt)
      have hfollows {z : Id × Row} (hz : (cmp z x).isLE) (hb : before z x) :
          Precedes cmp before z x :=
        (Ordering.isLE_iff_eq_lt_or_eq_eq.1 hz).imp_right fun heq => ⟨heq, hb⟩
      refine List.pairwise_cons.2 ⟨fun z hz => ?_, h⟩
      rcases List.mem_cons.1 hz with rfl | hz
      · exact hfollows hle hx.1
      · refine hfollows (Std.TransCmp.isLE_trans ?_ hle) (hx.2 z hz)
        exact Ordering.isLE_iff_eq_lt_or_eq_eq.2 ((hy z hz).imp_right And.left)

/-- Rows are sorted by their keys, and those that no key tells apart stand as before. -/
theorem pairwise_sort {rows : List (Id × Row)} (hkeys : ComparedBy keys cmp rows)
    (hrows : rows.Pairwise before) : (sort keys rows).Pairwise (Precedes cmp before) := by
  have hfold (sorted rest : List (Id × Row)) (hkeys : ComparedBy keys cmp (sorted ++ rest))
      (hacross : ∀ a ∈ sorted, ∀ b ∈ rest, before a b) (hrest : rest.Pairwise before)
      (h : sorted.Pairwise fun b a => Precedes cmp before a b) :
      (rest.foldl (fun sorted x => insertSorted keys x sorted) sorted).Pairwise
        fun b a => Precedes cmp before a b := by
    induction rest generalizing sorted with
    | nil => exact h
    | cons x rest ih =>
      obtain ⟨hx, hrest⟩ := List.pairwise_cons.1 hrest
      have hsame {e : Id × Row} :
          e ∈ insertSorted keys x sorted ++ rest ↔ e ∈ sorted ++ x :: rest :=
        (perm_insertSorted_append keys x sorted rest).mem_iff
      refine ih _ (fun a ha b hb => hkeys a (hsame.1 ha) b (hsame.1 hb)) (fun a ha b hb => ?_) hrest
        ?_
      · rcases List.mem_cons.1 ((perm_insertSorted keys x sorted).mem_iff.1 ha) with rfl | ha
        · exact hx b hb
        · exact hacross a ha b (List.mem_cons_of_mem x hb)
      · exact pairwise_insertSorted
          (fun y hy => hkeys x (by simp) y (List.mem_append_left _ hy))
          (fun y hy => hacross y hy x List.mem_cons_self) h
  exact List.pairwise_reverse.2 (hfold [] rows hkeys (by simp) hrows .nil)

end

end Recordkeeper.Table
