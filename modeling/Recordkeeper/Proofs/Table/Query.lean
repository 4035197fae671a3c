import Mathlib.Data.List.Forall2
import Recordkeeper.Store.Table

set_option autoImplicit false

namespace Recordkeeper.Table

theorem mapM_eq_ok {ε β γ : Type} {f : β → Except ε γ} {xs : List β} {ys : List γ} :
    xs.mapM f = .ok ys ↔ List.Forall₂ (fun x y => f x = .ok y) xs ys := by
  induction xs generalizing ys with
  | nil => simp [pure, Except.pure, eq_comm]
  | cons x xs ih =>
    simp only [List.mapM_cons, List.forall₂_cons_left_iff, ← ih]
    cases hx : f x with
    | error e => simp [bind, Except.bind]
    | ok y =>
      cases hxs : xs.mapM f with
      | error e => simp [bind, Except.bind]
      | ok ys' => simp [bind, Except.bind, pure, Except.pure, eq_comm]

theorem mapM_of_forall {ε β γ : Type} {f : β → Except ε γ} {xs : List β}
    (h : ∀ x ∈ xs, ∃ y, f x = .ok y) :
    ∃ ys, xs.mapM f = .ok ys ∧ ∀ y, y ∈ ys ↔ ∃ x ∈ xs, f x = .ok y := by
  induction xs with
  | nil => exact ⟨[], rfl, by simp⟩
  | cons x xs ih =>
    rw [List.forall_mem_cons] at h
    obtain ⟨y, hy⟩ := h.1
    obtain ⟨ys, hys, hmem⟩ := ih h.2
    refine ⟨y :: ys, ?_, fun z => ?_⟩
    · simp [List.mapM_cons, hy, hys, bind, Except.bind, pure, Except.pure]
    · simp [List.mem_cons, hmem, hy, eq_comm]

theorem length_insertSorted (keys : List SortKey) (x : Id × Row) (rows : List (Id × Row)) :
    (insertSorted keys x rows).length = rows.length + 1 := by
  induction rows with
  | nil => rfl
  | cons y rows ih =>
    simp only [insertSorted]
    split <;> simp [ih]

theorem length_sort (keys : List SortKey) (rows : List (Id × Row)) :
    (sort keys rows).length = rows.length := by
  have hfold (sorted : List (Id × Row)) :
      (rows.foldl (fun sorted x => insertSorted keys x sorted) sorted).length =
        sorted.length + rows.length := by
    induction rows generalizing sorted with
    | nil => rfl
    | cons x rows ih =>
      simp only [List.foldl_cons, ih, length_insertSorted, List.length_cons]
      omega
  simp [sort, hfold]

theorem matching_sublist {q : Query} {rows found : List (Id × Row)}
    (h : matching q rows = .ok found) : found.Sublist rows := by
  induction rows generalizing found with
  | nil =>
    obtain rfl := Except.ok.inj h
    exact .slnil
  | cons e rows ih =>
    obtain ⟨id, row⟩ := e
    simp only [matching] at h
    split at h
    · cases hk : (Matching.satisfiesAll (row.column id) q.constraints).mapError queryError with
      | error e => simp [hk, bind, Except.bind] at h
      | ok keep =>
        cases hr : matching q rows with
        | error e => simp [hk, hr, bind, Except.bind] at h
        | ok rest =>
          simp only [hk, hr, bind, Except.bind, pure, Except.pure, Except.ok.injEq] at h
          subst h
          split
          · exact (ih hr).cons_cons _
          · exact (ih hr).cons _
    · exact (ih h).cons _

theorem sort_nil (rows : List (Id × Row)) : sort [] rows = rows := by
  have hinsert (x : Id × Row) (sorted : List (Id × Row)) :
      insertSorted [] x sorted = x :: sorted := by
    cases sorted <;> rfl
  simp [sort, hinsert]

theorem find_live {α : Type} (E : EntityType α) (t : Table) (id : Id) :
    t.find E id .active =
      match t.live? id with
      | some row => some <$> recordOf E id row
      | none => .ok none := by
  unfold find live?
  cases t.get? id with
  | none => rfl
  | some row => cases hd : row.isDeleted <;> simp [Visibility.admits, Option.filter, hd]

theorem matching_decided {q : Query} {rows : List (Id × Row)} {p : Id × Row → Bool}
    (h : ∀ e ∈ rows, Matching.satisfiesAll (e.2.column e.1) q.constraints = .ok (p e)) :
    matching q rows = .ok (rows.filter fun e => q.visibility.admits e.2.isDeleted && p e) := by
  induction rows with
  | nil => rfl
  | cons e rows ih =>
    obtain ⟨id, row⟩ := e
    obtain ⟨hrow, hrows⟩ := List.forall_mem_cons.1 h
    simp only [matching, hrow, ih hrows, List.filter_cons]
    cases q.visibility.admits row.isDeleted
    · rfl
    · cases p (id, row) <;> rfl

theorem matching_unconstrained {q : Query} (hq : q.constraints = []) (rows : List (Id × Row)) :
    matching q rows = .ok (rows.filter fun e => q.visibility.admits e.2.isDeleted) := by
  rw [matching_decided (p := fun _ => true) fun e _ => by rw [hq]; rfl]
  simp only [Bool.and_true]

/-- What a query says of one row: rows that it does not see are not asked about its constraints. -/
def verdict (q : Query) (e : Id × Row) : Except String Bool :=
  if q.visibility.admits e.2.isDeleted then
    Matching.satisfiesAll (e.2.column e.1) q.constraints
  else .ok false

theorem matching_cons (q : Query) (e : Id × Row) (rows : List (Id × Row)) :
    matching q (e :: rows) = do
      let keep ← (verdict q e).mapError queryError
      let found ← matching q rows
      return if keep then e :: found else found := by
  obtain ⟨id, row⟩ := e
  simp only [matching, verdict]
  split
  · rfl
  · cases matching q rows <;> rfl

theorem matching_verdicts {q q' : Query} {rows : List (Id × Row)}
    (h : ∀ e ∈ rows, verdict q e = verdict q' e) : matching q rows = matching q' rows := by
  induction rows with
  | nil => rfl
  | cons e rows ih =>
    obtain ⟨he, hrows⟩ := List.forall_mem_cons.1 h
    rw [matching_cons, matching_cons, he, ih hrows]

def finds (q : Query) (e : Id × Row) : Bool := (verdict q e).toOption.getD false

theorem finds_of_verdict {q : Query} {e : Id × Row} {b : Bool} (h : verdict q e = .ok b) :
    finds q e = b := by
  simp [finds, h, Except.toOption]

/-- A query that can tell of each row whether it is asked for finds those rows. -/
theorem matching_eq_ok {q : Query} {rows found : List (Id × Row)} :
    matching q rows = .ok found ↔
      (∀ e ∈ rows, ∃ b, verdict q e = .ok b) ∧ found = rows.filter (finds q) := by
  induction rows generalizing found with
  | nil => simp [matching, eq_comm]
  | cons e rows ih =>
    rw [matching_cons, List.forall_mem_cons, List.filter_cons]
    cases he : verdict q e with
    | error m => simp [Except.mapError, bind, Except.bind]
    | ok b =>
      rw [finds_of_verdict he]
      cases hrest : matching q rows with
      | error m =>
        constructor
        · intro h
          cases h
        · rintro ⟨⟨-, hall⟩, -⟩
          cases hrest.symm.trans (ih.2 ⟨hall, rfl⟩)
      | ok rest =>
        obtain ⟨hall, rfl⟩ := ih.1 hrest
        simp only [Except.mapError, bind, Except.bind, pure, Except.pure, Except.ok.injEq]
        constructor
        · rintro rfl
          exact ⟨⟨⟨b, rfl⟩, hall⟩, rfl⟩
        · rintro ⟨-, rfl⟩
          rfl

section

variable {α : Type} {E : EntityType α} {t : Table} {q : Query}

/-- A query succeeds if its rows can be told and put in order, and those of the window can be
read. -/
theorem query_eq_ok {w : Option Window} {records : List α} :
    t.query E q w = .ok records ↔
      ∃ found keys, matching q t.rows = .ok found ∧ sortKeys q.order = .ok keys ∧
        List.Forall₂ (fun e x => recordOf E e.1 e.2 = .ok x) (Window.cut w (sort keys found))
          records := by
  unfold query
  cases hm : matching q t.rows with
  | error e => simp [bind, Except.bind]
  | ok found =>
    cases hk : sortKeys q.order with
    | error e => simp [bind, Except.bind]
    | ok keys => simp [bind, Except.bind, mapM_eq_ok]

theorem query_window {records : List α} (h : t.query E q none = .ok records) (w : Window) :
    t.query E q (some w) = .ok (Window.cut (some w) records) := by
  obtain ⟨found, keys, hfound, hkeys, hrecords⟩ := query_eq_ok.1 h
  exact query_eq_ok.2 ⟨found, keys, hfound, hkeys,
    List.forall₂_take _ (List.forall₂_drop _ hrecords)⟩

theorem count_of_query {records : List α} (h : t.query E q none = .ok records) :
    t.count q = .ok (UInt64.ofNat records.length) ∧ records.length ≤ t.rows.length := by
  obtain ⟨found, keys, hfound, -, hrecords⟩ := query_eq_ok.1 h
  have hlen : found.length = records.length := by
    rw [← length_sort keys found]
    exact hrecords.length_eq
  constructor
  · simp [count, hfound, bind, Except.bind, pure, Except.pure, hlen]
  · rw [← hlen]
    exact (matching_sublist hfound).length_le

variable {q' : Query}

theorem query_verdicts (h : ∀ e ∈ t.rows, verdict q e = verdict q' e) (ho : q.order = q'.order)
    (w : Option Window) : t.query E q w = t.query E q' w := by
  rw [query, query, matching_verdicts h, ho]

theorem count_verdicts (h : ∀ e ∈ t.rows, verdict q e = verdict q' e) : t.count q = t.count q' := by
  rw [count, count, matching_verdicts h]

end

end Recordkeeper.Table
