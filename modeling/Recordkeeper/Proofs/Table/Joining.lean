import Recordkeeper.Proofs.Table.Sorting

set_option autoImplicit false

namespace Recordkeeper

namespace Matching

variable (columns : Columns)

theorem satisfiesAll_append (cs ds : List Constraint) :
    satisfiesAll columns (cs ++ ds) = do
      let here ← satisfiesAll columns cs
      let rest ← satisfiesAll columns ds
      return here && rest := by
  induction cs with
  | nil =>
    cases h : satisfiesAll columns ds <;>
      simp [satisfiesAll, h, bind, Except.bind, pure, Except.pure]
  | cons c cs ih =>
    rw [List.cons_append, satisfiesAll, satisfiesAll, ih]
    cases satisfies columns c with
    | error e => rfl
    | ok a => cases satisfiesAll columns cs with
      | error e => rfl
      | ok b => cases satisfiesAll columns ds with
        | error e => rfl
        | ok d => simp [bind, Except.bind, pure, Except.pure, Bool.and_assoc]

theorem satisfiesAll_singleton (c : Constraint) :
    satisfiesAll columns [c] = satisfies columns c := by
  rw [satisfiesAll]
  cases satisfies columns c with
  | error e => rfl
  | ok a => simp [satisfiesAll, bind, Except.bind, pure, Except.pure]

def Joins {ε : Type} (x y z : Except ε Bool) : Prop :=
  ∀ b, x = .ok b ↔ ∃ c d, y = .ok c ∧ z = .ok d ∧ b = (c || d)

theorem Joins.isOk_iff {ε : Type} {x y z : Except ε Bool} (h : Joins x y z) :
    (∃ b, x = .ok b) ↔ (∃ c, y = .ok c) ∧ ∃ d, z = .ok d := by
  constructor
  · rintro ⟨b, hb⟩
    obtain ⟨c, d, hc, hd, -⟩ := (h b).1 hb
    exact ⟨⟨c, hc⟩, d, hd⟩
  · rintro ⟨⟨c, hc⟩, d, hd⟩
    exact ⟨c || d, (h _).2 ⟨c, d, hc, hd, rfl⟩⟩

theorem satisfiesAll_around (before after : List Constraint) (c : Constraint) {b : Bool} :
    satisfiesAll columns (before ++ [c] ++ after) = .ok b ↔
      ∃ x y here, satisfiesAll columns before = .ok x ∧ satisfiesAll columns after = .ok y ∧
        satisfies columns c = .ok here ∧ b = (x && here && y) := by
  rw [satisfiesAll_append, satisfiesAll_append, satisfiesAll_singleton]
  cases satisfiesAll columns before with
  | error m => simp [bind, Except.bind]
  | ok x => cases satisfies columns c with
    | error m => simp [bind, Except.bind]
    | ok here => cases satisfiesAll columns after with
      | error m => simp [bind, Except.bind, pure, Except.pure]
      | ok y => simp [bind, Except.bind, pure, Except.pure, eq_comm]

theorem Joins.around {c d e : Constraint}
    (h : Joins (satisfies columns c) (satisfies columns d) (satisfies columns e))
    (before after : List Constraint) :
    Joins (satisfiesAll columns (before ++ [c] ++ after))
      (satisfiesAll columns (before ++ [d] ++ after))
      (satisfiesAll columns (before ++ [e] ++ after)) := by
  have hor : ∀ x y l r : Bool, (x && (l || r) && y) = ((x && l && y) || (x && r && y)) := by decide
  intro b
  simp only [satisfiesAll_around]
  constructor
  · rintro ⟨x, y, here, hx, hy, hhere, rfl⟩
    obtain ⟨l, r, hl, hr, rfl⟩ := (h here).1 hhere
    exact ⟨_, _, ⟨x, y, l, hx, hy, hl, rfl⟩, ⟨x, y, r, hx, hy, hr, rfl⟩, hor x y l r⟩
  · rintro ⟨_, _, ⟨x, y, l, hx, hy, hl, rfl⟩, ⟨x', y', r, hx', hy', hr, rfl⟩, rfl⟩
    obtain rfl := Except.ok.inj (hx.symm.trans hx')
    obtain rfl := Except.ok.inj (hy.symm.trans hy')
    exact ⟨x, y, l || r, hx, hy, (h _).2 ⟨l, r, hl, hr, rfl⟩, (hor x y l r).symm⟩

end Matching

namespace Table

open Matching (Joins)

/-- Three queries of which the first finds what the other two find, and fails where either does. -/
structure Unites {α : Type} (E : EntityType α) (t : Table) (q q₁ q₂ : Query) : Prop where
  rows {found found₁ found₂ : List (Id × Row)} : matching q t.rows = .ok found →
    matching q₁ t.rows = .ok found₁ → matching q₂ t.rows = .ok found₂ →
    ∀ e, e ∈ found ↔ e ∈ found₁ ∨ e ∈ found₂
  records {xs xs₁ xs₂ : List α} : t.query E q none = .ok xs → t.query E q₁ none = .ok xs₁ →
    t.query E q₂ none = .ok xs₂ → ∀ x, x ∈ xs ↔ x ∈ xs₁ ∨ x ∈ xs₂
  queried : (∃ xs, t.query E q none = .ok xs) ↔
    (∃ xs, t.query E q₁ none = .ok xs) ∧ ∃ xs, t.query E q₂ none = .ok xs
  counted : (∃ n, t.count q = .ok n) ↔ (∃ n, t.count q₁ = .ok n) ∧ ∃ n, t.count q₂ = .ok n

variable {α : Type} {E : EntityType α} {t : Table} {q q₁ q₂ : Query}

def Decides (q : Query) (t : Table) : Prop := ∀ e ∈ t.rows, ∃ b, verdict q e = .ok b

theorem decides_iff : Decides q t ↔ ∃ found, matching q t.rows = .ok found := by
  simp [Decides, matching_eq_ok]

theorem count_isOk : (∃ n, t.count q = .ok n) ↔ Decides q t := by
  rw [decides_iff, count]
  cases matching q t.rows <;> simp [bind, Except.bind, pure, Except.pure]

theorem forall_of_mapM {ε β γ : Type} {f : β → Except ε γ} {xs : List β} {ys : List γ}
    (h : xs.mapM f = .ok ys) : ∀ x ∈ xs, ∃ y, f x = .ok y := by
  have hys := mapM_eq_ok.1 h
  clear h
  induction hys with
  | nil => simp
  | cons hxy _ ih => exact List.forall_mem_cons.2 ⟨⟨_, hxy⟩, ih⟩

theorem mem_mapM {ε β γ : Type} {f : β → Except ε γ} {xs : List β} {ys : List γ}
    (h : xs.mapM f = .ok ys) (y : γ) : y ∈ ys ↔ ∃ x ∈ xs, f x = .ok y := by
  obtain ⟨ys', hys', hmem⟩ := mapM_of_forall (forall_of_mapM h)
  obtain rfl := Except.ok.inj (h.symm.trans hys')
  exact hmem y

theorem mem_sort_filter {keys : List SortKey} {e : Id × Row} :
    e ∈ sort keys (t.rows.filter (finds q)) ↔ e ∈ t.rows ∧ finds q e = true := by
  rw [(perm_sort keys _).mem_iff, List.mem_filter]

theorem query_all_eq_ok {xs : List α} :
    t.query E q none = .ok xs ↔ Decides q t ∧ ∃ keys, sortKeys q.order = .ok keys ∧
      (sort keys (t.rows.filter (finds q))).mapM (fun e => recordOf E e.1 e.2) = .ok xs := by
  rw [query_eq_ok]
  constructor
  · rintro ⟨found, keys, hfound, hkeys, hrecords⟩
    obtain ⟨hdecides, rfl⟩ := matching_eq_ok.1 hfound
    exact ⟨hdecides, keys, hkeys, mapM_eq_ok.2 hrecords⟩
  · rintro ⟨hdecides, keys, hkeys, hrecords⟩
    exact ⟨_, keys, matching_eq_ok.2 ⟨hdecides, rfl⟩, hkeys, mapM_eq_ok.1 hrecords⟩

theorem query_isOk :
    (∃ xs, t.query E q none = .ok xs) ↔
      Decides q t ∧ (∃ keys, sortKeys q.order = .ok keys) ∧
        ∀ e ∈ t.rows, finds q e = true → ∃ x, recordOf E e.1 e.2 = .ok x := by
  simp only [query_all_eq_ok]
  constructor
  · rintro ⟨xs, hdecides, keys, hkeys, hrecords⟩
    exact ⟨hdecides, ⟨keys, hkeys⟩, fun e he hfinds =>
      forall_of_mapM hrecords e (mem_sort_filter.2 ⟨he, hfinds⟩)⟩
  · rintro ⟨hdecides, ⟨keys, hkeys⟩, hread⟩
    obtain ⟨xs, hxs, -⟩ := mapM_of_forall fun e he =>
      hread e (mem_sort_filter.1 he).1 (mem_sort_filter.1 he).2
    exact ⟨xs, hdecides, keys, hkeys, hxs⟩

theorem mem_query {xs : List α} (h : t.query E q none = .ok xs) (x : α) :
    x ∈ xs ↔ ∃ e ∈ t.rows, finds q e = true ∧ recordOf E e.1 e.2 = .ok x := by
  obtain ⟨-, keys, -, hrecords⟩ := query_all_eq_ok.1 h
  simp only [mem_mapM hrecords, mem_sort_filter, and_assoc]

variable (h : ∀ e ∈ t.rows, Joins (verdict q e) (verdict q₁ e) (verdict q₂ e))

include h

theorem decides_joined : Decides q t ↔ Decides q₁ t ∧ Decides q₂ t := by
  constructor
  · intro hall
    exact ⟨fun e he => ((h e he).isOk_iff.1 (hall e he)).1,
      fun e he => ((h e he).isOk_iff.1 (hall e he)).2⟩
  · rintro ⟨hleft, hright⟩ e he
    exact (h e he).isOk_iff.2 ⟨hleft e he, hright e he⟩

theorem finds_joined (hall : Decides q t) {e : Id × Row} (he : e ∈ t.rows) :
    finds q e = true ↔ finds q₁ e = true ∨ finds q₂ e = true := by
  obtain ⟨b, hb⟩ := hall e he
  obtain ⟨c, d, hc, hd, rfl⟩ := (h e he b).1 hb
  rw [finds_of_verdict hb, finds_of_verdict hc, finds_of_verdict hd, Bool.or_eq_true]

theorem mem_joined (hall : Decides q t) (e : Id × Row) :
    e ∈ t.rows.filter (finds q) ↔ e ∈ t.rows.filter (finds q₁) ∨ e ∈ t.rows.filter (finds q₂) := by
  simp only [List.mem_filter, ← and_or_left]
  exact and_congr_right fun he => finds_joined h hall he

theorem unites_of_joins (ho₁ : q₁.order = q.order) (ho₂ : q₂.order = q.order) :
    Unites E t q q₁ q₂ where
  rows hfound hfound₁ hfound₂ := by
    obtain ⟨hall, rfl⟩ := matching_eq_ok.1 hfound
    obtain ⟨-, rfl⟩ := matching_eq_ok.1 hfound₁
    obtain ⟨-, rfl⟩ := matching_eq_ok.1 hfound₂
    exact mem_joined h hall
  records hxs hxs₁ hxs₂ x := by
    obtain ⟨hall, -⟩ := query_all_eq_ok.1 hxs
    rw [mem_query hxs, mem_query hxs₁, mem_query hxs₂]
    constructor
    · rintro ⟨e, he, hfinds, hx⟩
      exact ((finds_joined h hall he).1 hfinds).imp (fun hf => ⟨e, he, hf, hx⟩)
        fun hf => ⟨e, he, hf, hx⟩
    · rintro (⟨e, he, hf, hx⟩ | ⟨e, he, hf, hx⟩)
      · exact ⟨e, he, (finds_joined h hall he).2 (.inl hf), hx⟩
      · exact ⟨e, he, (finds_joined h hall he).2 (.inr hf), hx⟩
  queried := by
    rw [query_isOk, query_isOk, query_isOk, ho₁, ho₂]
    constructor
    · rintro ⟨hall, hkeys, hread⟩
      obtain ⟨hleft, hright⟩ := (decides_joined h).1 hall
      exact ⟨⟨hleft, hkeys, fun e he hf => hread e he ((finds_joined h hall he).2 (.inl hf))⟩,
        hright, hkeys, fun e he hf => hread e he ((finds_joined h hall he).2 (.inr hf))⟩
    · rintro ⟨⟨hleft, hkeys, hread⟩, hright, -, hread'⟩
      have hall := (decides_joined h).2 ⟨hleft, hright⟩
      exact ⟨hall, hkeys, fun e he hf =>
        ((finds_joined h hall he).1 hf).elim (hread e he) (hread' e he)⟩
  counted := by rw [count_isOk, count_isOk, count_isOk, decides_joined h]

end Table

end Recordkeeper
