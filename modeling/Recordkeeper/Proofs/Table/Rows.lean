import Mathlib.Data.Finset.Card
import Mathlib.Data.List.Sort
import Mathlib.Order.Interval.Finset.Nat
import Recordkeeper.Store.Table

set_option autoImplicit false

namespace Recordkeeper.Table

theorem lookup_cons_ite (i j : Id) (row : Row) (rows : List (Id × Row)) :
    ((j, row) :: rows).lookup i = if i = j then some row else rows.lookup i := by
  by_cases h : i = j
  · simp [h]
  · simp [List.lookup_cons, h, beq_false_of_ne h]

theorem lookup_putRow (id i : Id) (row : Row) (rows : List (Id × Row)) :
    (putRow id row rows).lookup i = if i = id then some row else rows.lookup i := by
  induction rows with
  | nil => simp [putRow, lookup_cons_ite]
  | cons e rest ih =>
    obtain ⟨j, r⟩ := e
    simp only [putRow]
    split
    · next hj =>
      subst hj
      by_cases h : i = j <;> simp [lookup_cons_ite, h]
    · next hj =>
      split
      · simp [lookup_cons_ite]
      · by_cases h : i = j
        · subst h
          simp [hj]
        · simp [lookup_cons_ite, h, ih]

theorem lookup_filter_ne (id i : Id) (rows : List (Id × Row)) :
    (rows.filter (·.1 != id)).lookup i = if i = id then none else rows.lookup i := by
  induction rows with
  | nil => simp
  | cons e rest ih =>
    obtain ⟨j, r⟩ := e
    by_cases hj : j = id
    · subst hj
      have hf : List.filter (·.1 != j) ((j, r) :: rest) = rest.filter (·.1 != j) := by simp
      rw [hf, ih]
      by_cases h : i = j <;> simp [lookup_cons_ite, h]
    · have hf : List.filter (·.1 != id) ((j, r) :: rest) = (j, r) :: rest.filter (·.1 != id) := by
        simp [hj]
      rw [hf, lookup_cons_ite, lookup_cons_ite, ih]
      by_cases h : i = j
      · subst h
        simp [hj]
      · simp [h]

theorem get?_put (t : Table) (id i : Id) (row : Row) :
    (t.put id row).get? i = if i = id then some row else t.get? i := lookup_putRow id i row t.rows

@[simp] theorem get?_put_self (t : Table) (id : Id) (row : Row) :
    (t.put id row).get? id = some row := by simp [get?_put]

theorem get?_erase (t : Table) (id i : Id) :
    (t.erase id).get? i = if i = id then none else t.get? i := lookup_filter_ne id i t.rows

theorem live?_eq_some {t : Table} {id : Id} {row : Row} :
    t.live? id = some row ↔ t.get? id = some row ∧ row.isDeleted = false := by
  simp [live?, Option.filter_eq_some_iff]

theorem get?_of_live? {t : Table} {id : Id} {row : Row} (h : t.live? id = some row) :
    t.get? id = some row := (live?_eq_some.1 h).1

theorem get?_congr {t t' : Table} (h : t'.rows = t.rows) (id : Id) : t'.get? id = t.get? id := by
  simp [get?, h]

def All (P : Id → Row → Prop) (t : Table) : Prop := ∀ id row, t.get? id = some row → P id row

section

variable {P : Id → Row → Prop} {t t' : Table}

theorem all_empty : All P {} := fun _ _ h => by cases h

theorem All.congr (h : All P t) (ht : t'.rows = t.rows) : All P t' := fun id row hrow =>
  h id row (by rw [← hrow, get?_congr ht])

theorem All.put (h : All P t) {id : Id} {row : Row} (hrow : P id row) : All P (t.put id row) := by
  intro i row' hi
  rw [get?_put] at hi
  split at hi
  · next he =>
    obtain rfl := Option.some.inj hi
    exact he ▸ hrow
  · exact h i row' hi

theorem All.erase (h : All P t) (id : Id) : All P (t.erase id) := by
  intro i row hi
  rw [get?_erase] at hi
  split at hi
  · cases hi
  · exact h i row hi

end

/-- Rows stand in the order of their identities. -/
def Ordered (rows : List (Id × Row)) : Prop := rows.Pairwise fun a b => a.1 < b.1

section

variable {rows rows' : List (Id × Row)}

theorem Ordered.mem_iff (h : Ordered rows) (e : Id × Row) : e ∈ rows ↔ rows.lookup e.1 = some e.2 := by
  constructor
  · intro he
    induction rows with
    | nil => cases he
    | cons d rest ih =>
      obtain ⟨i, row⟩ := d
      obtain ⟨hd, hr⟩ := List.pairwise_cons.1 h
      rw [lookup_cons_ite]
      rcases List.mem_cons.1 he with rfl | he
      · exact if_pos rfl
      · rw [if_neg (UInt64.ne_of_lt (hd e he)).symm]
        exact ih hr he
  · intro hget
    obtain ⟨l, r, hl, -⟩ := List.lookup_eq_some_iff.1 hget
    simp [hl]

theorem Ordered.filter (h : Ordered rows) (p : Id × Row → Bool) : Ordered (rows.filter p) :=
  List.Pairwise.filter p h

theorem Ordered.ext (h : Ordered rows) (h' : Ordered rows') (hmem : ∀ e, e ∈ rows ↔ e ∈ rows') :
    rows = rows' := by
  let before : Id × Row → Id × Row → Prop := fun a b => a.1 < b.1
  have : Std.Asymm before := ⟨fun _ _ hab => UInt64.lt_asymm hab⟩
  exact List.Pairwise.eq_of_mem_iff (r := before) h h' hmem

end

structure Keyed (rows : List (Id × Row)) : Prop where
  ordered : rows.Pairwise fun a b => a.1 < b.1
  nonzero : ∀ e ∈ rows, e.1 ≠ 0

theorem keyed_nil : Keyed [] := ⟨.nil, by simp⟩

theorem mem_putRow {id : Id} {row : Row} {rows : List (Id × Row)} {e : Id × Row}
    (h : e ∈ putRow id row rows) : e = (id, row) ∨ e ∈ rows := by
  induction rows with
  | nil => simpa [putRow] using h
  | cons d rest ih =>
    simp only [putRow] at h
    split at h
    · rcases List.mem_cons.1 h with h | h
      · exact .inl h
      · exact .inr (List.mem_cons_of_mem _ h)
    · split at h
      · rcases List.mem_cons.1 h with h | h
        · exact .inl h
        · exact .inr h
      · rcases List.mem_cons.1 h with h | h
        · exact .inr (h ▸ List.mem_cons_self)
        · exact (ih h).imp_right (List.mem_cons_of_mem _)

theorem Keyed.putRow {id : Id} {rows : List (Id × Row)} (h : Keyed rows) (hid : id ≠ 0)
    (row : Row) : Keyed (putRow id row rows) := by
  refine ⟨?_, fun e he => ?_⟩
  · have ho := h.ordered
    clear h
    induction rows with
    | nil => simp [Table.putRow]
    | cons d rest ih =>
      obtain ⟨i, r⟩ := d
      obtain ⟨hd, hr⟩ := List.pairwise_cons.1 ho
      simp only [Table.putRow]
      split
      · next hi =>
        subst hi
        exact List.pairwise_cons.2 ⟨hd, hr⟩
      · next hne =>
        split
        · next hlt =>
          refine List.pairwise_cons.2 ⟨fun e he => ?_, ho⟩
          rcases List.mem_cons.1 he with rfl | he
          · exact hlt
          · exact UInt64.lt_trans hlt (hd e he)
        · next hge =>
          refine List.pairwise_cons.2 ⟨fun e he => ?_, ih hr⟩
          rcases mem_putRow he with rfl | he
          · exact UInt64.lt_of_le_of_ne (UInt64.not_lt.1 hge) hne
          · exact hd e he
  · rcases mem_putRow he with rfl | he
    · exact hid
    · exact h.nonzero e he

theorem Keyed.filter {rows : List (Id × Row)} (h : Keyed rows) (p : Id × Row → Bool) :
    Keyed (rows.filter p) :=
  ⟨h.ordered.filter p, fun e he => h.nonzero e (List.mem_filter.1 he).1⟩

theorem Keyed.ne_zero {t : Table} (h : Keyed t.rows) {id : Id} {row : Row}
    (hrow : t.get? id = some row) : id ≠ 0 := by
  obtain ⟨l, r, hl, -⟩ := List.lookup_eq_some_iff.1 hrow
  exact h.nonzero (id, row) (by simp [hl])

theorem Keyed.get?_of_mem {t : Table} (h : Keyed t.rows) {e : Id × Row} (he : e ∈ t.rows) :
    t.get? e.1 = some e.2 := (Ordered.mem_iff h.ordered e).1 he

theorem Keyed.length_lt {rows : List (Id × Row)} (h : Keyed rows) : rows.length < 2 ^ 64 := by
  have hn : (rows.map fun e => e.1.toNat).Nodup := by
    rw [List.Nodup, List.pairwise_map]
    exact h.ordered.imp fun hab => Nat.ne_of_lt (UInt64.lt_iff_toNat_lt.1 hab)
  have hs : (rows.map fun e => e.1.toNat).toFinset ⊆ Finset.Ico 1 (2 ^ 64) := by
    intro n hm
    obtain ⟨e, he, rfl⟩ := List.mem_map.1 (List.mem_toFinset.1 hm)
    have h0 : e.1.toNat ≠ 0 := fun h0 => h.nonzero e he (UInt64.toNat_inj.1 h0)
    have hlt := e.1.toNat_lt
    simp only [Finset.mem_Ico]
    omega
  have hc := Finset.card_le_card hs
  rw [List.toFinset_card_of_nodup hn, List.length_map, Nat.card_Ico] at hc
  omega

end Recordkeeper.Table
