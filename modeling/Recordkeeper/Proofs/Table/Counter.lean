import Recordkeeper.Proofs.Table.Outcome

set_option autoImplicit false

namespace Recordkeeper.Table

variable {α : Type} {E : EntityType α} {now : Timestamp} {t : Table}

def Counted (t : Table) : Prop := ∀ id row, t.get? id = some row → id ≤ t.counter

theorem counted_empty : Counted {} := fun _ _ h => by cases h

theorem lt_of_nextFree? {rows : List (Id × Row)} {counter id : Id} {tries : Nat}
    (h : nextFree? rows counter tries = some id) : counter < id := by
  induction tries generalizing counter with
  | zero => cases h
  | succ tries ih =>
    simp only [nextFree?] at h
    split at h
    · cases h
    · next hlast =>
      have hstep : counter < counter + 1 := by
        have hlt := counter.toNat_lt
        simp only [UInt64.size] at hlast
        rw [UInt64.lt_iff_toNat_lt, UInt64.toNat_add, UInt64.toNat_one]
        omega
      split at h
      · exact UInt64.lt_trans hstep (ih h)
      · obtain rfl := Option.some.inj h
        exact hstep

theorem insert_counter (now : Timestamp) {x : α} (hx : E.isNew x) :
    t.counter ≤ (t.insert E now x).2.counter ∧
      ∀ id row, (t.insert E now x).2.get? id = some row →
        t.get? id = some row ∨ t.counter < id ∧ id ≤ (t.insert E now x).2.counter := by
  have hid : E.identity x = 0 := by simpa [EntityType.isNew] using hx
  have hsame : t.counter ≤ t.counter ∧ ∀ id row, t.get? id = some row →
      t.get? id = some row ∨ t.counter < id ∧ id ≤ t.counter :=
    ⟨UInt64.le_refl _, fun _ _ h => .inl h⟩
  unfold insert
  cases dataOf E x with
  | error e => exact hsame
  | ok data =>
    simp only [hid, if_pos]
    cases hnext : nextFree? t.rows t.counter (t.rows.length + 1) with
    | none => exact hsame
    | some id =>
      have hlt := lt_of_nextFree? hnext
      have hle := UInt64.le_of_lt hlt
      simp only [place]
      cases recordOf E id { data := stampNew now data } with
      | error e => exact ⟨hle, fun _ _ h => .inl h⟩
      | ok y =>
        refine ⟨hle, fun i row h => ?_⟩
        have hput : (t.put id { data := stampNew now data }).get? i = some row := h
        rw [get?_put] at hput
        split at hput
        · next hi =>
          subst hi
          exact .inr ⟨hlt, UInt64.le_refl _⟩
        · exact .inl hput

theorem answer_counter (now : Timestamp) {c : StoreCall α} (hc : ∀ x, c ≠ .insert x) :
    (t.answer E now c).2.counter = t.counter ∧
      ∀ id, t.get? id = none → (t.answer E now c).2.get? id = none := by
  have hsame : t.counter = t.counter ∧ ∀ id, t.get? id = none → t.get? id = none :=
    ⟨rfl, fun _ h => h⟩
  have hput {id : Id} {old : Row} (hold : t.get? id = some old) (row : Row) :
      (t.put id row).counter = t.counter ∧
        ∀ i, t.get? i = none → (t.put id row).get? i = none := by
    refine ⟨rfl, fun i hi => ?_⟩
    rw [get?_put, if_neg, hi]
    rintro rfl
    rw [hold] at hi
    cases hi
  cases c with
  | find | query | count => exact hsame
  | insert x => exact absurd rfl (hc x)
  | save x =>
    simp only [answer, save]
    cases dataOf E x with
    | error e => exact hsame
    | ok data =>
      cases hlive : t.live? (E.identity x) with
      | none => exact hsame
      | some row => exact hput (get?_of_live? hlive) _
  | updateFields id fields =>
    simp only [answer, updateFields]
    cases hlive : t.live? id with
    | none => exact hsame
    | some row =>
      simp only
      split
      · exact hsame
      · split
        · exact hsame
        · exact hput (get?_of_live? hlive) _
  | softDelete id =>
    simp only [answer, softDelete]
    cases hlive : t.live? id with
    | none => exact hsame
    | some row => exact hput (get?_of_live? hlive) _
  | clearTombstone id =>
    simp only [answer, clearTombstone]
    cases hrow : (t.get? id).filter (·.isDeleted) with
    | none => exact hsame
    | some row => exact hput (Option.filter_eq_some_iff.1 hrow).1 _
  | hardDelete id =>
    simp only [answer, hardDelete]
    cases t.get? id with
    | none => exact hsame
    | some row =>
      refine ⟨rfl, fun i hi => ?_⟩
      simp only [get?_erase, hi, ite_self]

/-- Where new records come without an identity, the counter never goes down, and a row that is new
has an identity above it. -/
structure Advances (t t' : Table) : Prop where
  counter : t.counter ≤ t'.counter
  fresh : ∀ id row, t.get? id = none → t'.get? id = some row → t.counter < id
  counted : t.Counted → t'.Counted

theorem advances_self (t : Table) : t.Advances t where
  counter := UInt64.le_refl _
  fresh id row h h' := by
    rw [h] at h'
    cases h'
  counted h := h

theorem Advances.trans {t' t'' : Table} (h : t.Advances t') (h' : t'.Advances t'') :
    t.Advances t'' where
  counter := UInt64.le_trans h.counter h'.counter
  fresh id row hid hrow := by
    cases hmid : t'.get? id with
    | none => exact UInt64.lt_of_le_of_lt h.counter (h'.fresh id row hmid hrow)
    | some old => exact h.fresh id old hid hmid
  counted ht := h'.counted (h.counted ht)

theorem answer_advances {c : StoreCall α} (hc : ∀ x, c = .insert x → E.isNew x) :
    t.Advances (t.answer E now c).2 := by
  by_cases hinsert : ∃ x, c = .insert x
  · obtain ⟨x, rfl⟩ := hinsert
    obtain ⟨hle, hrows⟩ := insert_counter (t := t) now (hc x rfl)
    refine ⟨hle, fun id row hid hrow => ?_, fun ht id row hrow => ?_⟩
    · rcases hrows id row hrow with h | ⟨h, -⟩
      · rw [hid] at h
        cases h
      · exact h
    · rcases hrows id row hrow with h | ⟨-, h⟩
      · exact UInt64.le_trans (ht id row h) hle
      · exact h
  · obtain ⟨hcounter, hnone⟩ := answer_counter (t := t) (E := E) now
      fun x hx => hinsert ⟨x, hx⟩
    refine ⟨hcounter ▸ UInt64.le_refl _, fun id row hid hrow => ?_, fun ht id row hrow => ?_⟩
    · rw [hnone id hid] at hrow
      cases hrow
    · rw [hcounter]
      cases hold : t.get? id with
      | none =>
        rw [hnone id hold] at hrow
        cases hrow
      | some old => exact ht id old hold

end Recordkeeper.Table
