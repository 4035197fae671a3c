import Recordkeeper.Proofs.Table.Rows

/-!
What a store call can do to the rows of a table, said once for all calls. A call that fails or
reaches no row leaves the rows alone; one that reaches a row changes that row and no other.
-/

set_option autoImplicit false

namespace Recordkeeper

def StoreCall.target {α : Type} (E : EntityType α) : StoreCall α → Option Id
  | .save x => some (E.identity x)
  | .updateFields id _ | .softDelete id | .clearTombstone id | .hardDelete id => some id
  | _ => none

namespace Table

variable {α : Type} {E : EntityType α} {now : Timestamp} {t t' : Table}

/-- The document that overwrites the one of a row. -/
def overwritten (now : Timestamp) (row : Row) (data : Object) : Object :=
  (data.replace Column.createdAt ((row.data.get? Column.createdAt).getD .null)).replace
    Column.updatedAt (.str now.text)

/-- The answers that a call can have, with the table it leaves behind. -/
inductive Outcome (E : EntityType α) (now : Timestamp) (t : Table) :
    (c : StoreCall α) → c.Answer → Table → Prop where
  | read {c : StoreCall α} {a : c.Answer} : c.isWrite = false → Outcome E now t c a t
  | refused {c : StoreCall α} {e : StoreError} {t' : Table} : t'.rows = t.rows →
      Outcome E now t c (.error e) t'
  | inserted {x y : α} {data : Object} {id : Id} {n : UInt64} : dataOf E x = .ok data →
      id ≠ 0 → t.get? id = none → recordOf E id { data := stampNew now data } = .ok y →
      Outcome E now t (.insert x) (.ok y)
        { rows := putRow id { data := stampNew now data } t.rows, counter := n }
  | saved {x : α} {data : Object} {row : Row} : dataOf E x = .ok data →
      t.live? (E.identity x) = some row →
      Outcome E now t (.save x) (.ok (1 : UInt64))
        (t.put (E.identity x) { row with data := overwritten now row data })
  | saveMissed {x : α} : t.live? (E.identity x) = none →
      Outcome E now t (.save x) (.ok (0 : UInt64)) t
  | fieldsSet {id : Id} {fields data : Object} {row : Row} {x : α} : t.live? id = some row →
      setColumns fields row.data = .ok data →
      recordOf E id { row with data := data.replace Column.updatedAt (.str now.text) } = .ok x →
      Outcome E now t (.updateFields id fields) (.ok (1 : UInt64))
        (t.put id { row with data := data.replace Column.updatedAt (.str now.text) })
  | fieldsMissed {id : Id} {fields : Object} : t.live? id = none →
      Outcome E now t (.updateFields id fields) (.ok (0 : UInt64)) t
  | tombstoned {id : Id} {row : Row} : t.live? id = some row →
      Outcome E now t (.softDelete id) (.ok (1 : UInt64)) (t.put id { row with deletedAt := some now })
  | deleteMissed {id : Id} : t.live? id = none →
      Outcome E now t (.softDelete id) (.ok (0 : UInt64)) t
  | restored {id : Id} {row : Row} : t.get? id = some row → row.isDeleted = true →
      Outcome E now t (.clearTombstone id) (.ok (1 : UInt64)) (t.put id { row with deletedAt := none })
  | restoreMissed {id : Id} : (∀ row, t.get? id = some row → row.isDeleted = false) →
      Outcome E now t (.clearTombstone id) (.ok (0 : UInt64)) t
  | erased {id : Id} {row : Row} : t.get? id = some row →
      Outcome E now t (.hardDelete id) (.ok (1 : UInt64)) (t.erase id)
  | destroyMissed {id : Id} : t.get? id = none →
      Outcome E now t (.hardDelete id) (.ok (0 : UInt64)) t

theorem nextFree?_some {rows : List (Id × Row)} {counter id : Id} {tries : Nat}
    (h : nextFree? rows counter tries = some id) : id ≠ 0 ∧ rows.lookup id = none := by
  induction tries generalizing counter with
  | zero => simp [nextFree?] at h
  | succ tries ih =>
    simp only [nextFree?] at h
    split at h
    · cases h
    · next hlast =>
      split at h
      · exact ih h
      · next hfree =>
        obtain rfl := Option.some.inj h
        refine ⟨fun h0 => hlast ?_, Option.not_isSome_iff_eq_none.1 hfree⟩
        have hsum := congrArg UInt64.toNat h0
        have hlt := counter.toNat_lt
        rw [UInt64.toNat_add, UInt64.toNat_one, UInt64.toNat_zero] at hsum
        simp only [UInt64.size]
        omega

theorem place_outcome {x : α} {data : Object} {id : Id} (n : UInt64)
    (hdata : dataOf E x = .ok data) (hid : id ≠ 0) (hfree : t.get? id = none) :
    Outcome E now t (.insert x) (place E id { data := stampNew now data } { t with counter := n }).1
      (place E id { data := stampNew now data } { t with counter := n }).2 := by
  unfold place
  cases hrec : recordOf E id { data := stampNew now data } with
  | ok y => exact .inserted hdata hid hfree hrec
  | error e => exact .refused rfl

theorem insert_outcome (x : α) :
    Outcome E now t (.insert x) (t.insert E now x).1 (t.insert E now x).2 := by
  unfold insert
  cases hdata : dataOf E x with
  | error e => exact .refused rfl
  | ok data =>
    simp only
    split
    · cases hnext : nextFree? t.rows t.counter (t.rows.length + 1) with
      | none => exact .refused rfl
      | some id =>
        obtain ⟨hid, hfree⟩ := nextFree?_some hnext
        exact place_outcome id hdata hid hfree
    · next hid =>
      split
      · exact .refused rfl
      · next hfree => exact place_outcome t.counter hdata hid (by simpa using hfree)

theorem save_outcome (x : α) :
    Outcome E now t (.save x) (t.save E now x).1 (t.save E now x).2 := by
  unfold save
  cases hdata : dataOf E x with
  | error e => exact .refused rfl
  | ok data =>
    cases hlive : t.live? (E.identity x) with
    | none => exact .saveMissed hlive
    | some row => exact .saved hdata hlive

theorem updateFields_outcome (id : Id) (fields : Object) :
    Outcome E now t (.updateFields id fields) (t.updateFields E now id fields).1
      (t.updateFields E now id fields).2 := by
  unfold updateFields
  cases hlive : t.live? id with
  | none => exact .fieldsMissed hlive
  | some row =>
    cases hset : setColumns fields row.data with
    | error e =>
      simp only [hset]
      exact .refused rfl
    | ok data =>
      simp only [hset]
      split
      · exact .refused rfl
      · next x hrec => exact .fieldsSet hlive hset hrec

theorem softDelete_outcome (id : Id) :
    Outcome E now t (.softDelete id) (.ok (t.softDelete now id).1) (t.softDelete now id).2 := by
  unfold softDelete
  cases hlive : t.live? id with
  | none => exact .deleteMissed hlive
  | some row => exact .tombstoned hlive

theorem clearTombstone_outcome (id : Id) :
    Outcome E now t (.clearTombstone id) (.ok (t.clearTombstone id).1) (t.clearTombstone id).2 := by
  unfold clearTombstone
  cases hrow : (t.get? id).filter (·.isDeleted) with
  | none => exact .restoreMissed (by simpa [Option.filter_eq_none_iff] using hrow)
  | some row =>
    obtain ⟨hget, hdel⟩ := Option.filter_eq_some_iff.1 hrow
    exact .restored hget hdel

theorem hardDelete_outcome (id : Id) :
    Outcome E now t (.hardDelete id) (.ok (t.hardDelete id).1) (t.hardDelete id).2 := by
  unfold hardDelete
  cases hrow : t.get? id with
  | none => exact .destroyMissed hrow
  | some row => exact .erased hrow

theorem answer_outcome (E : EntityType α) (now : Timestamp) (t : Table) (c : StoreCall α) :
    Outcome E now t c (t.answer E now c).1 (t.answer E now c).2 := by
  cases c with
  | find | query | count => exact .read rfl
  | insert x => exact insert_outcome x
  | save x => exact save_outcome x
  | updateFields id fields => exact updateFields_outcome id fields
  | softDelete id => exact softDelete_outcome id
  | clearTombstone id => exact clearTombstone_outcome id
  | hardDelete id => exact hardDelete_outcome id

theorem dataOf_ok {x : α} {data : Object} (h : dataOf E x = .ok data) :
    E.encode x = some (.obj data) := by
  unfold dataOf at h
  split at h
  · next he => rw [he, Except.ok.inj h]
  · cases h
  · cases h

def Found (E : EntityType α) (t : Table) (id : Id) (x : α) : Prop :=
  ∃ row, t.live? id = some row ∧ recordOf E id row = .ok x

theorem find_eq_some {id : Id} {v : Visibility} {x : α} :
    t.find E id v = .ok (some x) ↔
      ∃ row, t.get? id = some row ∧ v.admits row.isDeleted = true ∧ recordOf E id row = .ok x := by
  unfold find
  cases t.get? id with
  | none => simp
  | some row =>
    cases hv : v.admits row.isDeleted with
    | false => simp [hv]
    | true =>
      cases hrec : recordOf E id row with
      | error e => simp [hv, hrec, Functor.map, Except.map]
      | ok y => simp [hv, hrec, Functor.map, Except.map]

theorem find_active {id : Id} {x : α} : t.find E id .active = .ok (some x) ↔ Found E t id x := by
  simp [find_eq_some, Found, live?_eq_some, Visibility.admits, and_assoc]

theorem Found.congr {id : Id} {x : α} (h : t'.get? id = t.get? id) (hx : Found E t id x) :
    Found E t' id x := by
  obtain ⟨row, hrow, hrec⟩ := hx
  exact ⟨row, by simpa [live?, h] using hrow, hrec⟩

namespace Outcome

variable {c : StoreCall α} {a : c.Answer}

theorem get?_of_ne (h : Outcome E now t c a t') {i : Id} {row : Row} (hi : t.get? i = some row)
    (hne : c.target E ≠ some i) : t'.get? i = some row := by
  cases h with
  | read | saveMissed | fieldsMissed | deleteMissed | restoreMissed | destroyMissed => exact hi
  | refused hrows => rw [get?_congr hrows, hi]
  | @inserted x y data id n hdata hid hfree hrec =>
    have hne' : i ≠ id := by
      rintro rfl
      simp [hfree] at hi
    rw [← hi]
    exact (lookup_putRow id i _ t.rows).trans (if_neg hne')
  | saved | fieldsSet | tombstoned | restored =>
    rw [get?_put, if_neg fun h => hne (by simp [StoreCall.target, h]), hi]
  | erased => rw [get?_erase, if_neg fun h => hne (by simp [StoreCall.target, h]), hi]

theorem found_of_ne (h : Outcome E now t c a t') {i : Id} {x : α} (hx : Found E t i x)
    (hne : c.target E ≠ some i) : Found E t' i x := by
  obtain ⟨row, hrow, -⟩ := id hx
  have hget := get?_of_live? hrow
  exact hx.congr (by rw [hget, h.get?_of_ne hget hne])

theorem save_missed {x : α} {n : UInt64} (h : Outcome E now t (.save x) (.ok n) t') (hn : n = 0) :
    t' = t := by
  cases h with
  | read h => cases h
  | saved => simp at hn
  | saveMissed => rfl

theorem updateFields_missed {id : Id} {fields : Object} {n : UInt64}
    (h : Outcome E now t (.updateFields id fields) (.ok n) t') (hn : n = 0) : t' = t := by
  cases h with
  | read h => cases h
  | fieldsSet => simp at hn
  | fieldsMissed => rfl

theorem rows_of_error {e : StoreError} (h : Outcome E now t c (.error e) t') :
    t'.rows = t.rows := by
  cases h with
  | read => rfl
  | refused hrows => exact hrows

theorem all {P : Id → Row → Prop} (h : Outcome E now t c a t') (ht : All P t)
    (hinsert : ∀ id x y data, E.encode x = some (.obj data) →
      recordOf E id { data := stampNew now data } = .ok y → P id { data := stampNew now data })
    (hsave : ∀ id x data row, c = .save x → E.encode x = some (.obj data) → P id row →
      P id { row with data := overwritten now row data })
    (hfields : ∀ id fields data row x, c = .updateFields id fields → t.live? id = some row →
      P id row → setColumns fields row.data = .ok data →
      recordOf E id { row with data := data.replace Column.updatedAt (.str now.text) } = .ok x →
      P id { row with data := data.replace Column.updatedAt (.str now.text) })
    (htombstone : ∀ id row deletedAt, P id row → P id { row with deletedAt := deletedAt }) :
    All P t' := by
  cases h with
  | read | saveMissed | fieldsMissed | deleteMissed | restoreMissed | destroyMissed => exact ht
  | refused hrows => exact ht.congr hrows
  | @inserted x y data id n hdata hid hfree hrec =>
    have hput : All P (t.put id { data := stampNew now data }) :=
      ht.put (hinsert id x y data (dataOf_ok hdata) hrec)
    exact hput.congr rfl
  | saved hdata hlive =>
    have hrow := ht _ _ (get?_of_live? hlive)
    exact ht.put (hsave _ _ _ _ rfl (dataOf_ok hdata) hrow)
  | fieldsSet hlive hset hrec =>
    have hrow := ht _ _ (get?_of_live? hlive)
    exact ht.put (hfields _ _ _ _ _ rfl hlive hrow hset hrec)
  | tombstoned hlive =>
    have hrow := ht _ _ (get?_of_live? hlive)
    exact ht.put (htombstone _ _ _ hrow)
  | restored hget =>
    have hrow := ht _ _ hget
    exact ht.put (htombstone _ _ _ hrow)
  | erased => exact ht.erase _

theorem keyed (h : Outcome E now t c a t') (ht : Keyed t.rows) : Keyed t'.rows := by
  have hput {id : Id} {row : Row} (hrow : t.get? id = some row) (row' : Row) :
      Keyed (t.put id row').rows := ht.putRow (ht.ne_zero hrow) row'
  cases h with
  | read | saveMissed | fieldsMissed | deleteMissed | restoreMissed | destroyMissed => exact ht
  | refused hrows => rwa [hrows]
  | inserted hdata hid => exact ht.putRow hid _
  | saved _ hlive | fieldsSet hlive | tombstoned hlive => exact hput (get?_of_live? hlive) _
  | restored hrow => exact hput hrow _
  | erased => exact ht.filter _

end Outcome

end Table

end Recordkeeper
