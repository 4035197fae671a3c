import Recordkeeper.Proofs.Object
import Recordkeeper.Proofs.Table.Outcome

/-!
What a store asks of a record type: that a document it was given can be read back, also once the
store has written its own columns into it. Every row of a table then shows a record.
-/

set_option autoImplicit false

namespace Recordkeeper

def Column.times : List String := [Column.createdAt, Column.updatedAt, Column.deletedAt]

/-- The values that a store writes into the columns it keeps for itself. -/
inductive Stamp : String → Json → Prop where
  | identity (id : Id) : Stamp Column.id (.ofId id)
  | blank : Stamp Column.deletedAt .null
  | time {c : String} (t : Timestamp) : c ∈ Column.times → Stamp c (.str t.text)

namespace EntityType

variable {α : Type}

def Reads (E : EntityType α) (x : α) : Prop :=
  ∀ d, E.encode x = some (.obj d) → (E.decode (.obj d)).isSome

/-- A type whose documents can still be read once the store has written its own columns. -/
structure Keepable (E : EntityType α) : Prop where
  takesIdentity {d : Object} (id : Id) : (E.decode (.obj d)).isSome →
    (E.decode (.obj (d.put Column.id (.ofId id)))).isSome
  takesStamp {d : Object} {c : String} {v : Json} : (E.decode (.obj d)).isSome → Stamp c v →
    (E.decode (.obj (d.replace c v))).isSome
  takesCreation {d other : Object} : (E.decode (.obj d)).isSome → (E.decode (.obj other)).isSome →
    (E.decode (.obj (d.replace Column.createdAt
      ((other.get? Column.createdAt).getD .null)))).isSome
  identifies {d : Object} {x : α} {id : Id} : E.decode (.obj d) = some x →
    d.get? Column.id = some (.ofId id) → E.identity (E.withIdentity id x) = id

structure Storable (E : EntityType α) : Prop extends E.Keepable where
  reads (x : α) : E.Reads x

end EntityType

namespace Row

def document (id : Id) (r : Row) : Object :=
  (r.data.put Column.id (.ofId id)).replace Column.deletedAt r.tombstone

theorem get?_document_id (id : Id) (r : Row) :
    (r.document id).get? Column.id = some (.ofId id) := by
  rw [document, Object.get?_replace_of_ne (by decide), Object.get?_put]
  simp

theorem get?_document_deletedAt (id : Id) (r : Row) :
    (r.document id).get? Column.deletedAt =
      (r.data.get? Column.deletedAt).map fun _ => r.tombstone := by
  rw [document, Object.get?_replace, if_pos rfl, Object.get?_put_of_ne (by decide)]

theorem get?_document {c : String} (hid : c ≠ Column.id) (hdel : c ≠ Column.deletedAt) (id : Id)
    (r : Row) : (r.document id).get? c = r.data.get? c := by
  rw [document, Object.get?_replace_of_ne hdel, Object.get?_put_of_ne hid]

theorem document_again (id i : Id) (r r' : Row) (h : r'.data = r.data) :
    r'.document i =
      ((r.document id).put Column.id (.ofId i)).replace Column.deletedAt r'.tombstone := by
  have hne : Column.id ≠ Column.deletedAt := by decide
  rw [document, document, h, Object.put_replace hne, Object.put_put, Object.replace_replace]

theorem stamp_tombstone (r : Row) : Stamp Column.deletedAt r.tombstone := by
  unfold tombstone
  cases r.deletedAt with
  | none => exact .blank
  | some t => exact .time t (by decide)

end Row

namespace Table

variable {α : Type} {E : EntityType α} {id : Id} {row : Row}

theorem recordOf_eq (E : EntityType α) (id : Id) (r : Row) :
    recordOf E id r =
      match E.decode (.obj (r.document id)) with
      | some x => .ok (E.withIdentity id x)
      | none =>
        .error (.serialization backend ("the row is no document of type " ++ E.name)) := rfl

theorem recordOf_ok {x : α} (h : recordOf E id row = .ok x) :
    ∃ y, E.decode (.obj (row.document id)) = some y ∧ x = E.withIdentity id y := by
  rw [recordOf_eq] at h
  cases hd : E.decode (.obj (row.document id)) with
  | none => simp [hd] at h
  | some y => exact ⟨y, rfl, by simpa [hd] using h.symm⟩

theorem exists_recordOf_iff :
    (∃ x, recordOf E id row = .ok x) ↔ (E.decode (.obj (row.document id))).isSome := by
  rw [recordOf_eq]
  cases E.decode (.obj (row.document id)) <;> simp

def Readable (E : EntityType α) (id : Id) (row : Row) : Prop := ∃ x, recordOf E id row = .ok x

theorem Readable.exists_find {t : Table} {v : Visibility} (h : Readable E id row)
    (hget : t.get? id = some row) (hv : v.admits row.isDeleted = true) :
    ∃ x, t.find E id v = .ok (some x) := by
  obtain ⟨x, hx⟩ := h
  exact ⟨x, find_eq_some.2 ⟨row, hget, hv, hx⟩⟩

end Table

namespace EntityType.Keepable

open Table (Readable)

variable {α : Type} {E : EntityType α} {id : Id} {row : Row}

theorem identity_recordOf (K : E.Keepable) {x : α} (h : Table.recordOf E id row = .ok x) :
    E.identity x = id := by
  obtain ⟨y, hy, rfl⟩ := Table.recordOf_ok h
  exact K.identifies hy (row.get?_document_id id)

/-- Whether a row can be read does not depend on its identity and its tombstone. -/
theorem readable_congr (K : E.Keepable) (h : Readable E id row) {i : Id} {row' : Row}
    (hdata : row'.data = row.data) : Readable E i row' := by
  rw [Readable, Table.exists_recordOf_iff] at h ⊢
  rw [Row.document_again id i row row' hdata]
  exact K.takesStamp (K.takesIdentity i h) row'.stamp_tombstone

theorem readable_of_decode (K : E.Keepable) (h : (E.decode (.obj row.data)).isSome) :
    Readable E id row := by
  rw [Readable, Table.exists_recordOf_iff]
  exact K.takesStamp (K.takesIdentity id h) row.stamp_tombstone

theorem readable_overwritten (K : E.Keepable) {data : Object} (now : Timestamp)
    (hdata : (E.decode (.obj data)).isSome) (h : Readable E id row) :
    Readable E id { row with data := Table.overwritten now row data } := by
  refine K.readable_of_decode (K.takesStamp ?_ (.time now (by decide)))
  rw [← Row.get?_document (c := Column.createdAt) (by decide) (by decide) id]
  exact K.takesCreation hdata (Table.exists_recordOf_iff.1 h)

end EntityType.Keepable

namespace Table

variable {α : Type} {E : EntityType α} {t t' : Table}

theorem Outcome.allReadable (K : E.Keepable) {now : Timestamp} {c : StoreCall α} {a : c.Answer}
    (hc : Outcome E now t c a t') (hreads : ∀ x, c = .save x → E.Reads x)
    (h : All (Readable E) t) : All (Readable E) t' :=
  hc.all h (fun _ _ y _ _ hrec => ⟨y, hrec⟩)
    (fun _ x data _ hsave hdata hrow =>
      K.readable_overwritten now (hreads x hsave data hdata) hrow)
    (fun _ _ _ _ x _ _ _ _ hrec => ⟨x, hrec⟩) fun _ _ _ hrow => K.readable_congr hrow rfl

end Table

end Recordkeeper
