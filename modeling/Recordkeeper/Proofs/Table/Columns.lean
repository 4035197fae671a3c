import Recordkeeper.Proofs.Entity.Columnar

set_option autoImplicit false

namespace Recordkeeper

/-- Queries see the columns of the record that the row shows. A column that the record lacks is seen
as in a row without data: null, but for the identity and the tombstone. -/
def Row.Shows {α : Type} (E : EntityType α) (id : Id) (row : Row) : Prop :=
  ∀ x e, Table.recordOf E id row = .ok x → E.encode x = some (.obj e) → ∀ field,
    row.column id field =
      (Object.get? (Identifier.unqualified field) e).getD
        (Row.column id ⟨[], row.deletedAt⟩ field)

theorem Row.column_of_ne {id : Id} {row : Row} {field : String}
    (hid : Identifier.unqualified field ≠ Column.id)
    (hdel : Identifier.unqualified field ≠ Column.deletedAt) :
    row.column id field = (row.data.get? (Identifier.unqualified field)).getD .null := by
  simp [column, hid, hdel]

namespace EntityType.Columnar

variable {α : Type} {E : EntityType α} (C : E.Columnar)

def SettledAt (c : String) (o : Option Json) : Prop :=
  ∀ o', C.rewrite c o = some o' → o'.getD .null = o.getD .null

def Settled (data : Object) : Prop :=
  ∀ field, Identifier.unqualified field ≠ Column.id → Identifier.unqualified field ≠ Column.deletedAt →
    C.SettledAt (Identifier.unqualified field) (data.get? (Identifier.unqualified field))

/-- The data have the columns of the type and no others, save those that the type leaves out. -/
structure Shaped (data : Object) : Prop where
  absent {c : String} {o : Option Json} : data.get? c = none → C.rewrite c none = some o → o = none
  present {c : String} : data.has c → ¬∀ o, C.rewrite c o = some none

variable {C} {data other : Object}

theorem Shaped.of_encode {x : α} (h : E.encode x = some (.obj data)) : C.Shaped data where
  absent := by
    intro c o hc ho
    rw [← hc] at ho
    rw [C.keeps h c o ho, hc]
  present := by
    intro c hc hnone
    rw [Object.has, ← C.keeps h c none (hnone _)] at hc
    cases hc

theorem Shaped.congr (h : C.Shaped data) (hkeys : ∀ c, other.has c = data.has c) :
    C.Shaped other where
  absent := by
    intro c o hc ho
    have hnone : data.has c = false := by rw [← hkeys, Object.has, hc, Option.isSome_none]
    exact h.absent (Option.not_isSome_iff_eq_none.1 (by simpa [Object.has] using hnone)) ho
  present := by
    intro c hc
    exact h.present (by rw [← hkeys, hc])

theorem Shaped.replace (h : C.Shaped data) (c : String) (v : Json) : C.Shaped (data.replace c v) :=
  h.congr fun c' => Object.has_replace c' c v data

theorem Shaped.rewrite_stamp (h : C.Shaped data) {c : String} {v : Json} (hc : data.has c)
    (hv : Stamp c v) : C.rewrite c (some v) = some (some v) :=
  (C.stamps hv).resolve_right (h.present hc)

theorem settledAt_of_kept {c : String} {o : Option Json} (h : C.rewrite c o = some o) :
    C.SettledAt c o := fun o' ho => by rw [Option.some.inj (ho.symm.trans h)]

theorem Settled.of_encode {x : α} (h : E.encode x = some (.obj data)) : C.Settled data :=
  fun field _ _ o' ho => by rw [C.keeps h _ o' ho]

theorem settled_replace (hs : C.Shaped data) {c : String} {v : Json}
    (hv : data.has c → C.SettledAt c (some v))
    (h : ∀ field, Identifier.unqualified field ≠ Column.id →
      Identifier.unqualified field ≠ Column.deletedAt → Identifier.unqualified field ≠ c →
      C.SettledAt (Identifier.unqualified field) (data.get? (Identifier.unqualified field))) :
    C.Settled (data.replace c v) := by
  intro field hid hdel
  by_cases hc : Identifier.unqualified field = c
  · rw [hc, Object.get?_replace, if_pos rfl]
    cases hg : data.get? c with
    | none => exact fun o' ho => by rw [hs.absent hg ho, Option.map_none]
    | some w => exact hv (by simp [Object.has, hg])
  · rw [Object.get?_replace_of_ne hc]
    exact h field hid hdel hc

theorem Settled.replace_stamp (h : C.Settled data) (hs : C.Shaped data) {c : String} {v : Json}
    (hv : Stamp c v) : C.Settled (data.replace c v) :=
  settled_replace hs (fun hc => settledAt_of_kept (hs.rewrite_stamp hc hv))
    fun field hid hdel _ => h field hid hdel

theorem Settled.creation (h : C.Settled data) :
    C.SettledAt Column.createdAt (data.get? Column.createdAt) :=
  h Column.createdAt (by decide) (by decide)

theorem Settled.overwritten {row : Row} (h : C.Settled data) (hs : C.Shaped data)
    (hrow : C.Settled row.data) (now : Timestamp) :
    C.Settled (Table.overwritten now row data) := by
  have hcreated : C.Settled
      (data.replace Column.createdAt ((row.data.get? Column.createdAt).getD .null)) := by
    refine settled_replace hs (fun _ => ?_) fun field hid hdel _ => h field hid hdel
    have hold := hrow.creation
    cases hg : row.data.get? Column.createdAt with
    | none => exact fun o ho => C.keepsBlank ho
    | some w => rwa [hg] at hold
  exact hcreated.replace_stamp (hs.replace _ _) (.time now (by decide))

theorem Shaped.stampNew (h : C.Shaped data) (now : Timestamp) :
    C.Shaped (Table.stampNew now data) := ((h.replace _ _).replace _ _).replace _ _

theorem Settled.stampNew (h : C.Settled data) (hs : C.Shaped data) (now : Timestamp) :
    C.Settled (Table.stampNew now data) :=
  ((h.replace_stamp hs (.time now (by decide))).replace_stamp (hs.replace _ _)
    (.time now (by decide))).replace_stamp ((hs.replace _ _).replace _ _) .blank

theorem shows_iff {id : Id} {row : Row} (hread : Table.Readable E id row) (hs : C.Shaped row.data) :
    row.Shows E id ↔ C.Settled row.data := by
  obtain ⟨x, hx⟩ := hread
  obtain ⟨e, he, hrewrite⟩ := C.rewrite_document hx
  constructor
  · intro h field hid hdel
    have hfield := h x e hx he field
    have hwritten := hrewrite (Identifier.unqualified field)
    rw [Row.get?_document hid hdel] at hwritten
    rw [Row.column_of_ne hid hdel, Row.column_of_ne hid hdel] at hfield
    intro o ho
    rw [Option.some.inj (ho.symm.trans hwritten)]
    simpa using hfield.symm
  · intro h x' e' hx' he' field
    obtain rfl : x = x' := Except.ok.inj (hx.symm.trans hx')
    obtain rfl : e = e' := Json.obj.inj (Option.some.inj (he.symm.trans he'))
    have hwritten := hrewrite (Identifier.unqualified field)
    by_cases hid : Identifier.unqualified field = Column.id
    · rw [hid, Row.get?_document_id] at hwritten
      have hcolumn (row : Row) : row.column id field = .ofId id := by simp [Row.column, hid]
      rw [hcolumn, hcolumn, hid]
      rcases C.stamps (.identity id) with hs | hs
      · rw [hs, Option.some.injEq] at hwritten
        simp [← hwritten]
      · rw [hs, Option.some.injEq] at hwritten
        simp [← hwritten]
    · by_cases hdel : Identifier.unqualified field = Column.deletedAt
      · rw [hdel, Row.get?_document_deletedAt] at hwritten
        have hcolumn (row : Row) : row.column id field = row.tombstone := by
          simp [Row.column, hdel, show Column.deletedAt ≠ Column.id by decide]
        rw [hcolumn, hcolumn, hdel]
        cases hg : row.data.get? Column.deletedAt with
        | none =>
          rw [hg, Option.map_none] at hwritten
          rw [hs.absent hg hwritten]
          rfl
        | some w =>
          rw [hg, Option.map_some, hs.rewrite_stamp (by simp [Object.has, hg]) row.stamp_tombstone,
            Option.some.injEq] at hwritten
          simp [← hwritten]
      · rw [Row.get?_document hid hdel] at hwritten
        rw [Row.column_of_ne hid hdel, Row.column_of_ne hid hdel, ← h field hid hdel _ hwritten]
        simp

end EntityType.Columnar

end Recordkeeper
