import Recordkeeper.Proofs.Dates
import Recordkeeper.Proofs.Lifecycle
import Recordkeeper.Proofs.Paging
import Recordkeeper.Proofs.Query.Compile

/-!
What callers write is what they read. A record that was stored is shown by lookups and lists with
the columns it was given, columns that are set one by one hold what their type reads in the values,
and nothing else changes but the columns that a store keeps for itself.
-/

set_option autoImplicit false

namespace Recordkeeper

variable {α : Type}

namespace EntityType

def column? (E : EntityType α) (x : α) (c : String) : Option Json :=
  match E.encode x with
  | some (.obj d) => Object.get? c d
  | _ => none

def HasOrLacks (E : EntityType α) (c : String) : Prop :=
  ∃ b, ∀ x d, E.encode x = some (.obj d) → Object.has c d = b

theorem HasStandard.hasOrLacks {E : EntityType α} (h : E.HasStandard) {c : String}
    (hc : c ∈ Column.standard) : E.HasOrLacks c := ⟨true, fun x d hx => h x d hx c hc⟩

variable {E : EntityType α} {x : α} {d : Object} {id : Id} {row : Row} {c : String}

theorem column?_of_encode (h : E.encode x = some (.obj d)) (c : String) :
    E.column? x c = Object.get? c d := by simp [column?, h]

/-- What the record of a row has in a column is written back of what the row has there. -/
theorem Columnwise.rewrite_column (C : E.Columnwise) (h : Table.recordOf E id row = .ok x)
    (hid : c ≠ Column.id) (hdel : c ≠ Column.deletedAt) :
    C.rewrite c (row.data.get? c) = some (E.column? x c) := by
  obtain ⟨e, he, hrewrite⟩ := C.rewrite_document h
  rw [column?_of_encode he, ← hrewrite c, Row.get?_document hid hdel]

theorem Columnwise.column?_congr (C : E.Columnwise) {i : Id} {row' : Row} {y : α}
    (h : Table.recordOf E id row = .ok x) (h' : Table.recordOf E i row' = .ok y)
    (hid : c ≠ Column.id) (hdel : c ≠ Column.deletedAt)
    (hsame : row.data.get? c = row'.data.get? c) : E.column? x c = E.column? y c := by
  have hx := C.rewrite_column h hid hdel
  rw [hsame, C.rewrite_column h' hid hdel] at hx
  exact (Option.some.inj hx).symm

theorem Columnwise.column?_of_given (C : E.Columnwise) {y : α} (hx : E.encode x = some (.obj d))
    (h : Table.recordOf E id row = .ok y) (hid : c ≠ Column.id) (hdel : c ≠ Column.deletedAt)
    (hsame : row.data.get? c = d.get? c) : E.column? y c = E.column? x c := by
  have hy := C.rewrite_column h hid hdel
  rw [hsame] at hy
  rw [column?_of_encode hx, C.keeps hx c _ hy]

end EntityType

namespace Column

theorem not_mem_standard {c : String} :
    c ∉ standard ↔ c ≠ id ∧ c ≠ createdAt ∧ c ≠ updatedAt ∧ c ≠ deletedAt := by simp [standard]

end Column

namespace Table

variable {E : EntityType α} {t : Table} {c : String} {now : Timestamp} {row : Row} {data : Object}

theorem get?_stampNew (hc : c ∉ Column.standard) : (stampNew now data).get? c = data.get? c := by
  obtain ⟨-, hcreated, hupdated, hdeleted⟩ := Column.not_mem_standard.1 hc
  rw [stampNew, Object.get?_replace_of_ne hdeleted, Object.get?_replace_of_ne hupdated,
    Object.get?_replace_of_ne hcreated]

theorem get?_overwritten (hc : c ∉ Column.standard) :
    (overwritten now row data).get? c = data.get? c := by
  obtain ⟨-, hcreated, hupdated, -⟩ := Column.not_mem_standard.1 hc
  rw [overwritten, Object.get?_replace_of_ne hupdated, Object.get?_replace_of_ne hcreated]

theorem get?_overwritten_createdAt
    (hsame : row.data.has Column.createdAt = data.has Column.createdAt) :
    (overwritten now row data).get? Column.createdAt = row.data.get? Column.createdAt := by
  rw [overwritten, Object.get?_replace_of_ne (by decide), Object.get?_replace, if_pos rfl]
  simp only [Object.has] at hsame
  cases hd : data.get? Column.createdAt <;> cases hr : row.data.get? Column.createdAt <;>
    simp [hd, hr] at hsame ⊢

theorem query_all (hkeyed : Keyed t.rows) (hread : t.All (Readable E)) :
    ∃ records, t.query E {} none = .ok records ∧ ∀ x, x ∈ records ↔ ∃ id, t.Found E id x := by
  have hmatching : matching {} t.rows = .ok (t.rows.filter fun e => !e.2.isDeleted) :=
    matching_unconstrained rfl t.rows
  have hrecord : ∀ e ∈ t.rows.filter (fun e => !e.2.isDeleted), ∃ x, recordOf E e.1 e.2 = .ok x :=
    fun e he => hread e.1 e.2 (hkeyed.get?_of_mem (List.mem_filter.1 he).1)
  obtain ⟨records, hrecords, hmem⟩ := mapM_of_forall hrecord
  refine ⟨records, ?_, fun x => (hmem x).trans ⟨?_, ?_⟩⟩
  · refine query_eq_ok.2 ⟨_, [], hmatching, rfl, ?_⟩
    rw [sort_nil]
    exact mapM_eq_ok.1 hrecords
  · rintro ⟨e, he, hx⟩
    obtain ⟨hmem, hlive⟩ := List.mem_filter.1 he
    exact ⟨e.1, e.2, live?_eq_some.2 ⟨hkeyed.get?_of_mem hmem, by simpa using hlive⟩, hx⟩
  · rintro ⟨id, row, hrow, hx⟩
    obtain ⟨hget, hlive⟩ := live?_eq_some.1 hrow
    obtain ⟨l, r, hl, -⟩ := List.lookup_eq_some_iff.1 hget
    exact ⟨(id, row), List.mem_filter.2 ⟨by simp [hl], by simp [hlive]⟩, hx⟩

end Table

namespace Repository

variable {r : Repository α} {m : Memory} {x : α}

/-- Whenever they are asked, lookups and lists show a record. -/
structure Displays (r : Repository α) (m : Memory) (x : α) : Prop where
  get (now : Moment) : (r.perform ⟨.get (r.entity.identity x), now, []⟩ m).1 = .ok x
  list (now : Moment) : ∃ records : List α,
    (r.perform ⟨.list {}, now, []⟩ m).1 = .ok records ∧ x ∈ records

theorem compile_all (r : Repository α) : r.compile {} = .ok {} :=
  FilterRequest.compile_eq_ok.2 ⟨rfl, [], none, .nil, FilterRequest.compileOrder_none _, rfl⟩

structure Legible (r : Repository α) (m : Memory) : Prop where
  back : r.usesCache = true → r.entity.ReadsBack
  coherent : r.Coherent none m
  keyed : Table.Keyed m.table.rows
  readable : m.table.All (Table.Readable r.entity)

theorem Legible.displays (h : r.Legible m)
    (hx : m.table.Found r.entity (r.entity.identity x) x) : r.Displays m x where
  get now := (perform_get h.back h.coherent h.keyed _ now).trans (fetched_of_found hx)
  list now := by
    obtain ⟨records, hrecords, hmem⟩ := Table.query_all h.keyed h.readable
    refine ⟨records, ?_, (hmem x).2 ⟨_, hx⟩⟩
    have hlist := congrArg Prod.fst (r.perform_list { m with now := now } {})
    rw [compile_all] at hlist
    refine hlist.trans ?_
    simp only [Except.bind, hrecords, Except.mapError]
    rfl

structure Stores (r : Repository α) (m m' : Memory) (y : α) : Prop where
  shown : r.Displays m' y
  others : ∀ i, i ≠ r.entity.identity y → m'.table.get? i = m.table.get? i

section

variable {now : Moment} {y : α} {id : Id} {row : Row} {fields data : Object}

theorem stores_of_row (K : r.entity.Keepable) (hm : r.Legible m) (op : Operation α)
    (hrow : ∀ i, (r.perform ⟨op, now, []⟩ m).2.table.get? i =
      if i = id then some row else m.table.get? i)
    (hlive : row.isDeleted = false) (hrec : Table.recordOf r.entity id row = .ok y) :
    r.Stores m (r.perform ⟨op, now, []⟩ m).2 y := by
  obtain rfl := K.identity_recordOf hrec
  have hlegible : r.Legible (r.perform ⟨op, now, []⟩ m).2 := {
    back := hm.back
    coherent := perform_coherent ⟨op, now, []⟩ FaultScript.sparesPurge_nil hm.coherent
    keyed := perform_rows_keyed _ hm.keyed
    readable := fun i row' hget => by
      rw [hrow] at hget
      split at hget
      · next hi =>
        obtain rfl := Option.some.inj hget
        exact hi ▸ ⟨y, hrec⟩
      · exact hm.readable i row' hget }
  refine ⟨hlegible.displays ⟨row, ?_, hrec⟩, fun i hi => ?_⟩
  · exact Table.live?_eq_some.2 ⟨by rw [hrow, if_pos rfl], hlive⟩
  · rw [hrow, if_neg hi]

theorem displays_of_live (K : r.entity.Keepable) (hm : r.Legible m)
    (hlive : m.table.live? id = some row) :
    ∃ z, Table.recordOf r.entity id row = .ok z ∧ r.Displays m z ∧ r.entity.identity z = id := by
  obtain ⟨z, hz⟩ := hm.readable id row (Table.get?_of_live? hlive)
  obtain rfl := K.identity_recordOf hz
  exact ⟨z, hz, hm.displays ⟨row, hlive, hz⟩, rfl⟩

theorem perform_update_ok {x : α} (h : (r.perform ⟨.update x id, now, []⟩ m).1 = .ok y) :
    ∃ data row, r.entity.encode x = some (.obj data) ∧ m.table.live? id = some row ∧
      (r.perform ⟨.update x id, now, []⟩ m).2.table =
        m.table.put id { row with data := Table.overwritten now.wall row data } ∧
      Table.recordOf r.entity id { row with data := Table.overwritten now.wall row data } = .ok y := by
  obtain ⟨⟨data, row, hx, hlive, htable⟩, hfind⟩ :=
    (ends_update x id { m with now := now } rfl).of_ok h
  obtain ⟨row', hget, -, hrec⟩ := Table.find_eq_some.1 hfind
  rw [htable, Table.get?_put_self] at hget
  obtain rfl := Option.some.inj hget
  exact ⟨data, row, hx, hlive, htable, hrec⟩

theorem column?_fieldsSet (C : r.entity.Columnwise) {z : α}
    (hset : Table.setColumns fields row.data = .ok data) (now : Timestamp)
    (hz : Table.recordOf r.entity id row = .ok z)
    (hy : Table.recordOf r.entity id
      { row with data := data.replace Column.updatedAt (.str now.text) } = .ok y)
    {c : String} (hid : c ≠ Column.id) (hupdated : c ≠ Column.updatedAt)
    (hdel : c ≠ Column.deletedAt) :
    (∀ v, (Object.ofMembers fields).get? c = some v →
        C.rewrite c (some v) = some (r.entity.column? y c)) ∧
      ((Object.ofMembers fields).get? c = none → r.entity.column? y c = r.entity.column? z c) := by
  have hget : (data.replace Column.updatedAt (.str now.text)).get? c =
      ((Object.ofMembers fields).get? c).or (row.data.get? c) := by
    rw [Object.get?_replace_of_ne hupdated, (Table.setColumns_ok hset c).1]
  constructor
  · intro v hv
    have hwritten := C.rewrite_column hy hid hdel
    rwa [hget, hv, Option.some_or] at hwritten
  · intro hnone
    refine C.column?_congr hy hz hid hdel ?_
    rw [hget, hnone, Option.none_or]

theorem shown_of_create (C : r.entity.Columnwise) (K : r.entity.Keepable) (hm : r.Legible m) {x : α}
    (hok : (r.perform ⟨.create x, now, []⟩ m).1 = .ok y) :
    r.Stores m (r.perform ⟨.create x, now, []⟩ m).2 y ∧
      ∀ c, c ∉ Column.standard → r.entity.column? y c = r.entity.column? x c := by
  obtain ⟨data, hx, -, hrows, hrec⟩ := (ends_create K x { m with now := now } rfl).of_ok hok
  refine ⟨stores_of_row K hm _ (fun i => ?_) rfl hrec, fun c hc => ?_⟩
  · exact (congrArg (List.lookup i) hrows).trans (Table.lookup_putRow ..)
  · obtain ⟨hid, -, -, hdel⟩ := Column.not_mem_standard.1 hc
    exact C.column?_of_given hx hrec hid hdel (Table.get?_stampNew hc)

theorem shown_of_update (C : r.entity.Columnwise) (K : r.entity.Keepable) (hm : r.Legible m)
    (ht : Table.Reachable r.entity m.table) {x : α}
    (hok : (r.perform ⟨.update x id, now, []⟩ m).1 = .ok y) :
    r.Stores m (r.perform ⟨.update x id, now, []⟩ m).2 y ∧ r.entity.identity y = id ∧
      (∀ c, c ∉ Column.standard → r.entity.column? y c = r.entity.column? x c) ∧
      ∃ z, r.Displays m z ∧ r.entity.identity z = id ∧
        (r.entity.HasOrLacks Column.createdAt →
          r.entity.column? y Column.createdAt = r.entity.column? z Column.createdAt) := by
  obtain ⟨data, row, hx, hlive, htable, hrec⟩ := perform_update_ok hok
  obtain ⟨z, hz, hdisplays, hzid⟩ := displays_of_live K hm hlive
  have hstill : Row.isDeleted { row with data := Table.overwritten now.wall row data } = false :=
    (Table.live?_eq_some.1 hlive).2
  refine ⟨stores_of_row K hm _ (fun i => ?_) hstill hrec,
    K.identity_recordOf hrec, fun c hc => ?_, z, hdisplays, hzid, ?_⟩
  · rw [htable, Table.get?_put]
  · obtain ⟨hid, -, -, hdel⟩ := Column.not_mem_standard.1 hc
    exact C.column?_of_given hx hrec hid hdel (Table.get?_overwritten hc)
  · rintro ⟨b, hb⟩
    refine C.column?_congr hrec hz (by decide) (by decide) (Table.get?_overwritten_createdAt ?_)
    rw [ht.has_eq hb id row (Table.get?_of_live? hlive), hb x data hx]

theorem shown_of_updateFields (C : r.entity.Columnwise) (K : r.entity.Keepable) (hm : r.Legible m)
    {x : α} (hown : ∀ c ∈ Object.keys fields, c ∉ Column.standard)
    (hok : (r.perform ⟨.updateFields x fields, now, []⟩ m).1 = .ok y) :
    r.Stores m (r.perform ⟨.updateFields x fields, now, []⟩ m).2 y ∧
      r.entity.identity y = r.entity.identity x ∧
      (∀ c v, (Object.ofMembers fields).get? c = some v →
        C.rewrite c (some v) = some (r.entity.column? y c)) ∧
      ∃ z, r.Displays m z ∧ r.entity.identity z = r.entity.identity x ∧
        r.entity.column? y Column.createdAt = r.entity.column? z Column.createdAt ∧
        ∀ c, c ∉ Column.standard → (Object.ofMembers fields).get? c = none →
          r.entity.column? y c = r.entity.column? z c := by
  obtain ⟨row, data, hset, hrec⟩ := perform_updateFields_ok hok
  obtain ⟨z, hz, hdisplays, hzid⟩ := displays_of_live K hm hset.live
  have hcolumns (c : String) := column?_fieldsSet C hset.set now.wall hz hrec (c := c)
  have hnamed (c : String) (hc : c ∈ Column.standard) : (Object.ofMembers fields).get? c = none :=
    Object.get?_ofMembers_eq_none fun hmem => hown c hmem hc
  have hstill : Row.isDeleted
      { row with data := data.replace Column.updatedAt (.str now.wall.text) } = false :=
    (Table.live?_eq_some.1 hset.live).2
  refine ⟨stores_of_row K hm _ (fun i => ?_) hstill hrec,
    K.identity_recordOf hrec, fun c v hv => ?_, z, hdisplays, hzid, ?_, fun c hc hnone => ?_⟩
  · rw [hset.table, Table.get?_put]
  · have hc : c ∉ Column.standard := fun hc => by simp [hnamed c hc] at hv
    obtain ⟨hid, -, hupdated, hdel⟩ := Column.not_mem_standard.1 hc
    exact (hcolumns c hid hupdated hdel).1 v hv
  · exact (hcolumns Column.createdAt (by decide) (by decide) (by decide)).2 (hnamed _ (by decide))
  · obtain ⟨hid, -, hupdated, hdel⟩ := Column.not_mem_standard.1 hc
    exact (hcolumns c hid hupdated hdel).2 hnone

end

def annHeld : Memory := users.uncached.after [⟨.create ann, .epoch, []⟩] (.fresh .epoch)

def annAgain : Step (Record Catalog.user.fields) := ⟨.update { ann with id := 1 } 1, .epoch, []⟩

def annScoring : Step (Record Catalog.user.fields) :=
  ⟨.updateFields { ann with id := 1 } [("score", .num (.int 5))], .epoch, []⟩

structure Stay where
  id : Id
  created : Option String
  deriving DecidableEq

def Stay.created? (d : Object) : Option (Option String) :=
  match d.get? Column.createdAt with
  | none => some none
  | some v => v.string?.map some

def Stay.document (x : Stay) : Object :=
  match x.created with
  | none => [(Column.id, .ofId x.id)]
  | some t => [(Column.createdAt, .str t), (Column.id, .ofId x.id)]

def stay : EntityType Stay where
  name := "stay"
  identity x := x.id
  withIdentity id x := { x with id := id }
  encode x := some (.obj x.document)
  decode
    | .obj d => (givenId? d).bind fun id => (Stay.created? d).map (Stay.mk id)
    | _ => none
  fromText _ := none

theorem stay_decodes {x : Stay} {d : Json} (hd : stay.encode x = some d) :
    stay.decode d = some x := by
  have hread : Object.get? Column.id x.document = some (.ofId x.id) ∧
      Stay.created? x.document = some x.created := by
    obtain ⟨id, created⟩ := x
    cases created with
    | none => exact ⟨rfl, rfl⟩
    | some t => exact ⟨rfl, rfl⟩
  rw [← Option.some.inj hd]
  simp only [stay]
  rw [givenId?_of_get? hread.1, Option.bind_some, hread.2, Option.map_some]

def draft : EntityType (Catalog.Item String) where
  name := "draft"
  identity x := x.id
  withIdentity id x := { x with id := id }
  encode x := some (.obj [(Column.createdAt, .null), (Column.id, .ofId x.id), ("value", .str x.value)])
  decode
    | .obj d => (givenId? d).bind fun id => ((Object.get? "value" d).bind Json.string?).map fun value =>
      ⟨id, if Object.get? Column.createdAt d = some .null then value else "sealed"⟩
    | _ => none
  fromText _ := none

theorem draft_decodes {x : Catalog.Item String} {d : Json} (hd : draft.encode x = some d) :
    draft.decode d = some x := by
  let document : Object :=
    [(Column.createdAt, .null), (Column.id, .ofId x.id), ("value", .str x.value)]
  have hid : Object.get? Column.id document = some (.ofId x.id) := rfl
  have hvalue : (Object.get? "value" document).bind Json.string? = some x.value := rfl
  have hcreated : Object.get? Column.createdAt document = some .null := rfl
  rw [← Option.some.inj hd]
  simp only [draft]
  rw [givenId?_of_get? hid, Option.bind_some, hvalue, Option.map_some, if_pos hcreated]

def stays : Repository Stay where
  entity := stay

def drafts : Repository (Catalog.Item String) where
  entity := draft

def stayHeld : Memory := stays.after [⟨.create ⟨0, some "at noon"⟩, .epoch, []⟩] (.fresh .epoch)

end Repository

end Recordkeeper
