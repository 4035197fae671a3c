import Recordkeeper.Proofs.Sql.RowStatements
import Recordkeeper.Proofs.Sql.Update

/-!
The parameters of the statements that a Postgres store sends. A reader of any of them finds the
places of the values that are bound with it, and no others, with one exception: where the INSERT of
a record has no columns at all, a value is bound that no place is for.
-/

set_option autoImplicit false

namespace Recordkeeper

namespace Sql

/-- What an INSERT lists: each column once, with its own field of the record for those that the
record gives, and with the time for those that the store stamps. -/
structure Lists (items : List SetItem) (given stamped : String → Prop) : Prop where
  once : (items.map SetItem.column).Nodup
  mem_iff : ∀ i, i ∈ items ↔
    (∃ c, given c ∧ i = ⟨partsOf c, .record (partsOf c)⟩) ∨ ∃ c, stamped c ∧ i = ⟨partsOf c, .now⟩

def newRowAssignments (names : List String) (stamps : Bool) : List Assignment :=
  names.map (·, .record) ++
    if stamps then [(Column.createdAt, .now), (Column.updatedAt, .now)] else []

theorem newRowAssignments_eq_nil {names : List String} {stamps : Bool} :
    newRowAssignments names stamps = [] ↔ names = [] ∧ stamps = false := by
  cases stamps <;> simp [newRowAssignments]

theorem lists_newRowAssignments {names : List String} (hnames : names.Nodup)
    (hcreated : Column.createdAt ∉ names) (hupdated : Column.updatedAt ∉ names) (stamps : Bool) :
    Lists ((newRowAssignments names stamps).map Assignment.item) (· ∈ names)
      (fun c => stamps = true ∧ c ∈ [Column.createdAt, Column.updatedAt]) where
  once := by
    let times : List String := if stamps then [Column.createdAt, Column.updatedAt] else []
    have hcolumns : ((newRowAssignments names stamps).map Assignment.item).map SetItem.column =
        (names ++ times).map partsOf := by
      cases stamps <;> simp [times, newRowAssignments, Assignment.item, Function.comp_def]
    have hapart : names.Disjoint [Column.createdAt, Column.updatedAt] := by
      simpa using ⟨hcreated, hupdated⟩
    have hdistinct : (names ++ times).Nodup := by
      cases stamps with
      | false => simpa [times] using hnames
      | true => exact hnames.append (by decide) hapart
    rw [hcolumns]
    exact hdistinct.map fun _ _ h => partsOf_inj.1 h
  mem_iff i := by
    cases stamps <;> simp [newRowAssignments, Assignment.item, eq_comm, or_and_right, exists_or]

end Sql

namespace Postgres

variable {α : Type} {E : EntityType α} {t : Table} {x : α} {s : Statement}

def Statement.NamesItsParams (s : Statement) : Prop :=
  ∃ ts, Sql.read? .postgres s.text.toList = some ts ∧
    Sql.write .postgres ts = s.text.toList ∧ ∀ n, n ∈ Sql.places ts ↔ 1 ≤ n ∧ n ≤ s.params.length

theorem namesItsParams_iff (h : Sql.Readable s.tokens) :
    s.NamesItsParams ↔ ∀ n, n ∈ Sql.places s.tokens ↔ 1 ≤ n ∧ n ≤ s.params.length := by
  have hread : Sql.read? .postgres s.text.toList = some s.tokens := h.read
  have hwrite : Sql.write .postgres s.tokens = s.text.toList := by simp [Statement.text, Sql.text]
  constructor
  · rintro ⟨ts, hts, -, hplaces⟩
    obtain rfl := Option.some.inj (hread.symm.trans hts)
    exact hplaces
  · exact fun hplaces => ⟨s.tokens, hread, hwrite, hplaces⟩

structure Statement.Numbered (s : Statement) : Prop where
  readable : Sql.Readable s.tokens
  places : Sql.places s.tokens = List.range' 1 s.params.length

theorem Statement.Numbered.namesItsParams (h : s.Numbered) : s.NamesItsParams := by
  rw [namesItsParams_iff h.readable, h.places]
  intro n
  rw [List.mem_range'_1]
  omega

theorem ofStatement_send {β : Type} {e : Except StoreError Statement}
    (h : Plan.ofStatement (β := β) e = .send s) : e = .ok s := by
  cases e with
  | error e => cases h
  | ok s' => rw [Plan.send.inj h]

theorem numbered_byIdentity {tokens : List Sql.Token} {id : Id} (hread : Sql.Readable tokens)
    (hplaces : Sql.places tokens = [1]) (h : byIdentity tokens id = .ok s) : s.Numbered := by
  unfold byIdentity at h
  cases hid : identity id with
  | error e =>
    rw [hid] at h
    cases h
  | ok p =>
    rw [hid] at h
    obtain rfl := Except.ok.inj h
    exact ⟨hread, hplaces⟩

theorem numbered_updatePlan {id : Id} {fields : Object} (h : updatePlan t id fields = .send s) :
    s.Numbered := by
  obtain ⟨-, p, -, rfl⟩ := updatePlan_eq_send.1 h
  exact ⟨Sql.readable_updateTokens _ _, Sql.places_updateTokens _ _⟩

theorem numbered_ofSelect {q : Sql.Statement} (hread : Sql.Readable q.tokens)
    (hplaces : Sql.places q.tokens = List.range' 1 q.binds.length) : (ofSelect q).Numbered :=
  ⟨hread, by rw [ofSelect, List.length_map, ← hplaces]⟩

def ownMembers (data : Object) : Object := data.filter fun m => !Column.standard.contains m.1

theorem mem_ownMembers {data : Object} {c : String} :
    c ∈ (ownMembers data).keys ↔ c ∈ data.keys ∧ c ∉ Column.standard := by
  simp [ownMembers, Object.keys]

theorem nodup_ownMembers {data : Object} (h : data.keys.Nodup) : (ownMembers data).keys.Nodup :=
  h.sublist (List.filter_sublist.map _)

def payload (E : EntityType α) (x : α) (data : Object) : Object :=
  if E.isNew x then ownMembers data
  else (ownMembers data).put Column.id (.ofId (E.identity x))

def Given (E : EntityType α) (x : α) (data : Object) (c : String) : Prop :=
  (c ∈ data.keys ∧ c ∉ Column.standard) ∨ (c = Column.id ∧ E.isNew x = false)

theorem mem_payload {data : Object} {c : String} :
    c ∈ (payload E x data).keys ↔ Given E x data c := by
  unfold payload Given
  cases E.isNew x with
  | true => simp [mem_ownMembers]
  | false => simp [Object.mem_keys_put, mem_ownMembers, or_comm]

theorem nodup_payload {data : Object} (h : data.keys.Nodup) : (payload E x data).keys.Nodup := by
  have hid : Column.id ∉ (ownMembers data).keys := fun hmem =>
    (mem_ownMembers.1 hmem).2 (by decide)
  unfold payload
  cases E.isNew x with
  | true => exact nodup_ownMembers h
  | false => exact Object.nodup_put (nodup_ownMembers h) hid _

def insertOf (E : EntityType α) (t : Table) (x : α) (data : Object) : Statement :=
  ⟨Sql.insertTokens t.name (Sql.newRowAssignments (payload E x data).keys t.timestamps),
    [.json (.obj (payload E x data))]⟩

theorem insertStatement_ok (h : insertStatement E t x = .ok s) :
    ∃ data : Object, E.encode x = some (.obj data) ∧ s = insertOf E t x data := by
  unfold insertStatement at h
  cases hfields : writableFields E x with
  | error e =>
    rw [hfields] at h
    cases h
  | ok fields =>
    rw [hfields] at h
    obtain ⟨data, hdata, rfl⟩ := writableFields_ok hfields
    exact ⟨data, hdata, (Except.ok.inj h).symm⟩

/-- A record of which no column is inserted: it has none of its own and no identity, and the table
keeps no times. -/
structure Bare (E : EntityType α) (t : Table) (x : α) : Prop where
  untimed : t.timestamps = false
  new : E.isNew x = true
  columnless : ∀ data : Object, E.encode x = some (.obj data) →
    ∀ c ∈ data.keys, c ∈ Column.standard

variable {data : Object}

theorem bare_iff (h : E.encode x = some (.obj data)) :
    Bare E t x ↔ Sql.newRowAssignments (payload E x data).keys t.timestamps = [] := by
  rw [Sql.newRowAssignments_eq_nil, List.eq_nil_iff_forall_not_mem]
  simp only [mem_payload, Given, not_or, not_and, not_not]
  constructor
  · rintro ⟨huntimed, hnew, hcolumnless⟩
    exact ⟨fun c => ⟨hcolumnless data h c, fun _ => by simp [hnew]⟩, huntimed⟩
  · rintro ⟨hnone, huntimed⟩
    refine ⟨huntimed, by simpa using (hnone Column.id).2 rfl, fun other hother c hc => ?_⟩
    obtain rfl := Json.obj.inj (Option.some.inj (h.symm.trans hother))
    exact (hnone c).1 hc

/-- An INSERT binds its record, also where no place is for it. -/
theorem namesItsParams_insertOf (h : E.encode x = some (.obj data)) :
    (insertOf E t x data).NamesItsParams ↔ ¬Bare E t x := by
  have hread : Sql.Readable (insertOf E t x data).tokens := Sql.readable_insertTokens _ _
  have hplaces : Sql.places (insertOf E t x data).tokens = _ := Sql.places_insertTokens _ _
  have hparams : (insertOf E t x data).params.length = 1 := rfl
  rw [namesItsParams_iff hread, hplaces, hparams, bare_iff h]
  split
  · next hnone => exact iff_of_false (fun hall => by simpa using hall 1) (not_not.2 hnone)
  · next hsome => exact iff_of_true (fun n => by rw [List.mem_singleton]; omega) hsome

def Statement.Inserts (s : Statement) (E : EntityType α) (t : Table) (x : α) : Prop :=
  ∃ (data : Object) (items : List Sql.SetItem), E.encode x = some (.obj data) ∧
    s.params = [.json (.obj (payload E x data))] ∧ Sql.insertList? s.text = some items ∧
    Sql.Lists items (Given E x data)
      (fun c => t.timestamps = true ∧ c ∈ [Column.createdAt, Column.updatedAt])

theorem inserts_insertOf (h : E.encode x = some (.obj data)) (hdata : data.keys.Nodup) :
    (insertOf E t x data).Inserts E t x := by
  have hfree {c : String} (hc : c ∈ Column.standard) (hid : c ≠ Column.id) :
      c ∉ (payload E x data).keys := fun hmem =>
    (mem_payload.1 hmem).elim (fun hown => hown.2 hc) (fun hgiven => hid hgiven.1)
  have hlists := Sql.lists_newRowAssignments (nodup_payload hdata)
    (hfree (c := Column.createdAt) (by decide) (by decide))
    (hfree (c := Column.updatedAt) (by decide) (by decide)) t.timestamps
  have hgiven : (· ∈ (payload E x data).keys) = Given E x data :=
    funext fun _ => propext mem_payload
  exact ⟨data, _, h, rfl, Sql.insertList?_insertTokens _ _, hgiven ▸ hlists⟩

/-- A call that comes to a statement: as far as it needs them, its record has a document, its
identity is a signed number, and there is a column to set. -/
def Reaches (E : EntityType α) (t : Table) : StoreCall α → Prop
  | .find id _ _ | .softDelete id | .clearTombstone id | .hardDelete id => id.toNat < 2 ^ 63
  | .query _ _ | .count _ => True
  | .insert x => ∃ data : Object, E.encode x = some (.obj data)
  | .save x => ∃ data : Object, E.encode x = some (.obj data) ∧
      ((∃ c ∈ data.keys, c ∉ Column.standard) ∨ t.timestamps = true) ∧
        (E.identity x).toNat < 2 ^ 63
  | .updateFields id fields => (fields ≠ [] ∨ t.timestamps = true) ∧ id.toNat < 2 ^ 63

section

variable {β : Type} {id : Id} {fields : Object}

theorem exists_identity : (∃ p, identity id = .ok p) ↔ id.toNat < 2 ^ 63 := by
  unfold identity
  split
  · next h => exact iff_of_true ⟨_, rfl⟩ h
  · next h => exact iff_of_false nofun h

theorem sends_ofStatement {e : Except StoreError Statement} :
    (∃ s, Plan.ofStatement (β := β) e = .send s) ↔ ∃ s, e = .ok s := by
  cases e <;> simp [Plan.ofStatement]

theorem sends_byIdentity (tokens : List Sql.Token) (id : Id) :
    (∃ s, Plan.ofStatement (β := β) (byIdentity tokens id) = .send s) ↔ id.toNat < 2 ^ 63 := by
  rw [sends_ofStatement, ← exists_identity, byIdentity]
  cases identity id with
  | error e => exact iff_of_false nofun nofun
  | ok p => exact iff_of_true ⟨_, rfl⟩ ⟨_, rfl⟩

theorem rowAssignments_ne_nil {names : List String} {stamps : Bool} :
    Sql.rowAssignments names stamps ≠ [] ↔ names ≠ [] ∨ stamps = true := by
  cases stamps <;> simp [Sql.rowAssignments]

theorem sends_updatePlan : (∃ s, updatePlan t id fields = .send s) ↔
    (fields.keys ≠ [] ∨ t.timestamps = true) ∧ id.toNat < 2 ^ 63 := by
  rw [← rowAssignments_ne_nil, ← exists_identity]
  constructor
  · rintro ⟨s, hs⟩
    obtain ⟨hsome, p, hp, -⟩ := updatePlan_eq_send.1 hs
    exact ⟨hsome, p, hp⟩
  · rintro ⟨hsome, p, hp⟩
    exact ⟨_, updatePlan_eq_send.2 ⟨hsome, p, hp, rfl⟩⟩

theorem writableFields_of_encode (h : E.encode x = some (.obj data)) :
    writableFields E x = .ok (ownMembers data) := by
  rw [writableFields, h]
  rfl

theorem keys_ownMembers_ne_nil :
    (ownMembers data).keys ≠ [] ↔ ∃ c ∈ data.keys, c ∉ Column.standard := by
  constructor
  · intro h
    obtain ⟨c, hc⟩ := List.exists_mem_of_ne_nil _ h
    exact ⟨c, mem_ownMembers.1 hc⟩
  · rintro ⟨c, hc⟩
    exact List.ne_nil_of_mem (mem_ownMembers.2 hc)

theorem sends_save : (∃ s, plan E t (.save x) = .send s) ↔ Reaches E t (.save x) := by
  constructor
  · rintro ⟨s, hs⟩
    cases hfields : writableFields E x with
    | error e =>
      simp only [plan, hfields] at hs
      cases hs
    | ok fields =>
      simp only [plan, hfields] at hs
      obtain ⟨data, hdata, rfl⟩ := writableFields_ok hfields
      obtain ⟨hsome, hid⟩ := sends_updatePlan.1 ⟨s, hs⟩
      exact ⟨data, hdata, hsome.imp_left keys_ownMembers_ne_nil.1, hid⟩
  · rintro ⟨data, hdata, hsome, hid⟩
    obtain ⟨s, hs⟩ := sends_updatePlan.2 ⟨hsome.imp_left keys_ownMembers_ne_nil.2, hid⟩
    refine ⟨s, ?_⟩
    simp only [plan, writableFields_of_encode hdata]
    exact hs

theorem sends_insert : (∃ s, plan E t (.insert x) = .send s) ↔ Reaches E t (.insert x) := by
  refine sends_ofStatement.trans ⟨fun ⟨s, hs⟩ => ?_, fun ⟨data, hdata⟩ => ?_⟩
  · obtain ⟨data, hdata, -⟩ := insertStatement_ok hs
    exact ⟨data, hdata⟩
  · exact ⟨insertOf E t x data, by rw [insertStatement, writableFields_of_encode hdata]; rfl⟩

theorem sends_iff (c : StoreCall α) : (∃ s, plan E t c = .send s) ↔ Reaches E t c := by
  cases c with
  | query q w => exact iff_of_true ⟨_, rfl⟩ trivial
  | count q => exact iff_of_true ⟨_, rfl⟩ trivial
  | insert x => exact sends_insert
  | save x => exact sends_save
  | updateFields id fields =>
    have hkeys : fields.keys ≠ [] ↔ fields ≠ [] := by simp [Object.keys]
    exact sends_updatePlan.trans (by rw [hkeys]; rfl)
  | find id preloads v => exact sends_byIdentity _ id
  | softDelete id => exact sends_byIdentity _ id
  | clearTombstone id => exact sends_byIdentity _ id
  | hardDelete id => exact sends_byIdentity _ id

end

theorem sent_cases (E : EntityType α) (t : Table) (conn : Connection) (c : StoreCall α) :
    ((answer E t conn c).2.sent = conn.sent ∧ ¬(conn.closed = false ∧ Reaches E t c)) ∨
      ∃ s, plan E t c = .send s ∧ conn.closed = false ∧ Reaches E t c ∧
        (answer E t conn c).2.sent = conn.sent ++ [s] := by
  have hreach := sends_iff (E := E) (t := t) c
  unfold answer
  cases hplan : plan E t c with
  | answer a =>
    refine .inl ⟨rfl, fun h => ?_⟩
    obtain ⟨s, hs⟩ := hreach.2 h.2
    cases hplan.symm.trans hs
  | send s =>
    cases conn.closed with
    | true => exact .inl ⟨rfl, nofun⟩
    | false =>
      refine .inr ⟨s, rfl, rfl, hreach.1 ⟨s, hplan⟩, ?_⟩
      unfold Connection.exchange
      cases conn.replies <;> rfl

theorem numbered_of_plan {c : StoreCall α} (hinsert : ∀ x, c ≠ .insert x)
    (horder : ∀ q w, c = .query q w → ∀ clause, q.order ≠ some (.raw clause))
    (h : plan E t c = .send s) : s.Numbered := by
  cases c with
  | find id preloads v =>
    exact numbered_byIdentity (Sql.readable_findTokens _ v) (Sql.places_findTokens _ v)
      (ofStatement_send h)
  | query q w =>
    have hread : ∀ o, q.order = some o → o.isRead = true := by
      intro o ho
      cases o with
      | keys ks => rfl
      | raw clause => exact absurd ho (horder q w rfl clause)
    obtain rfl := Plan.send.inj h
    exact numbered_ofSelect (Sql.readable_select hread w) (Sql.places_select w)
  | count q =>
    obtain rfl := Plan.send.inj h
    exact numbered_ofSelect Sql.readable_count Sql.places_count
  | insert x => exact absurd rfl (hinsert x)
  | save x =>
    simp only [plan] at h
    split at h
    · exact numbered_updatePlan h
    · cases h
  | updateFields id fields => exact numbered_updatePlan h
  | softDelete id =>
    exact numbered_byIdentity (Sql.readable_tombstoneTokens _ _ _)
      (Sql.places_tombstoneTokens _ _ rfl) (ofStatement_send h)
  | clearTombstone id =>
    exact numbered_byIdentity (Sql.readable_tombstoneTokens _ _ _)
      (Sql.places_tombstoneTokens _ _ rfl) (ofStatement_send h)
  | hardDelete id =>
    exact numbered_byIdentity (Sql.readable_deleteTokens _) (Sql.places_deleteTokens _)
      (ofStatement_send h)

/-- A call sends one statement if it comes to one, and none otherwise. The statement names the
parameters that are bound with it and no others, unless it inserts a record that is bare; and an
INSERT lists the columns of its record. -/
theorem names_its_params_iff (E : EntityType α) (t : Table) (conn : Connection) (c : StoreCall α)
    (horder : ∀ q w, c = .query q w → ∀ clause, q.order ≠ some (.raw clause))
    (hdistinct : ∀ x (data : Object), c = .insert x → E.encode x = some (.obj data) →
      data.keys.Nodup) :
    ∃ sent : Option Statement, (answer E t conn c).2.sent = conn.sent ++ sent.toList ∧
      (sent.isSome ↔ conn.closed = false ∧ Reaches E t c) ∧ ∀ s, sent = some s →
        (s.NamesItsParams ↔ ∀ x, c = .insert x → ¬Bare E t x) ∧
        ∀ x, c = .insert x → s.Inserts E t x := by
  rcases sent_cases E t conn c with ⟨hsent, hnone⟩ | ⟨s, hplan, hopen, hreach, hsent⟩
  · exact ⟨none, by simpa using hsent, iff_of_false nofun hnone, nofun⟩
  · refine ⟨some s, hsent, iff_of_true rfl ⟨hopen, hreach⟩, fun s' hs' => ?_⟩
    obtain rfl := Option.some.inj hs'
    by_cases hinsert : ∃ x, c = .insert x
    · obtain ⟨x, rfl⟩ := hinsert
      obtain ⟨data, hdata, rfl⟩ := insertStatement_ok (ofStatement_send hplan)
      refine ⟨(namesItsParams_insertOf hdata).trans ?_, ?_⟩
      · exact ⟨fun h x' hx' => StoreCall.insert.inj hx' ▸ h, fun h => h x rfl⟩
      · intro x' hx'
        obtain rfl := StoreCall.insert.inj hx'
        exact inserts_insertOf hdata (hdistinct x data rfl hdata)
    · have hother : ∀ x, c ≠ .insert x := fun x hx => hinsert ⟨x, hx⟩
      refine ⟨iff_of_true (numbered_of_plan hother horder hplan).namesItsParams ?_, ?_⟩
      · exact fun x hx => absurd hx (hother x)
      · exact fun x hx => absurd hx (hother x)

theorem names_its_params_ann :
    (∀ q w, StoreCall.insert Repository.ann = .query q w → ∀ clause, q.order ≠ some (.raw clause)) ∧
    ∃ s, (answer Repository.users.entity Repository.userTable {} (.insert Repository.ann)).2.sent =
        [s] ∧
      s.NamesItsParams ∧ s.Inserts Repository.users.entity Repository.userTable Repository.ann := by
  have horder : ∀ q w, StoreCall.insert Repository.ann = .query q w →
      ∀ clause, q.order ≠ some (.raw clause) := fun _ _ h => by cases h
  have hkeys : (Repository.users.entity.encode Repository.ann).map
      (fun d => (d.object?.getD []).map (·.1)) =
        some ["active", "age", "created_at", "deleted_at", "email", "id", "name", "score",
          "updated_at"] := by decide +kernel
  have hdistinct : ∀ x (data : Object), StoreCall.insert Repository.ann = .insert x →
      Repository.users.entity.encode x = some (.obj data) → data.keys.Nodup := by
    intro x data hx hdata
    obtain rfl := StoreCall.insert.inj hx
    rw [hdata] at hkeys
    have hkeys : data.keys = _ := Option.some.inj hkeys
    rw [hkeys]
    decide
  obtain ⟨sent, hsent, hsome, hall⟩ := names_its_params_iff Repository.users.entity
    Repository.userTable {} (.insert Repository.ann) horder hdistinct
  obtain ⟨s, rfl⟩ := Option.isSome_iff_exists.1 (hsome.2 ⟨rfl, _, rfl⟩)
  obtain ⟨hnames, hinserts⟩ := hall s rfl
  have htimes : ∀ x, StoreCall.insert Repository.ann = .insert x →
      ¬Bare Repository.users.entity Repository.userTable x := fun _ _ hbare => by
    cases hbare.untimed
  exact ⟨horder, s, hsent, hnames.2 htimes, hinserts _ rfl⟩

def ping : Schema where
  name := "ping"
  plural := "pings"
  fields := []
  distinct := by decide

/-- The INSERT of a new ping has no columns, and binds a document for which it has no place. -/
theorem not_names_its_params :
    ∃ s, (answer ping.entity ⟨"pings", false⟩ {} (.insert (.fresh ()))).2.sent = [s] ∧
      s.text = "INSERT INTO \"pings\" DEFAULT VALUES RETURNING to_jsonb(\"pings\".*)" ∧
      s.params = [.json (.obj [])] ∧ ¬s.NamesItsParams := by
  have hencode : ping.entity.encode (.fresh ()) = some (.obj _) := rfl
  have hbare : Bare ping.entity ⟨"pings", false⟩ (.fresh ()) := ⟨rfl, rfl, fun data h => by
    obtain rfl := Json.obj.inj (Option.some.inj (hencode.symm.trans h))
    decide⟩
  refine ⟨_, rfl, by decide +kernel, by decide +kernel, fun hnames => ?_⟩
  exact (namesItsParams_insertOf hencode).1 hnames hbare

end Postgres

end Recordkeeper
