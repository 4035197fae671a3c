import Recordkeeper.Proofs.Identifier
import Recordkeeper.Proofs.Protocol
import Recordkeeper.Proofs.Refusal
import Recordkeeper.Proofs.Sql.SetList
import Recordkeeper.Store.Postgres

set_option autoImplicit false

namespace Recordkeeper

variable {α : Type}

structure Column.Separate (names : List String) : Prop where
  distinct : (names.map Identifier.unqualified).Nodup
  foreign : ∀ c ∈ names, '.' ∈ c.toList → Identifier.unqualified c ∉ Column.standard

theorem Column.bare_of_standard : ∀ c ∈ Column.standard, '.' ∉ c.toList := by decide

theorem Column.separate_and_iff {names : List String} :
    (names.map Identifier.unqualified).Nodup ∧
        (∀ c ∈ names, Identifier.unqualified c ∉ Column.standard) ↔
      Column.Separate names ∧ ∀ c ∈ names, c ∉ Column.standard := by
  constructor
  · rintro ⟨hdistinct, hforeign⟩
    refine ⟨⟨hdistinct, fun c hc _ => hforeign c hc⟩, fun c hc hstandard => hforeign c hc ?_⟩
    rwa [Identifier.unqualified_of_bare (bare_of_standard c hstandard)]
  · rintro ⟨hseparate, hbare⟩
    refine ⟨hseparate.distinct, fun c hc => ?_⟩
    by_cases hdot : '.' ∈ c.toList
    · exact hseparate.foreign c hc hdot
    · rw [Identifier.unqualified_of_bare hdot]
      exact hbare c hc

theorem Column.separate_of_bare {names : List String} (h : ∀ c ∈ names, '.' ∉ c.toList)
    (hnames : names.Nodup) : Column.Separate names where
  distinct := by
    rw [List.map_congr_left fun c hc => Identifier.unqualified_of_bare (h c hc), List.map_id']
    exact hnames
  foreign := fun c hc hdot => (h c hc hdot).elim

namespace Sql

def columnOf (name : Parts) : String := String.ofList (name.getLast?.getD [])

def SetItem.target (i : SetItem) : String := columnOf i.column

/-- No column is assigned twice, none of the store's own is taken from the record, and the time of
the last update is only ever the present. -/
structure Proper (items : List SetItem) : Prop where
  once : (items.map SetItem.target).Nodup
  kept : ∀ i ∈ items, ∀ c, i.origin = .record c →
    i.target ∉ Column.standard ∧ columnOf c ∉ Column.standard
  stamped : ∀ i ∈ items, i.target = Column.updatedAt → i.origin = .now

def rowAssignments (names : List String) (stamps : Bool) : List Assignment :=
  names.map (·, .record) ++ if stamps then [(Column.updatedAt, .now)] else []

theorem target_item (a : Assignment) : (Assignment.item a).target = Identifier.unqualified a.1 := rfl

theorem proper_rowAssignments (names : List String) (stamps : Bool) :
    Proper ((rowAssignments names stamps).map Assignment.item) ↔
      (names.map Identifier.unqualified).Nodup ∧
        ∀ c ∈ names, Identifier.unqualified c ∉ Column.standard := by
  have hstamp : Identifier.unqualified Column.updatedAt = Column.updatedAt :=
    Identifier.unqualified_of_bare (by decide)
  have htargets : ((rowAssignments names stamps).map Assignment.item).map SetItem.target =
      names.map Identifier.unqualified ++ if stamps then [Column.updatedAt] else [] := by
    cases stamps <;> simp [rowAssignments, target_item, Function.comp_def, hstamp]
  have hitem {i : SetItem} : i ∈ (rowAssignments names stamps).map Assignment.item ↔
      (∃ c ∈ names, i = Assignment.item (c, .record)) ∨
        stamps = true ∧ i = Assignment.item (Column.updatedAt, .now) := by
    cases stamps <;> simp [rowAssignments, eq_comm]
  constructor
  · intro h
    refine ⟨(List.nodup_append.1 (htargets ▸ h.once)).1, fun c hc => ?_⟩
    exact (h.kept _ (hitem.2 (.inl ⟨c, hc, rfl⟩)) _ rfl).1
  · rintro ⟨hdistinct, hforeign⟩
    refine ⟨?_, fun i hi c horigin => ?_, fun i hi htarget => ?_⟩
    · rw [htargets]
      refine List.nodup_append.2 ⟨hdistinct, by cases stamps <;> simp, ?_⟩
      intro a ha b hb hab
      obtain ⟨c, hc, rfl⟩ := List.mem_map.1 ha
      cases stamps with
      | false => cases hb
      | true =>
        obtain rfl := List.mem_singleton.1 hb
        exact hforeign c hc (hab ▸ by decide)
    · rcases hitem.1 hi with ⟨c, hc, rfl⟩ | ⟨-, rfl⟩
      · obtain rfl := Origin.record.inj horigin
        exact ⟨hforeign c hc, hforeign c hc⟩
      · cases horigin
    · rcases hitem.1 hi with ⟨c, hc, rfl⟩ | ⟨-, rfl⟩
      · rw [target_item] at htarget
        exact absurd (htarget ▸ by decide) (hforeign c hc)
      · rfl

end Sql

namespace Postgres

def Statement.SetsProperly (s : Statement) : Prop :=
  ∃ items, Sql.setList? s.text = some items ∧ Sql.Proper items

variable {t : Table} {id : Id} {fields : Object} {s : Statement}

theorem updatePlan_eq_send : updatePlan t id fields = .send s ↔
    Sql.rowAssignments fields.keys t.timestamps ≠ [] ∧ ∃ p, identity id = .ok p ∧
      s = ⟨Sql.updateTokens t.name (Sql.rowAssignments fields.keys t.timestamps),
        [.json (.obj fields), p]⟩ := by
  have hplan : updatePlan t id fields =
      if (Sql.rowAssignments fields.keys t.timestamps).isEmpty then .answer (.ok 0)
      else .ofStatement ((identity id).map fun p =>
        ⟨Sql.updateTokens t.name (Sql.rowAssignments fields.keys t.timestamps),
          [.json (.obj fields), p]⟩) := rfl
  rw [hplan]
  split
  · next hnone => exact iff_of_false nofun fun h => h.1 (List.isEmpty_iff.1 hnone)
  · next hsome =>
    rw [List.isEmpty_iff] at hsome
    cases identity id with
    | error e => simp [Plan.ofStatement, Except.map]
    | ok p => simp [Plan.ofStatement, Except.map, hsome, eq_comm]

theorem setList?_updatePlan (h : updatePlan t id fields = .send s) :
    Sql.setList? s.text =
      some ((Sql.rowAssignments fields.keys t.timestamps).map Sql.Assignment.item) := by
  obtain ⟨hsome, p, -, rfl⟩ := updatePlan_eq_send.1 h
  exact Sql.setList?_updateTokens t.name hsome

theorem setsProperly_updatePlan (h : updatePlan t id fields = .send s) :
    s.SetsProperly ↔ (fields.keys.map Identifier.unqualified).Nodup ∧
      ∀ c ∈ fields.keys, Identifier.unqualified c ∉ Column.standard := by
  rw [← Sql.proper_rowAssignments _ t.timestamps, Statement.SetsProperly,
    setList?_updatePlan h]
  simp

theorem writableFields_ok {E : EntityType α} {x : α} (h : writableFields E x = .ok fields) :
    ∃ data : Object, E.encode x = some (.obj data) ∧
      fields = data.filter fun m => !Column.standard.contains m.1 := by
  unfold writableFields at h
  split at h
  · next data hdata => exact ⟨data, hdata, (Except.ok.inj h).symm⟩
  · cases h
  · cases h

theorem setsProperly_save {E : EntityType α} {x : α} (h : plan E t (.save x) = .send s) :
    ∃ data : Object, E.encode x = some (.obj data) ∧
      (s.SetsProperly ↔ Column.Separate (data.keys.filter (· ∉ Column.standard))) := by
  cases hfields : writableFields E x with
  | error e =>
    simp only [plan, hfields] at h
    cases h
  | ok fields =>
    simp only [plan, hfields] at h
    obtain ⟨data, hdata, rfl⟩ := writableFields_ok hfields
    refine ⟨data, hdata, ?_⟩
    have hkeys : Object.keys (data.filter fun m => !Column.standard.contains m.1) =
        data.keys.filter (· ∉ Column.standard) := by
      simp [Object.keys, List.filter_map, Function.comp_def]
    rw [setsProperly_updatePlan h, hkeys, Column.separate_and_iff]
    exact and_iff_left fun c hc => by simpa using (List.mem_filter.1 hc).2

end Postgres

namespace Repository

variable {r : Repository α} {x : α} {fields : Object}

theorem checkField_of_checkFields {b : Unit} (h : r.checkFields x fields = .ok b) :
    ∀ c ∈ fields.keys, checkField c = .ok () := by
  have hall {cs : List String} (h : cs.forM checkField = .ok b) : ∀ c ∈ cs, checkField c = .ok () := by
    induction cs with
    | nil => simp
    | cons c cs ih =>
      change (checkField c >>= fun _ => cs.forM checkField) = _ at h
      cases hc : checkField c with
      | error e =>
        rw [hc] at h
        cases h
      | ok u =>
        rw [hc] at h
        exact List.forall_mem_cons.2 ⟨hc, ih h⟩
  unfold checkFields at h
  cases hid : r.requireIdentity (r.entity.identity x) "update" with
  | error e =>
    rw [hid] at h
    cases h
  | ok u =>
    rw [hid] at h
    change (if fields.isEmpty then throw _ else fields.keys.forM checkField) = _ at h
    split at h
    · cases h
    · exact hall h

theorem ne_of_checkField {c : String} (h : checkField c = .ok ()) :
    c ≠ Column.id ∧ c ≠ Column.deletedAt := by
  unfold checkField at h
  split at h
  · cases h
  · split at h
    · cases h
    · next hid =>
      split at h
      · cases h
      · next hdeleted => exact ⟨hid, hdeleted⟩

theorem standard_of_checkFields {b : Unit} (h : r.checkFields x fields = .ok b) :
    (∀ c ∈ fields.keys, c ∉ Column.standard) ↔
      Column.createdAt ∉ fields.keys ∧ Column.updatedAt ∉ fields.keys := by
  constructor
  · exact fun hnone => ⟨fun hc => hnone _ hc (by decide), fun hc => hnone _ hc (by decide)⟩
  · rintro ⟨hcreated, hupdated⟩ c hc hstandard
    obtain ⟨hid, hdeleted⟩ := ne_of_checkField (checkField_of_checkFields h c hc)
    simp only [Column.standard, List.mem_cons, List.not_mem_nil, or_false] at hstandard
    rcases hstandard with rfl | rfl | rfl | rfl
    · exact hid rfl
    · exact hcreated hc
    · exact hupdated hc
    · exact hdeleted rfl

theorem calls_updateFields {b : Unit} (h : r.checkFields x fields = .ok b) :
    (Operation.updateFields x fields).Calls r (.updateFields (r.entity.identity x) fields) := by
  let e : StoreError := .unavailable Postgres.backend
  refine ⟨[⟨.store (.updateFields (r.entity.identity x) fields), .error e⟩], .error (.store e),
    .error e, ?_, List.mem_singleton_self _⟩
  have haction : (Operation.updateFields x fields).action r =
      liftExcept (r.checkFields x fields) >>= fun _ =>
        ask (.updateFields (r.entity.identity x) fields) >>= r.settle (r.entity.identity x) := rfl
  rw [haction, h]
  exact ⟨.error e, [], rfl, rfl, rfl⟩

/-- An update assigns properly if and only if its columns are separate and, where callers name them,
none is one of the times that the store keeps. -/
theorem setsProperly_iff_separate (r : Repository α) (t : Postgres.Table) :
    (∀ x s, Postgres.plan r.entity t (.save x) = .send s →
      ∃ data : Object, r.entity.encode x = some (.obj data) ∧
        (s.SetsProperly ↔ Column.Separate (data.keys.filter (· ∉ Column.standard))) ∧
        (data.keys.Nodup → (∀ c ∈ data.keys, '.' ∉ c.toList) → s.SetsProperly)) ∧
    ∀ x fields id given, (Operation.updateFields x fields).Calls r (.updateFields id given) →
      ∀ s, Postgres.plan r.entity t (.updateFields id given) = .send s →
        (s.SetsProperly ↔ Column.Separate given.keys ∧
          Column.createdAt ∉ given.keys ∧ Column.updatedAt ∉ given.keys) := by
  constructor
  · intro x s hs
    obtain ⟨data, hdata, hiff⟩ := Postgres.setsProperly_save hs
    refine ⟨data, hdata, hiff, fun hnodup hbare => hiff.2 ?_⟩
    exact Column.separate_of_bare (fun c hc => hbare c (List.mem_of_mem_filter hc))
      (hnodup.filter _)
  · intro x fields id given hcalls s hs
    obtain ⟨b, hb, hgiven⟩ := Option.map_eq_some_iff.1 (hcalls.write? rfl)
    obtain ⟨rfl, rfl⟩ := StoreCall.updateFields.inj hgiven
    have hcheck : r.checkFields x fields = .ok b := by
      cases hc : r.checkFields x fields <;> simp_all [Except.toOption]
    rw [Postgres.setsProperly_updatePlan hs, Column.separate_and_iff, standard_of_checkFields hcheck]

def userTable : Postgres.Table where
  name := "users"

def agedOnly : Object := [("age", .num (.int 31))]

theorem setsProperly_agedOnly :
    (∃ s, Postgres.plan users.entity userTable (.save { ann with id := 1 }) = .send s ∧
      s.SetsProperly) ∧
    ∃ s, (Operation.updateFields { ann with id := 1 } agedOnly).Calls users
        (.updateFields 1 agedOnly) ∧
      Postgres.plan users.entity userTable (.updateFields 1 agedOnly) = .send s ∧ s.SetsProperly := by
  obtain ⟨hsave, hfields⟩ := setsProperly_iff_separate users userTable
  have hcalls : (Operation.updateFields { ann with id := 1 } agedOnly).Calls users
      (.updateFields 1 agedOnly) := calls_updateFields (b := ()) (by decide +kernel)
  constructor
  · obtain ⟨data, hdata, -, hproper⟩ := hsave { ann with id := 1 } _ rfl
    have hkeys : (users.entity.encode { ann with id := 1 }).map
        (fun d => (d.object?.getD []).map (·.1)) =
          some ["active", "age", "created_at", "deleted_at", "email", "id", "name", "score",
            "updated_at"] := by decide +kernel
    rw [hdata] at hkeys
    have hkeys : data.keys = _ := Option.some.inj hkeys
    exact ⟨_, rfl, hproper (by rw [hkeys]; decide) (by rw [hkeys]; decide)⟩
  · have hseparate : Column.Separate agedOnly.keys := Column.separate_of_bare (by decide) (by decide)
    exact ⟨_, hcalls, rfl,
      (hfields _ _ _ _ hcalls _ rfl).2 ⟨hseparate, by decide, by decide⟩⟩

def agedThen : Object := agedOnly ++ [(Column.updatedAt, .str "2000-01-01T00:00:00Z")]

/-- The time of the last update can be taken from the record like any other column. -/
theorem not_setsProperly_agedThen :
    ¬∀ id given, (Operation.updateFields { ann with id := 1 } agedThen).Calls users
        (.updateFields id given) →
      ∀ s, Postgres.plan users.entity userTable (.updateFields id given) = .send s →
        s.SetsProperly := by
  intro h
  have hsent : Postgres.updatePlan userTable 1 agedThen = .send _ := rfl
  have hproper := h 1 agedThen (calls_updateFields (b := ()) (by decide +kernel)) _ hsent
  obtain ⟨-, hforeign⟩ := (Postgres.setsProperly_updatePlan hsent).1 hproper
  exact hforeign Column.updatedAt (by decide) (by decide)

end Repository

end Recordkeeper
