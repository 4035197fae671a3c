import Recordkeeper.Proofs.Operation
import Recordkeeper.Proofs.Refusal
import Recordkeeper.Proofs.Table.Columns
import Recordkeeper.Proofs.Table.Congruence

/-!
When queries see every row as it shows itself. Records that are stored whole pass through their
type, and so are seen as they are shown; columns that are set one by one are kept as given, and are
seen as shown only where they were given as the type writes them.
-/

set_option autoImplicit false

namespace Recordkeeper

variable {α : Type}

namespace Table

theorem setColumns_ok {fields data data' : Object} (h : setColumns fields data = .ok data')
    (c : String) :
    data'.get? c = ((Object.ofMembers fields).get? c).or (data.get? c) ∧
      data'.has c = data.has c ∧
      ((Object.ofMembers fields).has c → c ≠ Column.id ∧ c ≠ Column.deletedAt) := by
  induction fields generalizing data with
  | nil =>
    obtain rfl := Except.ok.inj h
    exact ⟨rfl, rfl, fun hc => by cases hc⟩
  | cons m fields ih =>
    obtain ⟨k, v⟩ := m
    simp only [setColumns] at h
    split at h
    · cases h
    · next hk =>
      split at h
      · next hhas =>
        obtain ⟨hget, hsame, hown⟩ := ih h
        rw [not_or] at hk
        refine ⟨?_, by rw [hsame, Object.has_replace], fun hc => ?_⟩
        · rw [hget, Object.get?_ofMembers_cons, Object.get?_replace, Option.or_assoc]
          by_cases hc : c = k
          · subst hc
            obtain ⟨w, hw⟩ := Option.isSome_iff_exists.1 hhas
            simp [hw]
          · simp [hc]
        · by_cases hck : c = k
          · exact hck ▸ hk
          · refine hown ?_
            simpa [Object.has, Object.get?_ofMembers_cons, hck] using hc
      · cases h

end Table

namespace Repository

variable {r : Repository α} {m m₀ : Memory}

structure FieldsSet (r : Repository α) (m₀ m : Memory) (id : Id) (fields : Object) (row : Row)
    (data : Object) : Prop where
  live : m₀.table.live? id = some row
  set : Table.setColumns fields row.data = .ok data
  table : m.table = m₀.table.put id
    { row with data := data.replace Column.updatedAt (.str m₀.now.wall.text) }

theorem ends_settle_reached {id : Id} {affected : UInt64} {P : Table → Prop} :
    Action.Ends (Memory.faulty r.entity []) (fun m => affected ≠ 0 → P m.table)
      (r.settle id affected)
      (fun y m => P m.table ∧ m.table.find r.entity id .active = .ok (some y)) fun _ => True := by
  unfold settle
  refine Action.ends_ite (fun _ => Action.ends_throw fun _ _ => trivial) fun hn => ?_
  have hdrop : Action.Ends (Memory.faulty r.entity []) (fun m => affected ≠ 0 → P m.table)
      (liftM (r.invalidate id)) (fun _ m => P m.table) fun _ => True := by
    refine Action.ends_lift fun m hm => ?_
    rw [(run_invalidate_alike r [] id m).table]
    exact hm hn
  exact hdrop.bind fun _ => ends_fetch.mono (fun _ h => h) (fun _ _ h => h) fun _ _ => trivial

/-- An update of columns that succeeds has set them, and answers with what the row shows. -/
theorem ends_updateFields (x : α) (fields : Object) :
    Action.Ends (Memory.faulty r.entity []) (· = m₀) (r.updateFields x fields)
      (fun y m => ∃ row data, r.FieldsSet m₀ m (r.entity.identity x) fields row data ∧
        Table.recordOf r.entity (r.entity.identity x)
          { row with data := data.replace Column.updatedAt (.str m₀.now.wall.text) } = .ok y)
      fun _ => True := by
  unfold updateFields
  let P (t : Table) : Prop :=
    ∃ row data, r.FieldsSet m₀ { m₀ with table := t } (r.entity.identity x) fields row data
  have hset : Action.Ends (Memory.faulty r.entity [])
      (fun m => m = m₀ ∧ r.checkFields x fields = .ok ())
      (ask (.updateFields (r.entity.identity x) fields))
      (fun (n : UInt64) m => n ≠ 0 → P m.table) fun _ => True := by
    refine Memory.ends_call (fun _ _ _ _ => trivial) ?_
    rintro m n t ⟨rfl, -⟩ hout hn
    cases hout with
    | read h => cases h
    | fieldsMissed => exact absurd rfl hn
    | @fieldsSet _ _ data row y hlive hdata hrec => exact ⟨row, data, hlive, hdata, rfl⟩
  have hcheck : Action.Ends (Memory.faulty r.entity []) (· = m₀)
      (liftExcept (r.checkFields x fields)) (fun _ m => m = m₀ ∧ r.checkFields x fields = .ok ())
      fun _ => True :=
    ends_check trivial
  refine hcheck.bind fun _ => hset.bind fun (n : UInt64) =>
    ends_settle_reached.mono (fun _ h => h) (fun y m hm => ?_) fun _ _ => trivial
  obtain ⟨⟨row, data, hlive, hdata, htable⟩, hfind⟩ := hm
  obtain ⟨row', hget, -, hrec⟩ := Table.find_eq_some.1 hfind
  rw [htable, Table.get?_put_self] at hget
  obtain rfl := Option.some.inj hget
  exact ⟨row, data, ⟨hlive, hdata, htable⟩, hrec⟩

/-- An update of columns that succeeds was given every value as the record shows it. The time of the
last change is the store's, whatever is given. -/
def GivesAsShown (r : Repository α) (m : Memory) (x : α) (fields : Object) (now : Moment) : Prop :=
  ∀ y e, (r.perform ⟨.updateFields x fields, now, []⟩ m).1 = .ok y →
    r.entity.encode y = some (.obj e) → ∀ field v, Identifier.unqualified field ≠ Column.updatedAt →
      (Object.ofMembers fields).get? (Identifier.unqualified field) = some v →
      (Object.get? (Identifier.unqualified field) e).getD .null = v

end Repository

open EntityType.Columnar

section

variable {E : EntityType α} {C : E.Columnar} {t t' : Table} {now : Timestamp}

theorem Table.Outcome.allShaped {c : StoreCall α} {a : c.Answer} (h : Table.Outcome E now t c a t')
    (ht : t.All fun _ row => C.Shaped row.data) : t'.All fun _ row => C.Shaped row.data :=
  h.all ht (fun _ _ _ _ hdata _ => (Shaped.of_encode hdata).stampNew now)
    (fun _ _ _ _ _ hdata _ => ((Shaped.of_encode hdata).replace _ _).replace _ _)
    (fun _ _ _ _ _ _ _ hrow hset _ =>
      (hrow.congr fun c => (Table.setColumns_ok hset c).2.1).replace _ _)
    fun _ _ _ hrow => hrow

theorem Table.Outcome.allSettled {c : StoreCall α} {a : c.Answer}
    (h : Table.Outcome E now t c a t') (hc : ∀ id fields, c ≠ .updateFields id fields)
    (ht : t.All fun _ row => C.Settled row.data) : t'.All fun _ row => C.Settled row.data :=
  h.all ht (fun _ _ _ _ hdata _ => (Settled.of_encode hdata).stampNew (.of_encode hdata) now)
    (fun _ _ _ _ _ hdata hrow => (Settled.of_encode hdata).overwritten (.of_encode hdata) hrow now)
    (fun _ _ _ _ _ heq _ _ _ _ => absurd heq (hc _ _)) fun _ _ _ hrow => hrow

theorem Table.Reachable.allShaped (ht : Table.Reachable E t) :
    t.All fun _ row => C.Shaped row.data :=
  ht.induct (P := fun t => t.All fun _ row => C.Shaped row.data) Table.all_empty
    fun now t c h => (Table.answer_outcome E now t c).allShaped h

theorem shows_of_settled {id : Id} {row : Row} (hs : C.Shaped row.data) (h : C.Settled row.data) :
    row.Shows E id := fun x e hx => (C.shows_iff ⟨x, hx⟩ hs).2 h x e hx

structure SameRecord (E : EntityType α) (a b : Id × Row) : Prop where
  identity : a.1 = b.1
  deletedAt : a.2.deletedAt = b.2.deletedAt
  record : ∃ x, Table.recordOf E a.1 a.2 = .ok x ∧ Table.recordOf E b.1 b.2 = .ok x

theorem SameRecord.alike (C : E.Columnar) {a b : Id × Row} (h : SameRecord E a b)
    (ha : a.2.Shows E a.1) (hb : b.2.Shows E b.1) : Table.Alike E a b where
  deleted := by rw [Row.isDeleted, Row.isDeleted, h.deletedAt]
  column := by
    obtain ⟨x, hx, hx'⟩ := h.record
    obtain ⟨e, he, -⟩ := C.rewrite_document hx
    funext field
    rw [ha x e hx he field, hb x e hx' he field, h.identity, h.deletedAt]
  record := by
    obtain ⟨x, hx, hx'⟩ := h.record
    rw [hx, hx']

theorem Table.Reachable.alike (C : E.Columnar) (ht : Table.Reachable E t)
    (ht' : Table.Reachable E t') (hshown : t.All (Row.Shows E)) (hshown' : t'.All (Row.Shows E))
    (h : List.Forall₂ (SameRecord E) t.rows t'.rows) : List.Forall₂ (Table.Alike E) t.rows t'.rows := by
  obtain ⟨hlen, hrows⟩ := List.forall₂_iff_get.1 h
  refine List.forall₂_iff_get.2 ⟨hlen, fun i hi hi' => ?_⟩
  have hget := ht.keyed.get?_of_mem (t.rows.get_mem ⟨i, hi⟩)
  have hget' := ht'.keyed.get?_of_mem (t'.rows.get_mem ⟨i, hi'⟩)
  exact (hrows i hi hi').alike C (hshown _ _ hget) (hshown' _ _ hget')

end

namespace Repository

variable {r : Repository α} {C : r.entity.Columnar} {m : Memory}

theorem FieldsSet.settled_iff {m' : Memory} {id : Id} {fields : Object} {row : Row}
    {data : Object} (h : r.FieldsSet m m' id fields row data) {y : α} {e : Object}
    (hrec : Table.recordOf r.entity id
      { row with data := data.replace Column.updatedAt (.str m.now.wall.text) } = .ok y)
    (he : r.entity.encode y = some (.obj e)) (field : String) (v : Json)
    (hfield : Identifier.unqualified field ≠ Column.updatedAt)
    (hv : (Object.ofMembers fields).get? (Identifier.unqualified field) = some v) :
    C.SettledAt (Identifier.unqualified field) (some v) ↔
      (Object.get? (Identifier.unqualified field) e).getD .null = v := by
  obtain ⟨hget, -, hown⟩ := Table.setColumns_ok h.set (Identifier.unqualified field)
  obtain ⟨hid, hdel⟩ := hown (by simp [Object.has, hv])
  obtain ⟨e', he', hrewrite⟩ := C.rewrite_document hrec
  obtain rfl : e = e' := Json.obj.inj (Option.some.inj (he.symm.trans he'))
  have hwritten := hrewrite (Identifier.unqualified field)
  rw [Row.get?_document hid hdel, Object.get?_replace_of_ne hfield, hget, hv, Option.some_or]
    at hwritten
  constructor
  · exact fun h => h _ hwritten
  · intro hsame o ho
    rw [Option.some.inj (ho.symm.trans hwritten)]
    exact hsame

theorem mayAsk_updateFields {op : Operation α} {id : Id} {fields : Object}
    (h : op.mayAsk r (.updateFields id fields)) : ∃ x, op = .updateFields x fields := by
  cases op with
  | updateFields x given => exact ⟨x, by rw [h.2]⟩
  | _ => cases h

theorem perform_settled {s : Step α} (hop : ∀ x fields, s.operation ≠ .updateFields x fields)
    (hm : m.table.All fun _ row => C.Settled row.data) :
    (r.perform s m).2.table.All fun _ row => C.Settled row.data := by
  refine perform_keeps (P := fun t => t.All fun _ row => C.Settled row.data)
    (fun now t c hmay ht => ?_) hm
  refine (Table.answer_outcome r.entity now t c).allSettled (fun id fields hc => ?_) ht
  obtain ⟨x, hx⟩ := mayAsk_updateFields (hc ▸ hmay)
  exact hop x fields hx

theorem perform_updateFields_ok {x : α} {fields : Object} {now : Moment} {y : α}
    (h : (r.perform ⟨.updateFields x fields, now, []⟩ m).1 = .ok y) :
    ∃ row data, r.FieldsSet { m with now := now }
        (r.perform ⟨.updateFields x fields, now, []⟩ m).2 (r.entity.identity x) fields row data ∧
      Table.recordOf r.entity (r.entity.identity x)
        { row with data := data.replace Column.updatedAt (.str now.wall.text) } = .ok y :=
  (ends_updateFields x fields { m with now := now } rfl).of_ok h

theorem perform_updateFields_settled (ht : Table.Reachable r.entity m.table)
    (hm : m.table.All fun _ row => C.Settled row.data) {x : α} {fields : Object} {now : Moment}
    (hgive : r.GivesAsShown m x fields now) :
    (r.perform ⟨.updateFields x fields, now, []⟩ m).2.table.All fun _ row => C.Settled row.data := by
  cases hanswer : (r.perform ⟨.updateFields x fields, now, []⟩ m).1 with
  | error e =>
    have hrows := (failsUnchanged_updateFields (r := r) x fields { m with now := now }
      rfl).of_error hanswer
    exact hm.congr hrows.rows
  | ok y =>
    obtain ⟨row, data, hset, hrec⟩ := perform_updateFields_ok hanswer
    obtain ⟨e, he, -⟩ := C.rewrite_document hrec
    have hget := Table.get?_of_live? hset.live
    have hkeys (c : String) := (Table.setColumns_ok hset.set c).2.1
    have hshaped : C.Shaped data := (ht.allShaped _ _ hget).congr hkeys
    rw [hset.table]
    refine hm.put (settled_replace hshaped (fun hc => ?_) fun field hid hdel hfield => ?_)
    · exact settledAt_of_kept (hshaped.rewrite_stamp hc (.time now.wall (by decide)))
    · rw [(Table.setColumns_ok hset.set _).1]
      cases hv : (Object.ofMembers fields).get? (Identifier.unqualified field) with
      | none => exact hm _ _ hget field hid hdel
      | some v =>
        exact (hset.settled_iff hrec he field v hfield hv).2 (hgive y e hanswer he field v hfield hv)

theorem givesAsShown_of_shows (C : r.entity.Columnar) {x : α} {fields : Object} {now : Moment}
    (ht : Table.Reachable r.entity (r.perform ⟨.updateFields x fields, now, []⟩ m).2.table)
    (hm : (r.perform ⟨.updateFields x fields, now, []⟩ m).2.table.All (Row.Shows r.entity)) :
    r.GivesAsShown m x fields now := by
  intro y e hy he field v hfield hv
  obtain ⟨row, data, hset, hrec⟩ := perform_updateFields_ok hy
  have hshaped := ht.allShaped (C := C)
  rw [hset.table] at hm hshaped
  have hrow := (C.shows_iff ⟨y, hrec⟩ (hshaped _ _ (Table.get?_put_self _ _ _))).1
    (hm _ _ (Table.get?_put_self _ _ _))
  refine (hset.settled_iff (C := C) hrec he field v hfield hv).1 ?_
  obtain ⟨hget, -, hown⟩ := Table.setColumns_ok hset.set (Identifier.unqualified field)
  obtain ⟨hid, hdel⟩ := hown (by simp [Object.has, hv])
  have hsettled := hrow field hid hdel
  rwa [Object.get?_replace_of_ne hfield, hget, hv, Option.some_or] at hsettled

/-- A run of which each update of columns that succeeds gives its values as shown keeps every row
settled. -/
theorem settled_of_givesAsShown {steps : List (Step α)} (hcalm : ∀ s ∈ steps, s.faults = [])
    {start : Moment}
    (h : ∀ p x fields now, p ++ [⟨.updateFields x fields, now, []⟩] <+: steps →
      r.GivesAsShown (r.after p (.fresh start)) x fields now) {p : List (Step α)}
    (hp : p <+: steps) : (r.after p (.fresh start)).table.All fun _ row => C.Settled row.data := by
  induction p using List.reverseRecOn with
  | nil => exact Table.all_empty
  | append_singleton p s ih =>
    have hm := ih (List.IsPrefix.trans (List.prefix_append _ _) hp)
    have ht : Table.Reachable r.entity (r.after p (.fresh start)).table :=
      .after p (m := .fresh start) .empty
    rw [after_append]
    obtain ⟨op, now, script⟩ := s
    obtain rfl : script = [] :=
      hcalm ⟨op, now, script⟩ (hp.subset (List.mem_append_right _ List.mem_cons_self))
    by_cases hop : ∃ x fields, op = .updateFields x fields
    · obtain ⟨x, fields, rfl⟩ := hop
      exact perform_updateFields_settled ht hm (h p x fields now hp)
    · exact perform_settled (fun x fields heq => hop ⟨x, fields, heq⟩) hm

/-- Along a run without failing calls, queries see every row as its record shows it if and only if
each update of columns that succeeds gives its values as the record shows them; and where they do,
queries are answered by the records shown, however these were written. -/
theorem shows_iff_givesAsShown (C : r.entity.Columnar) (steps : List (Step α))
    (hcalm : ∀ s ∈ steps, s.faults = []) (start : Moment) :
    ((∀ p, p <+: steps → (r.after p (.fresh start)).table.All (Row.Shows r.entity)) ↔
        ∀ p x fields now, p ++ [⟨.updateFields x fields, now, []⟩] <+: steps →
          r.GivesAsShown (r.after p (.fresh start)) x fields now) ∧
      ∀ t, Table.Reachable r.entity t → t.All (Row.Shows r.entity) →
        (r.after steps (.fresh start)).table.All (Row.Shows r.entity) →
        List.Forall₂ (SameRecord r.entity) (r.after steps (.fresh start)).table.rows t.rows →
        ∀ q w, (r.after steps (.fresh start)).table.query r.entity q w = t.query r.entity q w ∧
          (r.after steps (.fresh start)).table.count q = t.count q := by
  have hreach (p : List (Step α)) : Table.Reachable r.entity (r.after p (.fresh start)).table :=
    .after p (m := .fresh start) .empty
  refine ⟨⟨fun h p x fields now hp => ?_, fun h p hp id row hrow => ?_⟩, ?_⟩
  · have ht := hreach (p ++ [⟨.updateFields x fields, now, []⟩])
    have hafter := h _ hp
    rw [after_append] at ht hafter
    exact givesAsShown_of_shows C ht hafter
  · exact shows_of_settled ((hreach p).allShaped (C := C) id row hrow)
      (settled_of_givesAsShown hcalm h hp id row hrow)
  · intro t ht hshown hshown' hsame q w
    have halike := (hreach steps).alike C ht hshown' hshown hsame
    exact ⟨Table.query_congr halike q w, Table.count_congr halike q⟩

def annScored : List (Step (Record Catalog.user.fields)) :=
  [⟨.create ann, .epoch, []⟩,
    ⟨.updateFields { ann with id := 1 } [("score", .num (.int 5))], .epoch, []⟩]

theorem shows_iff_annScored :
    (∀ s ∈ annScored, s.faults = []) ∧
      ((∀ p, p <+: annScored → (users.after p (.fresh .epoch)).table.All (Row.Shows users.entity)) ↔
        ∀ p x fields now, p ++ [⟨.updateFields x fields, now, []⟩] <+: annScored →
          users.GivesAsShown (users.after p (.fresh .epoch)) x fields now) := by
  have hcalm : ∀ s ∈ annScored, s.faults = [] := by simp [annScored]
  exact ⟨hcalm, (shows_iff_givesAsShown Catalog.user.ruled.columnar annScored hcalm .epoch).1⟩

/-- Queries see the whole number, and the record shows a binary64 number. -/
theorem not_shows_annScored :
    ¬ (users.after annScored (.fresh .epoch)).table.All (Row.Shows users.entity) := by
  intro h
  have hscore : ((users.after annScored (.fresh .epoch)).table.get? 1).bind
      (fun row => row.data.get? "score") = some (.num (.int 5)) := by decide +kernel
  have hwritten : ((Catalog.user.ruled.columnar.rewrite "score" (some (.num (.int 5)))).map
      fun o => decide (o.getD .null = .num (.int 5))) = some false := by decide +kernel
  obtain ⟨row, hrow, hscore⟩ := Option.bind_eq_some_iff.1 hscore
  have ht : Table.Reachable users.entity (users.after annScored (.fresh .epoch)).table :=
    .after annScored (m := .fresh .epoch) .empty
  have hread : (users.after annScored (.fresh .epoch)).table.All (Table.Readable users.entity) :=
    after_readable Catalog.user.ruled.columnar.keepable (by simp [annScored, Operation.Reads]) .epoch
  have hshaped := ht.allShaped (C := Catalog.user.ruled.columnar)
  have hsettled := (Catalog.user.ruled.columnar.shows_iff (hread 1 row hrow) (hshaped 1 row hrow)).1
    (h 1 row hrow) "score" (by decide) (by decide)
  have hfield : Identifier.unqualified "score" = "score" := by decide
  rw [hfield, hscore] at hsettled
  obtain ⟨o, ho, hdiffers⟩ := Option.map_eq_some_iff.1 hwritten
  simp [hsettled o ho] at hdiffers

end Repository

end Recordkeeper
