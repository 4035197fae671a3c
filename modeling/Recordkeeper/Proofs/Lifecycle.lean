import Recordkeeper.Proofs.Cache.Transparency
import Recordkeeper.Proofs.Refusal
import Recordkeeper.Proofs.Write

/-!
The life of an identity: it comes with a record that is created, is tombstoned and restored any
number of times, and ends when its record is destroyed, after which it never comes back. A record
that is tombstoned rests as it is.
-/

set_option autoImplicit false

namespace Recordkeeper

variable {α : Type}

inductive Standing where
  | absent
  | live
  | tombstoned
  deriving DecidableEq, Repr

def Row.standing : Option Row → Standing
  | none => .absent
  | some row => if row.isDeleted then .tombstoned else .live

inductive Standing.Turn (op : Operation α) (id : Id) : Standing → Standing → Prop where
  | stays (s : Standing) : Turn op id s s
  | created {x : α} : op = .create x → Turn op id .absent .live
  | removed : op = .remove id → Turn op id .live .tombstoned
  | restored : op = .restore id → Turn op id .tombstoned .live
  | destroyed {s : Standing} : op = .destroy id → Turn op id s .absent

namespace Row

theorem standing_of_live {row : Row} (h : row.isDeleted = false) :
    standing (some row) = .live := by simp [standing, h]

theorem standing_of_deleted {row : Row} (h : row.isDeleted = true) :
    standing (some row) = .tombstoned := by simp [standing, h]

theorem Change.turn {r : Repository α} {op : Operation α} {now : Timestamp} {id : Id}
    {o o' : Option Row} (h : Change r op now id o o') :
    Standing.Turn op id (standing o) (standing o') := by
  cases h with
  | kept => exact .stays _
  | created hop => exact .created hop
  | saved _ _ hdel | fieldsSet _ _ hdel =>
    rw [standing_of_live hdel, standing_of_live (by exact hdel)]
    exact .stays _
  | tombstoned hop hdel =>
    rw [standing_of_live hdel]
    exact .removed hop
  | restored hop hdel =>
    rw [standing_of_deleted hdel]
    exact .restored hop
  | erased hop => exact .destroyed hop

theorem Change.rests {r : Repository α} {op : Operation α} {now : Timestamp} {id : Id} {row : Row}
    {o : Option Row} (h : Change r op now id (some row) o) (hdel : row.isDeleted = true) :
    o = some row ∨ (op = .restore id ∧ o = some { row with deletedAt := none }) ∨
      (op = .destroy id ∧ o = none) := by
  cases h with
  | kept => exact .inl rfl
  | saved _ _ hlive | fieldsSet _ _ hlive | tombstoned _ hlive => simp [hlive] at hdel
  | restored hop => exact .inr (.inl ⟨hop, rfl⟩)
  | erased hop => exact .inr (.inr ⟨hop, rfl⟩)

end Row

namespace Table

def standing (t : Table) (id : Id) : Standing := Row.standing (t.get? id)

variable {t : Table} {id : Id}

theorem standing_eq_absent : t.standing id = .absent ↔ t.get? id = none := by
  unfold standing Row.standing
  cases t.get? id with
  | none => simp
  | some row => cases h : row.isDeleted <;> simp [h]

theorem standing_eq_live : t.standing id = .live ↔ ∃ row, t.live? id = some row := by
  simp only [live?_eq_some]
  unfold standing Row.standing
  cases t.get? id with
  | none => simp
  | some row => cases h : row.isDeleted <;> simp [h]

theorem live?_of_tombstoned (h : t.standing id = .tombstoned) : t.live? id = none := by
  cases hlive : t.live? id with
  | none => rfl
  | some row =>
    rw [standing_eq_live.2 ⟨row, hlive⟩] at h
    cases h

theorem filter_of_live (h : t.standing id = .live) : (t.get? id).filter (·.isDeleted) = none := by
  obtain ⟨row, hrow⟩ := standing_eq_live.1 h
  obtain ⟨hget, hdel⟩ := live?_eq_some.1 hrow
  simp [hget, hdel]

end Table

namespace Repository

variable {r : Repository α}

theorem change_concat (start : Moment) (steps : List (Step α)) (s : Step α) (id : Id) :
    Row.Change r s.operation s.moment.wall id ((r.tableAfter start steps).get? id)
      ((r.tableAfter start (steps ++ [s])).get? id) := by
  rw [tableAfter_concat]
  exact r.perform_change s _ id

theorem counted_tableAfter (start : Moment) (steps : List (Step α)) :
    (r.tableAfter start steps).Counted :=
  (after_advances steps (.fresh start)).counted Table.counted_empty

theorem advances_append (start : Moment) (steps more : List (Step α)) :
    (r.tableAfter start steps).Advances (r.tableAfter start (steps ++ more)) := by
  rw [tableAfter_append]
  exact after_advances more _

theorem keyed_tableAfter (start : Moment) (steps : List (Step α)) :
    Table.Keyed (r.tableAfter start steps).rows :=
  (Table.Reachable.after steps (m := .fresh start) .empty).keyed

theorem lt_of_new {start : Moment} {front back more : List (Step α)} {i id : Id}
    (hi : (r.tableAfter start front).standing i ≠ .absent)
    (habsent : (r.tableAfter start (front ++ back)).standing id = .absent)
    (hnew : (r.tableAfter start (front ++ back ++ more)).standing id ≠ .absent) : i < id := by
  rw [Ne, Table.standing_eq_absent, Option.eq_none_iff_forall_ne_some] at hi hnew
  simp only [ne_eq, not_forall, not_not] at hi hnew
  obtain ⟨row, hrow⟩ := hi
  obtain ⟨row', hrow'⟩ := hnew
  -- the counter was at `i` or above it then, has not gone down since, and is below what is new
  have hcounted := counted_tableAfter start front i row hrow
  have hcounter := (advances_append (r := r) start front back).counter
  have hfresh := (advances_append start (front ++ back) more).fresh id row'
    (Table.standing_eq_absent.1 habsent) hrow'
  exact UInt64.lt_of_le_of_lt (UInt64.le_trans hcounted hcounter) hfresh

section

variable {m : Memory} {id : Id} {now : Moment}

/-- A record that is tombstoned is not there to be overwritten: once the request is accepted and the
record has a document, the answer is that there is none. -/
theorem perform_update_tombstoned (x : α) (h : m.table.standing id = .tombstoned) :
    (r.perform ⟨.update x id, now, []⟩ m).1 = (r.checkUpdate x id).bind fun _ =>
      ((Table.dataOf r.entity x).mapError .store).bind fun _ => .error (r.notFound id) := by
  let m' : Memory := { m with now := now }
  have hupdate : (Action.perform (Memory.faulty r.entity []) (r.update x id) m').1 =
      (r.checkUpdate x id).bind fun _ =>
        ((Table.dataOf r.entity x).mapError .store).bind fun _ => .error (r.notFound id) := by
    cases hcheck : r.checkUpdate x id with
    | error e => exact congrArg Prod.fst (Action.perform_check_error hcheck _ m')
    | ok _ =>
      obtain rfl := identity_of_checkUpdate hcheck
      refine (congrArg Prod.fst (Action.perform_check_ok hcheck _ m')).trans ?_
      have hlive := Table.live?_of_tombstoned h
      cases hdata : Table.dataOf r.entity x with
      | error e =>
        have hsave : m.table.save r.entity now.wall x = (.error e, m.table) := by
          simp only [Table.save, hdata]
        exact congrArg Prod.fst (Memory.perform_call_error (c := .save x) (m := m') hsave _)
      | ok data =>
        have hsave : m.table.save r.entity now.wall x = (.ok 0, m.table) := by
          simp only [Table.save, hdata, hlive]
        exact congrArg Prod.fst (Memory.perform_call_ok (c := .save x) (m := m') hsave _)
  exact hupdate

theorem perform_updateFields_tombstoned (x : α) (fields : Object)
    (h : m.table.standing (r.entity.identity x) = .tombstoned) :
    (r.perform ⟨.updateFields x fields, now, []⟩ m).1 = (r.checkFields x fields).bind fun _ =>
      .error (r.notFound (r.entity.identity x)) := by
  let m' : Memory := { m with now := now }
  have hupdate : (Action.perform (Memory.faulty r.entity []) (r.updateFields x fields) m').1 =
      (r.checkFields x fields).bind fun _ => .error (r.notFound (r.entity.identity x)) := by
    cases hcheck : r.checkFields x fields with
    | error e => exact congrArg Prod.fst (Action.perform_check_error hcheck _ m')
    | ok _ =>
      refine (congrArg Prod.fst (Action.perform_check_ok hcheck _ m')).trans ?_
      have hset : m.table.updateFields r.entity now.wall (r.entity.identity x) fields =
          (.ok 0, m.table) := by
        simp only [Table.updateFields, Table.live?_of_tombstoned h]
      exact congrArg Prod.fst
        (Memory.perform_call_ok (c := .updateFields _ fields) (m := m') hset _)
  exact hupdate

section

variable {c : StoreCall α} {a : c.Result} {t : Table}

theorem perform_reread (hc : m.table.answer r.entity m.now.wall c = (.ok a, t)) (id : Id)
    (v : Visibility) :
    ∃ m', Action.perform (Memory.faulty r.entity []) (do
        let _ ← ask c
        (r.invalidate id : Program α Unit)
        r.fetch id [] v) m = (r.fetched t id v, m') ∧ m'.table = t := by
  have halike := (run_invalidate_alike r [] id { m with table := t }).table
  rw [Memory.perform_call_ok hc, Action.perform_bind, Action.perform_lift]
  simp only
  rw [perform_fetch FaultScript.sparesStore_nil, halike]
  exact ⟨_, rfl, halike⟩

end

theorem requireIdentity_of_ne (hid : id ≠ 0) (operation : String) :
    r.requireIdentity id operation = .ok () := by simp [requireIdentity, hid]

theorem perform_remove_table (hid : id ≠ 0) (now : Moment) :
    (r.perform ⟨.remove id, now, []⟩ m).2.table = (m.table.softDelete now.wall id).2 := by
  let m₀ : Memory := { m with now := now }
  obtain ⟨m', hrun, htable⟩ := perform_reread (r := r) (c := .softDelete id) (m := m₀) rfl id .all
  have hdone : Action.perform (Memory.faulty r.entity []) (r.remove id) m₀ =
      (r.fetched (m.table.softDelete now.wall id).2 id .all, m') :=
    (Action.perform_check_ok (requireIdentity_of_ne hid "remove") _ m₀).trans hrun
  exact (congrArg (fun z => z.2.table) hdone).trans htable

theorem perform_restore (hid : id ≠ 0) (now : Moment) :
    (r.perform ⟨.restore id, now, []⟩ m).1 = r.fetched (m.table.clearTombstone id).2 id .active ∧
      (r.perform ⟨.restore id, now, []⟩ m).2.table = (m.table.clearTombstone id).2 := by
  let m₀ : Memory := { m with now := now }
  obtain ⟨m', hrun, htable⟩ :=
    perform_reread (r := r) (c := .clearTombstone id) (m := m₀) rfl id .active
  have hdone : Action.perform (Memory.faulty r.entity []) (r.restore id) m₀ =
      (r.fetched (m.table.clearTombstone id).2 id .active, m') :=
    (Action.perform_check_ok (requireIdentity_of_ne hid "restore") _ m₀).trans hrun
  exact ⟨congrArg Prod.fst hdone, (congrArg (fun z => z.2.table) hdone).trans htable⟩

theorem fetched_of_found {t : Table} {x : α} (h : t.Found r.entity id x) :
    r.fetched t id .active = .ok x := by
  rw [fetched, Table.find_active.2 h]

theorem live_of_fetched {t : Table} {x : α} (h : r.fetched t id .active = .ok x) :
    t.standing id = .live := by
  have hfind : t.find r.entity id .active = .ok (some x) := by
    unfold fetched at h
    split at h
    · next y hy =>
      obtain rfl := Except.ok.inj h
      exact hy
    · cases h
    · cases h
  obtain ⟨row, hrow, -⟩ := Table.find_active.1 hfind
  exact Table.standing_eq_live.2 ⟨row, hrow⟩

theorem fetched_of_live {t : Table} (ht : t.All (Table.Readable r.entity))
    (h : t.standing id = .live) : ∃ x, r.fetched t id .active = .ok x := by
  obtain ⟨row, hrow⟩ := Table.standing_eq_live.1 h
  obtain ⟨x, hx⟩ := ht id row (Table.get?_of_live? hrow)
  exact ⟨x, fetched_of_found ⟨row, hrow, hx⟩⟩

theorem getById_isOk_iff (hm : r.Coherent none m) (q : IdRequest) :
    (∃ x, (Action.perform (Memory.faulty r.entity []) (r.getById q) m).1 = .ok x) ↔
      r.checkLookup q = .ok () ∧ ∃ x, r.fetched m.table q.id .active = .ok x := by
  cases hcheck : r.checkLookup q with
  | error e =>
    rw [show r.getById q = (liftExcept (r.checkLookup q) >>= _) from rfl,
      Action.perform_check_error hcheck]
    simp
  | ok b =>
    rw [show r.getById q = (liftExcept (r.checkLookup q) >>= _) from rfl,
      Action.perform_check_ok hcheck]
    simp only [true_and]
    split
    · unfold fetchThrough
      obtain ⟨⟨-, htable⟩, hsnapshot⟩ :=
        leads_readCached_snapshot [] q.id q.preloads m.table m ⟨hm, rfl⟩
      rw [Action.perform_bind, Action.perform_lift]
      generalize (r.readCached (CacheKey.variant r.config.keyPrefix r.entity.name q.id
        q.preloads)).run (Memory.faulty r.entity []) m = answer at htable hsnapshot ⊢
      obtain ⟨found, m'⟩ := answer
      cases found with
      | some x =>
        obtain ⟨text, ⟨y, hy, -⟩, -⟩ := hsnapshot x rfl
        exact ⟨fun _ => ⟨y, fetched_of_found hy⟩, fun _ => ⟨x, rfl⟩⟩
      | none =>
        have hsame : m'.table = m.table := htable
        simp only
        rw [Action.perform_bind, perform_fetch FaultScript.sparesStore_nil, hsame]
        cases r.fetched m.table q.id .active with
        | error e => rfl
        | ok x =>
          have hkept : (Action.perform (Memory.faulty r.entity []) (do
              (r.writeCached (CacheKey.variant r.config.keyPrefix r.entity.name q.id q.preloads) x :
                Program α Unit)
              return x) m').1 = .ok x := by
            rw [Action.perform_bind, Action.perform_lift]
            rfl
          exact ⟨fun _ => ⟨x, rfl⟩, fun _ => ⟨x, hkept⟩⟩
    · rw [perform_fetch FaultScript.sparesStore_nil]

end

section

variable {start : Moment} {steps : List (Step α)} {id : Id} {row : Row}

theorem rests_concat (hrow : (r.tableAfter start steps).get? id = some row)
    (hdel : row.isDeleted = true) {s : Step α} (hrestore : s.operation ≠ .restore id)
    (hdestroy : s.operation ≠ .destroy id) :
    (r.tableAfter start (steps ++ [s])).get? id = some row := by
  have hchange := change_concat (r := r) start steps s id
  rw [hrow] at hchange
  rcases hchange.rests hdel with h | ⟨h, -⟩ | ⟨h, -⟩
  · exact h
  · exact absurd h hrestore
  · exact absurd h hdestroy

theorem rests_append (hrow : (r.tableAfter start steps).get? id = some row)
    (hdel : row.isDeleted = true) {more : List (Step α)}
    (hmore : ∀ s ∈ more, s.operation ≠ .restore id ∧ s.operation ≠ .destroy id) :
    (r.tableAfter start (steps ++ more)).get? id = some row := by
  induction more generalizing steps with
  | nil => rwa [List.append_nil]
  | cons s more ih =>
    obtain ⟨⟨hrestore, hdestroy⟩, hrest⟩ := List.forall_mem_cons.1 hmore
    rw [List.append_cons]
    exact ih (rests_concat hrow hdel hrestore hdestroy) hrest

theorem ne_zero_of_get? (hrow : (r.tableAfter start steps).get? id = some row) : id ≠ 0 :=
  (keyed_tableAfter start steps).ne_zero hrow

/-- A live row that is removed and later restored is there again as it was, and the answer to the
restore is what the store showed of it before. -/
theorem restored_of_removed (hrow : (r.tableAfter start steps).live? id = some row)
    (now later : Moment) {more : List (Step α)}
    (hmore : ∀ s ∈ more, s.operation ≠ .restore id ∧ s.operation ≠ .destroy id) :
    (r.tableAfter start (steps ++ [⟨.remove id, now, []⟩] ++ more ++
        [⟨.restore id, later, []⟩])).live? id = some row ∧
      r.answerAfter start (steps ++ [⟨.remove id, now, []⟩] ++ more) (.restore id) later =
        r.fetched (r.tableAfter start steps) id .active := by
  obtain ⟨hget, hlive⟩ := Table.live?_eq_some.1 hrow
  have hid := ne_zero_of_get? hget
  let gone : Row := { row with deletedAt := some now.wall }
  have hremoved : (r.tableAfter start (steps ++ [⟨.remove id, now, []⟩])).get? id = some gone := by
    have hdelete : (r.tableAfter start steps).softDelete now.wall id =
        (1, (r.tableAfter start steps).put id gone) := by simp only [Table.softDelete, hrow, gone]
    have htable := perform_remove_table (r := r) (m := r.after steps (.fresh start)) hid now
    rw [tableAfter_concat]
    rw [htable]
    exact (congrArg (fun u => u.2.get? id) hdelete).trans (Table.get?_put_self _ _ _)
  have hresting := rests_append hremoved rfl hmore
  have hclear : ((r.tableAfter start (steps ++ [⟨.remove id, now, []⟩] ++ more)).clearTombstone
      id).2 = (r.tableAfter start (steps ++ [⟨.remove id, now, []⟩] ++ more)).put id row := by
    have hback : ({ gone with deletedAt := none } : Row) = row := by
      have hnone : row.deletedAt = none := by simpa [Row.isDeleted] using hlive
      simp only [gone, ← hnone]
    have hfilter : ((r.tableAfter start (steps ++ [⟨.remove id, now, []⟩] ++ more)).get? id).filter
        (·.isDeleted) = some gone := by rw [hresting]; rfl
    simp only [Table.clearTombstone, hfilter, hback]
  obtain ⟨hanswer, htable⟩ := perform_restore (r := r)
    (m := r.after (steps ++ [⟨.remove id, now, []⟩] ++ more) (.fresh start)) hid later
  constructor
  · rw [tableAfter_concat, htable]
    refine Table.live?_eq_some.2 ⟨?_, hlive⟩
    exact (congrArg (·.get? id) hclear).trans (Table.get?_put_self _ _ _)
  · refine hanswer.trans ?_
    have hfind (t t' : Table) (h : t.get? id = t'.get? id) :
        r.fetched t id .active = r.fetched t' id .active := by
      simp only [fetched, Table.find, h]
    refine hfind _ _ ?_
    rw [hget]
    exact (congrArg (·.get? id) hclear).trans (Table.get?_put_self _ _ _)

end

/-- How the identities fare in all runs that begin with an empty store. -/
structure Lifecycle (r : Repository α) (start : Moment) : Prop where
  turns (steps : List (Step α)) (s : Step α) (id : Id) :
    Standing.Turn s.operation id ((r.tableAfter start steps).standing id)
      ((r.tableAfter start (steps ++ [s])).standing id)
  ascends (steps more : List (Step α)) (s : Step α) (i id : Id) :
    (r.tableAfter start steps).standing i ≠ .absent →
    (r.tableAfter start (steps ++ more)).standing id = .absent →
    (r.tableAfter start (steps ++ more ++ [s])).standing id ≠ .absent → i < id
  ends (steps more later : List (Step α)) (id : Id) :
    (r.tableAfter start steps).standing id ≠ .absent →
    (r.tableAfter start (steps ++ more)).standing id = .absent →
    (r.tableAfter start (steps ++ more ++ later)).standing id = .absent
  rests (steps : List (Step α)) (s : Step α) (id : Id) (row : Row) :
    (r.tableAfter start steps).get? id = some row → row.isDeleted = true →
    s.operation ≠ .restore id → s.operation ≠ .destroy id →
    (r.tableAfter start (steps ++ [s])).get? id = some row
  removedAgain (steps : List (Step α)) (s : Step α) (id : Id) : s.operation = .remove id →
    (r.tableAfter start steps).standing id = .tombstoned →
    r.tableAfter start (steps ++ [s]) = r.tableAfter start steps
  restoredAgain (steps : List (Step α)) (s : Step α) (id : Id) : s.operation = .restore id →
    (r.tableAfter start steps).standing id = .live →
    r.tableAfter start (steps ++ [s]) = r.tableAfter start steps
  returns (steps more : List (Step α)) (now later : Moment) (id : Id) (row : Row) :
    (r.tableAfter start steps).live? id = some row →
    (∀ s ∈ more, s.operation ≠ .restore id ∧ s.operation ≠ .destroy id) →
    (r.tableAfter start (steps ++ [⟨.remove id, now, []⟩] ++ more ++
        [⟨.restore id, later, []⟩])).live? id = some row ∧
      r.answerAfter start (steps ++ [⟨.remove id, now, []⟩] ++ more) (.restore id) later =
        r.fetched (r.tableAfter start steps) id .active
  update (steps : List (Step α)) (x : α) (id : Id) (now : Moment) :
    (r.tableAfter start steps).standing id = .tombstoned →
    r.answerAfter start steps (.update x id) now = (r.checkUpdate x id).bind fun _ =>
      ((Table.dataOf r.entity x).mapError .store).bind fun _ => .error (r.notFound id)
  updateFields (steps : List (Step α)) (x : α) (fields : Object) (now : Moment) :
    (r.tableAfter start steps).standing (r.entity.identity x) = .tombstoned →
    r.answerAfter start steps (.updateFields x fields) now = (r.checkFields x fields).bind fun _ =>
      .error (r.notFound (r.entity.identity x))
  get (steps : List (Step α)) (id : Id) (now : Moment) (x : α) :
    (∀ s ∈ steps, s.faults.SparesPurge) → r.answerAfter start steps (.get id) now = .ok x →
    (r.tableAfter start steps).standing id = .live

theorem tableAfter_of_write? {start : Moment} {steps : List (Step α)} {s : Step α}
    (h : ∀ c, s.operation.write? r = some c →
      ((r.tableAfter start steps).answer r.entity s.moment.wall c).2 = r.tableAfter start steps) :
    r.tableAfter start (steps ++ [s]) = r.tableAfter start steps := by
  rw [tableAfter_concat]
  rcases r.perform_table s (r.after steps (.fresh start)) with ht | ⟨c, hc, ht⟩
  · exact ht
  · exact ht.trans (h c hc)

theorem get_isOk_iff {steps : List (Step α)} (hp : ∀ s ∈ steps, s.faults.SparesPurge)
    (start now : Moment) (id : Id) :
    (∃ x, r.answerAfter start steps (.get id) now = .ok x) ↔
      ∃ x, r.fetched (r.tableAfter start steps) id .active = .ok x := by
  have hat : r.Coherent none { r.after steps (.fresh start) with now := now } :=
    (after_coherent hp start).at_time now
  refine (getById_isOk_iff hat ⟨id, []⟩).trans ⟨fun h => h.2, fun h => ⟨?_, h⟩⟩
  obtain ⟨x, hx⟩ := h
  obtain ⟨row, hrow⟩ := Table.standing_eq_live.1 (live_of_fetched hx)
  have hid := ne_zero_of_get? (Table.get?_of_live? hrow)
  simp only [checkLookup, if_neg hid]
  rfl

structure Tells (r : Repository α) (start : Moment) (steps : List (Step α)) : Prop where
  get (id : Id) (now : Moment) : (∃ x, r.answerAfter start steps (.get id) now = .ok x) ↔
    (r.tableAfter start steps).standing id = .live
  shows (id : Id) : (r.tableAfter start steps).standing id = .live →
    ∃ x, r.fetched (r.tableAfter start steps) id .active = .ok x
  create (x y : α) (now : Moment) : r.answerAfter start steps (.create x) now = .ok y →
    (r.tableAfter start steps).standing (r.entity.identity y) = .absent ∧
      (r.tableAfter start (steps ++ [⟨.create x, now, []⟩])).standing (r.entity.identity y) = .live

theorem live_of_created (K : r.entity.Keepable) {start now : Moment} {steps : List (Step α)}
    {x y : α} (h : r.answerAfter start steps (.create x) now = .ok y) :
    (r.tableAfter start steps).standing (r.entity.identity y) = .absent ∧
      (r.tableAfter start (steps ++ [⟨.create x, now, []⟩])).standing (r.entity.identity y) =
        .live := by
  obtain ⟨data, -, hfree, hrows, -⟩ :=
    (ends_create K x { r.after steps (.fresh start) with now := now } rfl).of_ok h
  refine ⟨Table.standing_eq_absent.2 hfree, ?_⟩
  rw [tableAfter_concat, Table.standing]
  have hget : (r.perform ⟨.create x, now, []⟩ (r.after steps (.fresh start))).2.table.get?
      (r.entity.identity y) = some { data := Table.stampNew now.wall data } :=
    (congrArg (List.lookup _) hrows).trans ((Table.lookup_putRow ..).trans (if_pos rfl))
  rw [hget]
  rfl

/-- Identities come with a record that is created, each above all before it, are tombstoned and
restored, and are gone for good when their record is destroyed. Lookups succeed for none but the
live ones, and where documents can be read back for all of them. -/
theorem lifecycle (r : Repository α) (start : Moment) :
    r.Lifecycle start ∧
      (r.entity.Storable → ∀ steps : List (Step α), (∀ s ∈ steps, s.faults.SparesPurge) →
        r.Tells start steps) := by
  constructor
  · exact {
      turns := fun steps s id => (change_concat start steps s id).turn
      ascends := fun steps more s i id => lt_of_new
      ends := fun steps more later id hid hgone => by
        by_contra hback
        exact absurd (lt_of_new hid hgone hback) (UInt64.lt_irrefl id)
      rests := fun steps s id row hrow hdel hrestore hdestroy =>
        rests_concat hrow hdel hrestore hdestroy
      removedAgain := fun steps s id hop hgone => tableAfter_of_write? fun c hc => by
        obtain ⟨-, -, rfl⟩ := Option.map_eq_some_iff.1 (hop ▸ hc : (Operation.remove id).write? r = some c)
        simp only [Table.answer, Table.softDelete, Table.live?_of_tombstoned hgone]
      restoredAgain := fun steps s id hop hlive => tableAfter_of_write? fun c hc => by
        obtain ⟨-, -, rfl⟩ := Option.map_eq_some_iff.1 (hop ▸ hc : (Operation.restore id).write? r = some c)
        simp only [Table.answer, Table.clearTombstone, Table.filter_of_live hlive]
      returns := fun steps more now later id row hrow hmore =>
        restored_of_removed hrow now later hmore
      update := fun steps x id now h => perform_update_tombstoned x h
      updateFields := fun steps x fields now h => perform_updateFields_tombstoned x fields h
      get := fun steps id now x hp hx => by
        obtain ⟨y, hy⟩ := (get_isOk_iff hp start now id).1 ⟨x, hx⟩
        exact live_of_fetched hy }
  · intro S steps hp
    have hreads : ∀ s ∈ steps, s.operation.Reads r.entity := by
      rintro ⟨op, now, script⟩ -
      cases op with
      | update x id => exact S.reads x
      | _ => trivial
    have hshown {id : Id} (h : (r.tableAfter start steps).standing id = .live) :=
      fetched_of_live (after_readable S.toKeepable hreads start) h
    exact {
      get := fun id now => (get_isOk_iff hp start now id).trans
        ⟨fun h => h.elim fun _ => live_of_fetched, hshown⟩
      shows := fun id h => hshown h
      create := fun x y now h => live_of_created S.toKeepable h }

def tokenRemoved : List (Step (Catalog.Item String)) :=
  [⟨.create ⟨0, "a"⟩, .epoch, []⟩, ⟨.remove 1, .epoch, []⟩]

def tokenRestored : List (Step (Catalog.Item String)) := tokenRemoved ++ [⟨.restore 1, .epoch, []⟩]

theorem lifecycle_tokenRestored :
    tokens.answerAfter .epoch tokenRemoved (.update ⟨1, "b"⟩ 1) .epoch =
        .error (tokens.notFound (some 1)) ∧
      (¬∃ x, tokens.answerAfter .epoch tokenRemoved (.get 1) .epoch = .ok x) ∧
      ∃ x, tokens.answerAfter .epoch tokenRestored (.get 1) .epoch = .ok x := by
  have hremoved : (tokens.tableAfter .epoch tokenRemoved).standing 1 = .tombstoned := by
    decide +kernel
  have hrestored : (tokens.tableAfter .epoch tokenRestored).standing 1 = .live := by decide +kernel
  obtain ⟨hlife, htells⟩ := lifecycle tokens .epoch
  have hcalm : ∀ s ∈ tokenRestored, s.faults.SparesPurge := by
    simp [tokenRestored, tokenRemoved, FaultScript.sparesPurge_nil]
  refine ⟨hlife.update tokenRemoved ⟨1, "b"⟩ 1 .epoch hremoved, fun h => ?_, ?_⟩
  · have hp : ∀ s ∈ tokenRemoved, s.faults.SparesPurge := fun s hs =>
      hcalm s (List.mem_append_left _ hs)
    have hlive := ((htells Catalog.token_storable tokenRemoved hp).get 1 .epoch).1 h
    rw [hremoved] at hlive
    cases hlive
  · exact ((htells Catalog.token_storable tokenRestored hcalm).get 1 .epoch).2 hrestored

def codes : Repository (Catalog.Item String) where
  entity := Catalog.Item.entity "code" "value" .str fun j => j.string?.filter (· ≠ "void")

def codeVoided : List (Step (Catalog.Item String)) :=
  [⟨.create ⟨0, "a"⟩, .epoch, []⟩, ⟨.update ⟨1, "void"⟩ 1, .epoch, []⟩]

/-- A tombstoned record is not always found missing: a request is checked first, and so is the
document of a record that is given. A live one is not found if its document cannot be read. -/
theorem not_notFound_tokenRemoved :
    (¬∀ steps x id, (tokens.tableAfter .epoch steps).standing id = .tombstoned →
        tokens.answerAfter .epoch steps (.update x id) .epoch = .error (tokens.notFound (some id))) ∧
      (¬∀ steps x fields, (tokens.tableAfter .epoch steps).standing x.id = .tombstoned →
        tokens.answerAfter .epoch steps (.updateFields x fields) .epoch =
          .error (tokens.notFound (some x.id))) ∧
      ¬∀ steps id, (codes.tableAfter .epoch steps).standing id = .live →
        ∃ x, codes.answerAfter .epoch steps (.get id) .epoch = .ok x := by
  have hremoved : (tokens.tableAfter .epoch tokenRemoved).standing 1 = .tombstoned := by
    decide +kernel
  refine ⟨fun h => ?_, fun h => ?_, fun h => ?_⟩
  · have hanswer : tokens.answerAfter .epoch tokenRemoved (.update ⟨1, "unserializable"⟩ 1) .epoch =
        .error (.store (.serialization Table.backend "the record has no document")) :=
      perform_update_tombstoned _ hremoved
    rw [h tokenRemoved ⟨1, "unserializable"⟩ 1 hremoved] at hanswer
    cases hanswer
  · have hanswer : tokens.answerAfter .epoch tokenRemoved (.updateFields ⟨1, "a"⟩ []) .epoch =
        .error (.invalidField "" "no fields to update") :=
      perform_updateFields_tombstoned (r := tokens) ⟨1, "a"⟩ [] hremoved
    rw [h tokenRemoved ⟨1, "a"⟩ [] hremoved] at hanswer
    cases hanswer
  · have hlive : (codes.tableAfter .epoch codeVoided).standing 1 = .live := by decide +kernel
    have hanswer : (codes.answerAfter .epoch codeVoided (.get 1) .epoch).isOk = false := by
      decide +kernel
    obtain ⟨x, hx⟩ := h codeVoided 1 hlive
    rw [hx] at hanswer
    cases hanswer

end Repository

end Recordkeeper
