import Recordkeeper.Proofs.Protocol
import Recordkeeper.Proofs.Refusal
import Recordkeeper.Proofs.Table.Counter

set_option autoImplicit false

namespace Recordkeeper

variable {α : Type}

theorem Memory.table_of_quiet (E : EntityType α) (script : FaultScript) {es : List (Exchange α)}
    (h : ∀ e ∈ es, e.isWrite = false) (m : Memory) :
    (Program.stateAfter (faulty E script) es m).table = m.table := by
  induction es generalizing m with
  | nil => rfl
  | cons e es ih =>
    obtain ⟨hhead, hrest⟩ := List.forall_mem_cons.1 h
    refine (ih hrest _).trans ?_
    rcases table_faulty E script e.call m with ht | ⟨call, hcall, ht⟩
    · exact ht
    · rw [ht]
      obtain ⟨c, a⟩ := e
      obtain rfl : c = .store call := hcall
      cases call <;> first | rfl | cases hhead

namespace Operation

theorem isNew_of_write? {r : Repository α} {op : Operation α} {x : α}
    (h : op.write? r = some (.insert x)) : r.entity.isNew x := by
  cases op with
  | create y =>
    simp only [write?] at h
    split at h
    · next hnew =>
      obtain rfl := StoreCall.insert.inj (Option.some.inj h)
      exact hnew
    · cases h
  | get | getById | first | list | page => cases h
  | update | updateFields | remove | restore | destroy =>
    obtain ⟨_, -, h⟩ := Option.map_eq_some_iff.1 h
    cases h

end Operation

namespace Repository

variable {r : Repository α}

/-- An operation leaves the table as its one write leaves it, or as it is. -/
theorem perform_table (r : Repository α) (s : Step α) (m : Memory) :
    (r.perform s m).2.table = m.table ∨
      ∃ c, s.operation.write? r = some c ∧
        (r.perform s m).2.table = (m.table.answer r.entity s.moment.wall c).2 := by
  let h := Memory.faulty r.entity s.faults
  let m' : Memory := { m with now := s.moment }
  have htalks := Program.talks_run h (s.operation.action r).run m'
  have hconversation := conversation_action (r := r) s.operation _ _ htalks
  have hend : (r.perform s m).2 =
      Program.stateAfter h ((s.operation.action r).run.exchanges h m') m' :=
    Program.run_snd h (s.operation.action r).run m'
  rw [hend]
  generalize (s.operation.action r).run.exchanges h m' = es at hconversation
  have hreads {es : List (Exchange α)} (hes : ∀ e ∈ es, e.isRead) (n : Memory) :
      (Program.stateAfter h es n).table = n.table :=
    Memory.table_of_quiet r.entity s.faults (fun e he => Exchange.isWrite_of_isRead (hes e he)) n
  have hwrite {c : StoreCall α} {a : c.Answer} {es : List (Exchange α)}
      (hc : s.operation.write? r = some c) (hes : ∀ e ∈ es, e.isWrite = false) :
      (Program.stateAfter h (⟨.store c, a⟩ :: es) m').table = m.table ∨
        ∃ d, s.operation.write? r = some d ∧
          (Program.stateAfter h (⟨.store c, a⟩ :: es) m').table =
            (m.table.answer r.entity s.moment.wall d).2 := by
    have hrest : (Program.stateAfter h (⟨.store c, a⟩ :: es) m').table =
        (h.answer (.store c) m').2.table := Memory.table_of_quiet r.entity s.faults hes _
    rw [hrest]
    rcases Memory.table_faulty r.entity s.faults (.store c) m' with ht | ⟨call, hcall, ht⟩
    · exact .inl ht
    · obtain rfl := Call.store.inj hcall
      exact .inr ⟨c, hc, ht⟩
  cases hconversation with
  | reads hes => exact .inl (hreads hes m')
  | served | missed | filled =>
    exact .inl (Memory.table_of_quiet r.entity s.faults (by simp [Exchange.isWrite, StoreCall.isWrite]) m')
  | written hc _ hes => exact hwrite hc fun e he => Exchange.isWrite_of_isRead (hes e he)
  | @purged _ _ id b _ hc _ hes =>
    have hpurge : (⟨.cache (r.purgeOf id), b⟩ : Exchange α).isWrite = false := rfl
    exact hwrite hc
      (List.forall_mem_cons.2 ⟨hpurge, fun e he => Exchange.isWrite_of_isRead (hes e he)⟩)

theorem perform_advances (s : Step α) (m : Memory) :
    m.table.Advances (r.perform s m).2.table := by
  rcases r.perform_table s m with ht | ⟨c, hc, ht⟩
  · rw [ht]
    exact Table.advances_self _
  · rw [ht]
    refine Table.answer_advances fun x hx => ?_
    subst hx
    exact Operation.isNew_of_write? hc

theorem after_advances (steps : List (Step α)) (m : Memory) :
    m.table.Advances (r.after steps m).table :=
  after_keeps (P := fun n => m.table.Advances n.table)
    (fun s _ n h => h.trans (perform_advances s n)) (Table.advances_self _)

end Repository

/-- What an operation at a time can make of what a table holds under an identity. -/
inductive Row.Change (r : Repository α) (op : Operation α) (now : Timestamp) (id : Id) :
    Option Row → Option Row → Prop where
  | kept (o : Option Row) : Change r op now id o o
  | created {x : α} {data : Object} : op = .create x → r.entity.encode x = some (.obj data) →
      Change r op now id none (some { data := Table.stampNew now data })
  | saved {x : α} {data : Object} {row : Row} : op = .update x id →
      r.entity.encode x = some (.obj data) → row.isDeleted = false →
      Change r op now id (some row) (some { row with data := Table.overwritten now row data })
  | fieldsSet {x : α} {fields data : Object} {row : Row} : op = .updateFields x fields →
      r.entity.identity x = id → row.isDeleted = false → Table.setColumns fields row.data = .ok data →
      Change r op now id (some row)
        (some { row with data := data.replace Column.updatedAt (.str now.text) })
  | tombstoned {row : Row} : op = .remove id → row.isDeleted = false →
      Change r op now id (some row) (some { row with deletedAt := some now })
  | restored {row : Row} : op = .restore id → row.isDeleted = true →
      Change r op now id (some row) (some { row with deletedAt := none })
  | erased {row : Row} : op = .destroy id → Change r op now id (some row) none

namespace Table

variable {r : Repository α} {op : Operation α} {now : Timestamp} {t t' : Table}

def Changes (r : Repository α) (op : Operation α) (now : Timestamp) (t t' : Table) : Prop :=
  ∀ i, Row.Change r op now i (t.get? i) (t'.get? i)

theorem changes_of_rows (h : t'.rows = t.rows) : Changes r op now t t' := by
  intro i
  rw [get?_congr h]
  exact .kept _

theorem changes_of_get? {id : Id} {o : Option Row}
    (hrows : ∀ i, t'.get? i = if i = id then o else t.get? i)
    (h : Row.Change r op now id (t.get? id) o) : Changes r op now t t' := by
  intro i
  rw [hrows]
  split
  · next hi =>
    subst hi
    exact h
  · exact .kept _

theorem changes_put {id : Id} {old row : Row} (hold : t.get? id = some old)
    (h : Row.Change r op now id (some old) (some row)) : Changes r op now t (t.put id row) :=
  changes_of_get? (fun i => t.get?_put id i row) (hold ▸ h)

namespace Outcome

theorem changes_insert {x : α} {a : (StoreCall.insert x).Answer}
    (h : Outcome r.entity now t (.insert x) a t') : Changes r (.create x) now t t' := by
  cases h with
  | read h => cases h
  | refused hrows => exact changes_of_rows hrows
  | inserted hdata _ hfree =>
    refine changes_of_get? (fun i => lookup_putRow ..) ?_
    rw [hfree]
    exact .created rfl (dataOf_ok hdata)

theorem changes_save {x : α} {a : (StoreCall.save x).Answer}
    (h : Outcome r.entity now t (.save x) a t') :
    Changes r (.update x (r.entity.identity x)) now t t' := by
  cases h with
  | read h => cases h
  | refused hrows => exact changes_of_rows hrows
  | saved hdata hlive =>
    obtain ⟨hget, hdel⟩ := live?_eq_some.1 hlive
    exact changes_put hget (.saved rfl (dataOf_ok hdata) hdel)
  | saveMissed => exact changes_of_rows rfl

theorem changes_updateFields {x : α} {fields : Object}
    {a : (StoreCall.updateFields (r.entity.identity x) fields : StoreCall α).Answer}
    (h : Outcome r.entity now t (.updateFields (r.entity.identity x) fields) a t') :
    Changes r (.updateFields x fields) now t t' := by
  cases h with
  | read h => cases h
  | refused hrows => exact changes_of_rows hrows
  | fieldsSet hlive hset =>
    obtain ⟨hget, hdel⟩ := live?_eq_some.1 hlive
    exact changes_put hget (.fieldsSet rfl rfl hdel hset)
  | fieldsMissed => exact changes_of_rows rfl

theorem changes_softDelete {id : Id} {a : (StoreCall.softDelete id : StoreCall α).Answer}
    (h : Outcome r.entity now t (.softDelete id) a t') : Changes r (.remove id) now t t' := by
  cases h with
  | read h => cases h
  | refused hrows => exact changes_of_rows hrows
  | tombstoned hlive =>
    obtain ⟨hget, hdel⟩ := live?_eq_some.1 hlive
    exact changes_put hget (.tombstoned rfl hdel)
  | deleteMissed => exact changes_of_rows rfl

theorem changes_clearTombstone {id : Id} {a : (StoreCall.clearTombstone id : StoreCall α).Answer}
    (h : Outcome r.entity now t (.clearTombstone id) a t') : Changes r (.restore id) now t t' := by
  cases h with
  | read h => cases h
  | refused hrows => exact changes_of_rows hrows
  | restored hget hdel => exact changes_put hget (.restored rfl hdel)
  | restoreMissed => exact changes_of_rows rfl

theorem changes_hardDelete {id : Id} {a : (StoreCall.hardDelete id : StoreCall α).Answer}
    (h : Outcome r.entity now t (.hardDelete id) a t') : Changes r (.destroy id) now t t' := by
  cases h with
  | read h => cases h
  | refused hrows => exact changes_of_rows hrows
  | erased hget =>
    refine changes_of_get? (t.get?_erase id) ?_
    rw [hget]
    exact .erased rfl
  | destroyMissed => exact changes_of_rows rfl

end Outcome

end Table

namespace Operation

variable {r : Repository α}

theorem eq_of_checked {γ : Type} {check : Except RequestError γ} {c d : StoreCall α}
    (h : (check.toOption.map fun _ => d) = some c) : (∃ b, check = .ok b) ∧ d = c := by
  obtain ⟨b, hb, hd⟩ := Option.map_eq_some_iff.1 h
  cases check with
  | error e => cases hb
  | ok b => exact ⟨⟨b, rfl⟩, hd⟩

/-- The write of an operation makes of the rows what the operation can make of them. -/
theorem changes_of_write? {op : Operation α} {c : StoreCall α} (hc : op.write? r = some c)
    {now : Timestamp} {t t' : Table} {a : c.Answer} (h : Table.Outcome r.entity now t c a t') :
    Table.Changes r op now t t' := by
  cases op with
  | get | getById | first | list | page => cases hc
  | create x =>
    simp only [write?] at hc
    split at hc
    · obtain rfl := Option.some.inj hc
      exact h.changes_insert
    · cases hc
  | update x id =>
    obtain ⟨⟨b, hb⟩, rfl⟩ := eq_of_checked hc
    obtain rfl := Repository.identity_of_checkUpdate hb
    exact h.changes_save
  | updateFields x fields =>
    obtain ⟨-, rfl⟩ := eq_of_checked hc
    exact h.changes_updateFields
  | remove id =>
    obtain ⟨-, rfl⟩ := eq_of_checked hc
    exact h.changes_softDelete
  | restore id =>
    obtain ⟨-, rfl⟩ := eq_of_checked hc
    exact h.changes_clearTombstone
  | destroy id =>
    obtain ⟨-, rfl⟩ := eq_of_checked hc
    exact h.changes_hardDelete

end Operation

namespace Repository

variable {r : Repository α}

theorem perform_change (r : Repository α) (s : Step α) (m : Memory) (id : Id) :
    Row.Change r s.operation s.moment.wall id (m.table.get? id)
      ((r.perform s m).2.table.get? id) := by
  rcases r.perform_table s m with ht | ⟨c, hc, ht⟩
  · rw [ht]
    exact .kept _
  · rw [ht]
    exact Operation.changes_of_write? hc (Table.answer_outcome r.entity s.moment.wall m.table c) id

theorem ends_create (K : r.entity.Keepable) {m₀ : Memory} (x : α) :
    Action.Ends (Memory.faulty r.entity []) (· = m₀) (r.create x)
      (fun y m => ∃ data, r.entity.encode x = some (.obj data) ∧
        m₀.table.get? (r.entity.identity y) = none ∧
        m.table.rows = Table.putRow (r.entity.identity y)
          { data := Table.stampNew m₀.now.wall data } m₀.table.rows ∧
        Table.recordOf r.entity (r.entity.identity y)
          { data := Table.stampNew m₀.now.wall data } = .ok y)
      fun _ => True := by
  unfold create
  refine Action.ends_ite (fun _ => ?_) fun _ => Action.ends_throw fun _ _ => trivial
  have hinsert : Action.Ends (Memory.faulty r.entity []) (· = m₀) (ask (.insert x))
      (fun (y : α) m => ∃ data, r.entity.encode x = some (.obj data) ∧
        m₀.table.get? (r.entity.identity y) = none ∧
        m.table.rows = Table.putRow (r.entity.identity y)
          { data := Table.stampNew m₀.now.wall data } m₀.table.rows ∧
        Table.recordOf r.entity (r.entity.identity y)
          { data := Table.stampNew m₀.now.wall data } = .ok y) fun _ => True := by
    refine Memory.ends_call (fun _ _ _ _ => trivial) ?_
    rintro m y t rfl hout
    cases hout with
    | read h => cases h
    | inserted hdata _ hfree hrec =>
      obtain rfl := K.identity_recordOf hrec
      exact ⟨_, Table.dataOf_ok hdata, hfree, rfl, hrec⟩
  exact hinsert.bind fun y => Action.ends_ite (fun _ => Action.ends_throw fun _ _ => trivial)
    fun _ => Action.ends_pure fun _ h => h

end Repository

end Recordkeeper
