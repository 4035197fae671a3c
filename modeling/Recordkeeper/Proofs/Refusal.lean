import Recordkeeper.Proofs.Cache.Coherence
import Recordkeeper.Proofs.Entity.Schema
import Recordkeeper.Proofs.Operation

/-!
An operation that fails changes nothing. A write is checked before it is made, and a purge on a
failing path finds no entry to drop. The error behind a write is that its row is no record of the
type, which cannot be where documents stay readable once the store has stamped them.
-/

set_option autoImplicit false

namespace Recordkeeper

variable {α : Type}

/-- The same rows as before, and the same outcome of every lookup in the cache from then on. -/
structure Memory.Unchanged (m₀ m : Memory) : Prop where
  rows : m.table.rows = m₀.table.rows
  lookups : ∀ key later, m₀.now.ticks ≤ later → m.cache.find later key = m₀.cache.find later key

theorem Memory.unchanged_self (m : Memory) : m.Unchanged m := ⟨rfl, fun _ _ _ => rfl⟩

theorem Memory.unchanged_of_rows {m : Memory} {t : Table} (h : t.rows = m.table.rows) :
    m.Unchanged { m with table := t } := ⟨h, fun _ _ _ => rfl⟩

structure Memory.Wrote (m₀ : Memory) (id : Id) (v : Visibility) (m : Memory) : Prop where
  cache : m.cache = m₀.cache
  now : m.now = m₀.now
  others : ∀ i, i ≠ id → m.table.get? i = m₀.table.get? i
  row : ∃ row, m.table.get? id = some row ∧ v.admits row.isDeleted = true

theorem Memory.wrote_put {m : Memory} {id : Id} {v : Visibility} {row : Row}
    (hv : v.admits row.isDeleted = true) :
    m.Wrote id v { m with table := m.table.put id row } where
  cache := rfl
  now := rfl
  others i hi := by rw [Table.get?_put, if_neg hi]
  row := ⟨row, Table.get?_put_self _ _ _, hv⟩

/-- The records that an operation writes whole can be read back. -/
def Operation.Reads (E : EntityType α) : Operation α → Prop
  | .update x _ => E.Reads x
  | _ => True

namespace Repository

structure Sound (r : Repository α) (m : Memory) : Prop where
  coherent : r.Coherent none m
  keyed : m.cache.Keyed

/-- Rows and lookups are as before but for those of one identity. -/
structure Touched (r : Repository α) (m₀ : Memory) (id : Id) (m : Memory) : Prop where
  rows : ∀ i, i ≠ id → m.table.get? i = m₀.table.get? i
  lookups : ∀ key later, m₀.now.ticks ≤ later →
    CacheKey.covers (CacheKey.base r.config.keyPrefix r.entity.name id) key = false →
    m.cache.find later key = m₀.cache.find later key

/-- One identity was touched, and its row gives no record that has an identity. -/
def Breaks (r : Repository α) (m₀ m : Memory) : Prop :=
  ∃ id row, r.Touched m₀ id m ∧ m.table.get? id = some row ∧
    ∀ x, Table.recordOf r.entity id row = .ok x → r.entity.identity x = 0

variable {r : Repository α} {m₀ m : Memory}

theorem sound_fresh (start : Moment) : r.Sound (.fresh start) :=
  ⟨coherent_fresh start, List.nodup_nil⟩

theorem perform_sound (s : Step α) (hp : s.faults.SparesPurge) (hm : r.Sound m) :
    r.Sound (r.perform s m).2 where
  coherent := perform_coherent s hp hm.coherent
  keyed := perform_cache_keyed s hm.keyed

theorem after_sound {steps : List (Step α)} (hp : ∀ s ∈ steps, s.faults.SparesPurge)
    (start : Moment) : r.Sound (r.after steps (.fresh start)) :=
  after_keeps (fun s hs _ hm => perform_sound s (hp s hs) hm) (sound_fresh start)

theorem Sound.find_ne (h : r.Sound m) {id : Id} (hid : ∀ x, ¬m.table.Found r.entity id x)
    {key : String}
    (hkey : CacheKey.covers (CacheKey.base r.config.keyPrefix r.entity.name id) key = true)
    (later : Nat) (text : String) : m.cache.find later key ≠ .ok (some text) := by
  intro hfind
  obtain ⟨e, he, rfl, -⟩ := LockedCache.mem_of_find hfind
  obtain ⟨-, i, p, hi, hs⟩ := h.coherent e he
  rw [hi] at hkey
  obtain rfl := CacheKey.id_eq_of_covers hkey (CacheKey.covers_variant _ _ i p)
  obtain ⟨x, hx, -⟩ := hs.resolve_left (fun h => by cases h)
  exact hid x hx

theorem Sound.unchanged_purge (h : r.Sound m) {id : Id}
    (hid : ∀ x, ¬m.table.Found r.entity id x) :
    m.Unchanged { m with cache := (m.cache.answer m.now.ticks
      (.purge (CacheKey.base r.config.keyPrefix r.entity.name id))).2 } := by
  refine ⟨rfl, fun key later hlater => ?_⟩
  cases hkey : CacheKey.covers (CacheKey.base r.config.keyPrefix r.entity.name id) key with
  | false => exact LockedCache.find_purge h.keyed hkey hlater
  | true => exact LockedCache.find_purge_of_none h.keyed hkey (h.find_ne hid hkey later)

def FailsUnchanged {β : Type} (r : Repository α) (m₀ : Memory) (x : Action α β) : Prop :=
  Action.Ends (Memory.faulty r.entity []) (· = m₀) x (fun _ _ => True) m₀.Unchanged

/-- From the given memory, an action that fails leaves it unchanged or breaks one row. -/
def FailsSparing {β : Type} (r : Repository α) (m₀ : Memory) (x : Action α β) : Prop :=
  Action.Ends (Memory.faulty r.entity []) (· = m₀) x (fun _ _ => True)
    fun m => m₀.Unchanged m ∨ r.Breaks m₀ m

theorem FailsUnchanged.sparing {β : Type} {x : Action α β} (h : r.FailsUnchanged m₀ x) :
    r.FailsSparing m₀ x := h.mono (fun _ h => h) (fun _ _ h => h) fun _ => .inl

section

variable {bad : Memory → Prop} {id : Id} {v : Visibility}

theorem ends_check {e : Except RequestError Unit} (hbad : bad m₀) :
    Action.Ends (Memory.faulty r.entity []) (· = m₀) (liftExcept e) (fun _ m => m = m₀ ∧ e = .ok ())
      bad :=
  Action.ends_liftExcept (fun _ hm => hm ▸ hbad) fun _ he _ hm => ⟨hm, he⟩

theorem ends_fetch_found {preloads : List String} :
    Action.Ends (Memory.faulty r.entity [])
      (fun m => ∃ x, m.table.find r.entity id v = .ok (some x)) (r.fetch id preloads v)
      (fun _ _ => True) bad := by
  rintro m ⟨x, hx⟩
  have hrun := perform_fetch (r := r) FaultScript.sparesStore_nil id preloads v m
  rw [show r.fetched m.table id v = .ok x by rw [fetched, hx]] at hrun
  rw [hrun]
  trivial

theorem leads_invalidate_found {i : Id} :
    (r.invalidate i).Leads (Memory.faulty r.entity [])
      (fun m => ∃ x, m.table.find r.entity id v = .ok (some x))
      fun _ m => ∃ x, m.table.find r.entity id v = .ok (some x) := by
  intro m hm
  rw [(run_invalidate_alike r [] i m).table]
  exact hm

theorem leads_invalidate_absent (hm₀ : r.Sound m₀) (hid : ∀ x, ¬m₀.table.Found r.entity id x) :
    (r.invalidate id).Leads (Memory.faulty r.entity []) (· = m₀) fun _ => m₀.Unchanged := by
  rintro m rfl
  rw [run_invalidate FaultScript.sparesPurge_nil]
  split
  · exact hm₀.unchanged_purge hid
  · exact m.unchanged_self

theorem leads_invalidate_wrote (hm₀ : r.Sound m₀) :
    (r.invalidate id).Leads (Memory.faulty r.entity []) (m₀.Wrote id v)
      fun _ m => r.Touched m₀ id m ∧
        ∃ row, m.table.get? id = some row ∧ v.admits row.isDeleted = true := by
  intro m hm
  rw [run_invalidate FaultScript.sparesPurge_nil]
  split
  · refine ⟨⟨hm.others, fun key later hlater hkey => ?_⟩, hm.row⟩
    simp only [hm.cache, hm.now]
    exact LockedCache.find_purge hm₀.keyed hkey hlater
  · exact ⟨⟨hm.others, fun key later _ _ => by rw [hm.cache]⟩, hm.row⟩

theorem ends_fetch_wrote :
    Action.Ends (Memory.faulty r.entity [])
      (fun m => r.Touched m₀ id m ∧
        ∃ row, m.table.get? id = some row ∧ v.admits row.isDeleted = true)
      (r.fetch id [] v) (fun _ _ => True) fun m => m₀.Unchanged m ∨ r.Breaks m₀ m := by
  rintro m ⟨htouched, row, hrow, hv⟩
  cases hrec : Table.recordOf r.entity id row with
  | ok x => exact ends_fetch_found m ⟨x, Table.find_eq_some.2 ⟨row, hrow, hv, hrec⟩⟩
  | error e =>
    have hbreaks : r.Breaks m₀ m := ⟨id, row, htouched, hrow, fun x hx => by simp [hrec] at hx⟩
    exact (ends_fetch (P := fun m => m₀.Unchanged m ∨ r.Breaks m₀ m)).mono (fun _ h => h)
      (fun _ _ _ => trivial) (fun _ h => h) m (.inr hbreaks)

theorem ends_settle_of {P Q : Memory → Prop} {affected : UInt64}
    (hdrop : (r.invalidate id).Leads (Memory.faulty r.entity []) P fun _ => Q)
    (hfetch : Action.Ends (Memory.faulty r.entity []) Q (r.fetch id [] .active) (fun _ _ => True)
      bad) :
    Action.Ends (Memory.faulty r.entity [])
      (fun m => (affected = 0 ∧ bad m) ∨ (affected ≠ 0 ∧ P m)) (r.settle id affected)
      (fun _ _ => True) bad := by
  unfold settle
  refine Action.ends_ite (fun h0 => ?_) fun h0 => ?_
  · exact Action.ends_throw fun m hm => (hm.resolve_right fun h => h.1 h0).2
  · have hlift : Action.Ends (Memory.faulty r.entity [])
        (fun m => (affected = 0 ∧ bad m) ∨ (affected ≠ 0 ∧ P m)) (liftM (r.invalidate id))
        (fun _ => Q) bad :=
      (Action.ends_lift hdrop).mono (fun m hm => (hm.resolve_left fun h => h0 h.1).2)
        (fun _ _ h => h) fun _ h => h
    exact hlift.bind fun _ => hfetch

theorem ends_reread (hm₀ : r.Sound m₀) :
    Action.Ends (Memory.faulty r.entity [])
      (fun m => (m = m₀ ∧ ∀ x, ¬m₀.table.Found r.entity id x) ∨ m₀.Wrote id v m)
      (do
        (r.invalidate id : Program α Unit)
        r.fetch id [] v)
      (fun _ _ => True) fun m => m₀.Unchanged m ∨ r.Breaks m₀ m := by
  rintro m (⟨rfl, habsent⟩ | hwrote)
  · have hfails : r.FailsUnchanged m (do
        (r.invalidate id : Program α Unit)
        r.fetch id [] v) :=
      (Action.ends_lift (leads_invalidate_absent hm₀ habsent)).bind fun _ =>
        ends_fetch.mono (fun _ h => h) (fun _ _ _ => trivial) fun _ h => h
    exact hfails.sparing m rfl
  · exact ((Action.ends_lift (leads_invalidate_wrote hm₀)).bind fun _ => ends_fetch_wrote) m hwrote

end

theorem failsSparing_create (x : α) : r.FailsSparing m₀ (r.create x) := by
  unfold create
  have hthrow {e : RequestError} : r.FailsSparing m₀ (throw e : Action α α) :=
    Action.ends_throw fun m hm => .inl (hm ▸ m.unchanged_self)
  refine Action.ends_ite (fun _ => ?_) fun _ => hthrow
  have hinsert : Action.Ends (Memory.faulty r.entity []) (· = m₀) (ask (.insert x))
      (fun (y : α) m => r.entity.isNew y → r.Breaks m₀ m)
      fun m => m₀.Unchanged m ∨ r.Breaks m₀ m := by
    refine Memory.ends_call (fun m t hm ht => .inl (hm ▸ Memory.unchanged_of_rows ht)) ?_
    rintro m y t rfl hout hnew
    cases hout with
    | read h => cases h
    | @inserted _ _ data id n _ _ _ hrec =>
      have hget (i : Id) : Table.get? ⟨Table.putRow id { data := Table.stampNew m.now.wall data }
          m.table.rows, n⟩ i = if i = id then some { data := Table.stampNew m.now.wall data }
          else m.table.get? i := Table.lookup_putRow ..
      refine ⟨id, { data := Table.stampNew m.now.wall data },
        ⟨fun i hi => (hget i).trans (if_neg hi), fun _ _ _ _ => rfl⟩, (hget id).trans (if_pos rfl),
        fun z hz => ?_⟩
      · obtain rfl : y = z := Except.ok.inj (hrec.symm.trans hz)
        simpa [EntityType.isNew] using hnew
  exact hinsert.bind fun y => Action.ends_ite
    (fun hnew => Action.ends_throw fun m hm => .inr (hm hnew)) fun _ => Action.ends_pure
      fun _ _ => trivial

theorem failsSparing_update (hm₀ : r.Sound m₀) (x : α) (id : Id) :
    r.FailsSparing m₀ (r.update x id) := by
  unfold update
  have hsave : Action.Ends (Memory.faulty r.entity [])
      (fun m => m = m₀ ∧ r.checkUpdate x id = .ok ()) (ask (.save x))
      (fun (n : UInt64) m => (n = 0 ∧ (m₀.Unchanged m ∨ r.Breaks m₀ m)) ∨
        (n ≠ 0 ∧ m₀.Wrote id .active m)) fun m => m₀.Unchanged m ∨ r.Breaks m₀ m := by
    refine Memory.ends_call (fun m t hm ht => .inl (hm.1 ▸ Memory.unchanged_of_rows ht)) ?_
    rintro m n t ⟨rfl, hcheck⟩ hout
    have hid : r.entity.identity x = id := by
      by_contra hne
      simp [checkUpdate, hne] at hcheck
    subst hid
    cases hout with
    | read h => cases h
    | saveMissed => exact .inl ⟨rfl, .inl m.unchanged_self⟩
    | saved hdata hlive =>
      refine .inr ⟨by decide, Memory.wrote_put ?_⟩
      simpa [Visibility.admits, Row.isDeleted] using (Table.live?_eq_some.1 hlive).2
  exact (ends_check (.inl m₀.unchanged_self)).bind fun _ => hsave.bind fun n =>
    ends_settle_of (leads_invalidate_wrote hm₀) ends_fetch_wrote

theorem failsUnchanged_updateFields (x : α) (fields : Object) :
    r.FailsUnchanged m₀ (r.updateFields x fields) := by
  unfold updateFields
  have hset : Action.Ends (Memory.faulty r.entity [])
      (fun m => m = m₀ ∧ r.checkFields x fields = .ok ())
      (ask (.updateFields (r.entity.identity x) fields))
      (fun (n : UInt64) m => (n = 0 ∧ m₀.Unchanged m) ∨
        (n ≠ 0 ∧ ∃ y, m.table.find r.entity (r.entity.identity x) .active = .ok (some y)))
      m₀.Unchanged := by
    refine Memory.ends_call (fun m t hm ht => hm.1 ▸ Memory.unchanged_of_rows ht) ?_
    rintro m n t ⟨rfl, -⟩ hout
    cases hout with
    | read h => cases h
    | fieldsMissed => exact .inl ⟨rfl, m.unchanged_self⟩
    | @fieldsSet _ _ data row y hlive hdata hrec =>
      have hread : Table.Readable r.entity (r.entity.identity x) _ := ⟨y, hrec⟩
      refine .inr ⟨by decide, hread.exists_find (Table.get?_put_self _ _ _) ?_⟩
      simpa [Visibility.admits, Row.isDeleted] using (Table.live?_eq_some.1 hlive).2
  exact (ends_check m₀.unchanged_self).bind fun _ => hset.bind fun n =>
    ends_settle_of leads_invalidate_found ends_fetch_found

theorem failsSparing_remove (hm₀ : r.Sound m₀) (id : Id) : r.FailsSparing m₀ (r.remove id) := by
  unfold remove
  have hdelete : Action.Ends (Memory.faulty r.entity [])
      (fun m => m = m₀ ∧ r.requireIdentity id "remove" = .ok ()) (ask (.softDelete id))
      (fun _ m => (m = m₀ ∧ ∀ x, ¬m₀.table.Found r.entity id x) ∨ m₀.Wrote id .all m)
      fun m => m₀.Unchanged m ∨ r.Breaks m₀ m := by
    refine Memory.ends_call (fun m t hm ht => .inl (hm.1 ▸ Memory.unchanged_of_rows ht)) ?_
    rintro m n t ⟨rfl, -⟩ hout
    cases hout with
    | read h => cases h
    | tombstoned hlive => exact .inr (Memory.wrote_put rfl)
    | deleteMissed hlive =>
      refine .inl ⟨rfl, ?_⟩
      rintro x ⟨row, hrow, -⟩
      simp [hlive] at hrow
  exact (ends_check (.inl m₀.unchanged_self)).bind fun _ => hdelete.bind fun _ => ends_reread hm₀

theorem failsSparing_restore (hm₀ : r.Sound m₀) (id : Id) : r.FailsSparing m₀ (r.restore id) := by
  unfold restore
  have hclear : Action.Ends (Memory.faulty r.entity [])
      (fun m => m = m₀ ∧ r.requireIdentity id "restore" = .ok ()) (ask (.clearTombstone id))
      (fun _ m => (m = m₀ ∧ ∀ x, ¬m₀.table.Found r.entity id x) ∨ m₀.Wrote id .active m)
      fun m => m₀.Unchanged m ∨ r.Breaks m₀ m := by
    refine Memory.ends_call (fun m t hm ht => .inl (hm.1 ▸ Memory.unchanged_of_rows ht)) ?_
    rintro m n t ⟨rfl, -⟩ hout
    cases hout with
    | read h => cases h
    | restored => exact .inr (Memory.wrote_put rfl)
    | restoreMissed =>
      by_cases hfound : ∃ x, m.table.Found r.entity id x
      · obtain ⟨x, row, hrow, -⟩ := hfound
        obtain ⟨hget, hdel⟩ := Table.live?_eq_some.1 hrow
        exact .inr ⟨rfl, rfl, fun _ _ => rfl, row, hget, by simp [Visibility.admits, hdel]⟩
      · exact .inl ⟨rfl, fun x hx => hfound ⟨x, hx⟩⟩
  exact (ends_check (.inl m₀.unchanged_self)).bind fun _ => hclear.bind fun _ => ends_reread hm₀

theorem failsUnchanged_destroy (id : Id) : r.FailsUnchanged m₀ (r.destroy id) := by
  unfold destroy
  have herase : Action.Ends (Memory.faulty r.entity [])
      (fun m => m = m₀ ∧ r.requireIdentity id "destroy" = .ok ()) (ask (.hardDelete id))
      (fun _ _ => True) m₀.Unchanged :=
    Memory.ends_call (fun m t hm ht => hm.1 ▸ Memory.unchanged_of_rows ht) fun _ _ _ _ _ => trivial
  exact (ends_check m₀.unchanged_self).bind fun _ => herase.bind fun _ =>
    Action.ends_lift fun _ _ => trivial

theorem leads_readCached_unchanged (hm₀ : r.Sound m₀) (key : String) :
    (r.readCached key).Leads (Memory.faulty r.entity []) (· = m₀) fun _ => m₀.Unchanged := by
  rintro m rfl
  have hrun : ((r.readCached key).run (Memory.faulty r.entity []) m).2 =
      { m with cache := (m.cache.answer m.now.ticks (.get key)).2 } := by
    unfold readCached
    rw [Program.run_bind', Program.run_askCache]
    simp only [Memory.faulty, Handler.withFaults_nil, Memory.handler]
    split <;> rfl
  rw [hrun]
  exact ⟨rfl, fun other later hlater => LockedCache.find_get hm₀.keyed key other hlater⟩

theorem failsUnchanged_getById (hm₀ : r.Sound m₀) (q : IdRequest) :
    r.FailsUnchanged m₀ (r.getById q) := by
  unfold getById
  refine (ends_check m₀.unchanged_self).bind fun _ => Action.ends_ite (fun _ => ?_) fun _ => ?_
  · have hread : Action.Ends (Memory.faulty r.entity [])
        (fun m => m = m₀ ∧ r.checkLookup q = .ok ())
        (liftM (r.readCached (CacheKey.variant r.config.keyPrefix r.entity.name q.id q.preloads)))
        (fun _ => m₀.Unchanged) m₀.Unchanged :=
      (Action.ends_lift (leads_readCached_unchanged hm₀ _)).mono (fun _ h => h.1) (fun _ _ h => h)
        fun _ h => h
    refine hread.bind fun found => ?_
    cases found with
    | some x => exact Action.ends_pure fun _ _ => trivial
    | none =>
      refine ends_fetch.bind fun x => ?_
      have hwrite : (r.writeCached (CacheKey.variant r.config.keyPrefix r.entity.name q.id
          q.preloads) x).Leads (Memory.faulty r.entity [])
          (fun m => m₀.Unchanged m ∧ m.table.find r.entity q.id .active = .ok (some x))
          fun _ _ => True := fun _ _ => trivial
      exact (Action.ends_lift hwrite).bind fun _ => Action.ends_pure fun _ _ => trivial
  · exact ends_fetch.mono (fun m hm => hm.1 ▸ m.unchanged_self) (fun _ _ _ => trivial) fun _ h => h

theorem failsSparing_action (hm₀ : r.Sound m₀) (op : Operation α) :
    r.FailsSparing m₀ (op.action r) := by
  have hread {β : Type} {x : Action α β}
      (h : Action.Ends (Memory.faulty r.entity []) m₀.Unchanged x (fun _ => m₀.Unchanged)
        m₀.Unchanged) : r.FailsSparing m₀ x :=
    h.mono (fun m hm => hm ▸ m.unchanged_self) (fun _ _ _ => trivial) fun _ => .inl
  cases op with
  | create x => exact failsSparing_create x
  | get id => exact (failsUnchanged_getById hm₀ ⟨id, []⟩).sparing
  | getById q => exact (failsUnchanged_getById hm₀ q).sparing
  | first q => exact hread ends_first
  | list q => exact hread ends_list
  | page q => exact hread ends_page
  | update x id => exact failsSparing_update hm₀ x id
  | updateFields x fields => exact (failsUnchanged_updateFields x fields).sparing
  | remove id => exact failsSparing_remove hm₀ id
  | restore id => exact failsSparing_restore hm₀ id
  | destroy id => exact (failsUnchanged_destroy id).sparing

theorem perform_readable (K : r.entity.Keepable) {s : Step α} (hs : s.operation.Reads r.entity)
    (hm : m.table.All (Table.Readable r.entity)) :
    (r.perform s m).2.table.All (Table.Readable r.entity) := by
  refine perform_keeps (P := fun t => t.All (Table.Readable r.entity)) (fun now t c hmay ht => ?_) hm
  refine (Table.answer_outcome r.entity now t c).allReadable K (fun x hc => ?_) ht
  subst hc
  obtain ⟨op, now', script⟩ := s
  cases op with
  | update y id =>
    obtain rfl : x = y := hmay
    exact hs
  | _ => cases hmay

theorem after_readable (K : r.entity.Keepable) {steps : List (Step α)}
    (hsteps : ∀ s ∈ steps, s.operation.Reads r.entity) (start : Moment) :
    (r.after steps (.fresh start)).table.All (Table.Readable r.entity) :=
  after_keeps (P := fun m => m.table.All (Table.Readable r.entity))
    (fun s hs _ hm => perform_readable K (hsteps s hs) hm) Table.all_empty

theorem not_breaks (K : r.entity.Keepable) (hkeyed : Table.Keyed m.table.rows)
    (hread : m.table.All (Table.Readable r.entity)) : ¬r.Breaks m₀ m := by
  rintro ⟨id, row, -, hrow, hbroken⟩
  obtain ⟨x, hx⟩ := hread id row hrow
  exact hkeyed.ne_zero hrow ((K.identity_recordOf hx).symm.trans (hbroken x hx))

section

variable {op : Operation α} {now : Moment} {e : RequestError}

theorem unchanged_or_breaks (hm : r.Sound m) (h : (r.perform ⟨op, now, []⟩ m).1 = .error e) :
    { m with now := now }.Unchanged (r.perform ⟨op, now, []⟩ m).2 ∨
      r.Breaks { m with now := now } (r.perform ⟨op, now, []⟩ m).2 := by
  have hat : r.Sound { m with now := now } := ⟨hm.coherent.at_time now, hm.keyed⟩
  exact (failsSparing_action hat op _ rfl).of_error h

theorem unchanged_of_reads (K : r.entity.Keepable) (hm : r.Sound m)
    (hkeyed : Table.Keyed m.table.rows) (hread : m.table.All (Table.Readable r.entity))
    (hop : op.Reads r.entity) (h : (r.perform ⟨op, now, []⟩ m).1 = .error e) :
    { m with now := now }.Unchanged (r.perform ⟨op, now, []⟩ m).2 :=
  (unchanged_or_breaks hm h).resolve_right
    (not_breaks K (perform_rows_keyed _ hkeyed) (perform_readable K (s := ⟨op, now, []⟩) hop hread))

/-- In every memory that operations reach, an operation that answers with an error leaves every row
and the outcome of every lookup as they are, unless it leaves behind a row that is no record of the
type. It never does where the store can keep the documents of the type and each record that was
given to an update can be read back. -/
theorem unchanged_of_error {steps : List (Step α)} (hp : ∀ s ∈ steps, s.faults.SparesPurge)
    (start : Moment) (h : (r.perform ⟨op, now, []⟩ (r.after steps (.fresh start))).1 = .error e) :
    let m := { r.after steps (.fresh start) with now := now }
    let m' := (r.perform ⟨op, now, []⟩ (r.after steps (.fresh start))).2
    (m.Unchanged m' ∨ r.Breaks m m') ∧
      (r.entity.Keepable → (∀ s ∈ steps, s.operation.Reads r.entity) → op.Reads r.entity →
        m.Unchanged m') := by
  have hsound := after_sound (r := r) hp start
  have ht : Table.Reachable r.entity (r.after steps (.fresh start)).table :=
    .after steps (m := .fresh start) .empty
  exact ⟨unchanged_or_breaks hsound h, fun K hsteps hop =>
    unchanged_of_reads K hsound ht.keyed (after_readable K hsteps start) hop h⟩

end

def users : Repository (Record Catalog.user.fields) where
  entity := Catalog.user.entity

def ann : Record Catalog.user.fields :=
  .fresh ("Ann", "ann@example.com", (30 : Int64), .finite .zero, true, ())

def annServed : List (Step (Record Catalog.user.fields)) :=
  [⟨.create ann, .epoch, []⟩, ⟨.get 1, .epoch, []⟩]

def realAge : Operation (Record Catalog.user.fields) :=
  .updateFields { ann with id := 1 } [("age", .num (.real .zero))]

theorem unchanged_annServed :
    ∃ e, (users.perform ⟨realAge, .epoch, []⟩ (users.after annServed (.fresh .epoch))).1 = .error e ∧
      { users.after annServed (.fresh .epoch) with now := .epoch }.Unchanged
        (users.perform ⟨realAge, .epoch, []⟩ (users.after annServed (.fresh .epoch))).2 := by
  have hrefused : (users.perform ⟨realAge, .epoch, []⟩
      (users.after annServed (.fresh .epoch))).1.isOk = false := by decide +kernel
  cases hanswer : (users.perform ⟨realAge, .epoch, []⟩
      (users.after annServed (.fresh .epoch))).1 with
  | ok x => simp [hanswer, Except.isOk, Except.toBool] at hrefused
  | error e =>
    have hp : ∀ s ∈ annServed, s.faults.SparesPurge := by
      simp [annServed, FaultScript.sparesPurge_nil]
    have hreads : ∀ s ∈ annServed, s.operation.Reads users.entity := by
      simp [annServed, Operation.Reads]
    exact ⟨e, rfl, (unchanged_of_error hp .epoch hanswer).2 Catalog.user.ruled.columnar.keepable
      hreads trivial⟩

def givenId? (d : Object) : Option Id := (d.get? Column.id).bind Json.uint64?

theorem givenId?_of_get? {d : Object} {id : Id} (h : d.get? Column.id = some (.ofId id)) :
    givenId? d = some id := by rw [givenId?, h, Option.bind_some, Json.uint64?_ofId]

/-- A lease tells that it is not deleted: it has null for the time of that, and takes nothing
else. -/
def lease : EntityType Id where
  name := "lease"
  identity id := id
  withIdentity id _ := id
  encode id := some (.obj [(Column.deletedAt, .null), (Column.id, .ofId id)])
  decode
    | .obj d =>
      if Object.get? Column.deletedAt d = some .null then givenId? d else none
    | _ => none
  fromText _ := none

def leases : Repository Id where
  entity := lease

def leaseHeld : Memory := leases.after [⟨.create 0, .epoch, []⟩] (.fresh .epoch)

theorem lease_decodes {x : Id} {d : Json} (hd : lease.encode x = some d) :
    lease.decode d = some x := by
  let document : Object := [(Column.deletedAt, .null), (Column.id, .ofId x)]
  have hdeleted : Object.get? Column.deletedAt document = some .null := rfl
  have hid : Object.get? Column.id document = some (.ofId x) := rfl
  rw [← Option.some.inj hd]
  simp only [lease]
  rw [if_pos hdeleted, givenId?_of_get? hid]

/-- The lease is tombstoned, and only then found to be none. -/
theorem not_unchanged_leaseRemoved :
    (∀ x d, lease.encode x = some d → lease.decode d = some x) ∧
      (leases.perform ⟨.remove 1, .epoch, []⟩ leaseHeld).1.isOk = false ∧
      (leaseHeld.table.get? 1).map (·.isDeleted) = some false ∧
      ((leases.perform ⟨.remove 1, .epoch, []⟩ leaseHeld).2.table.get? 1).map (·.isDeleted) =
        some true :=
  ⟨fun _ _ => lease_decodes, by decide +kernel, by decide +kernel, by decide +kernel⟩

end Repository

end Recordkeeper
