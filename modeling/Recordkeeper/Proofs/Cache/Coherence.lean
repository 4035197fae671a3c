import Recordkeeper.Proofs.Cache.Key
import Recordkeeper.Proofs.Memory
import Recordkeeper.Proofs.Run

/-!
A cache beside a store holds nothing but snapshots of live rows. A write makes the snapshots of one
identity stale, and the purge after it drops all of those, so that the invariant is back before the
row is read again.
-/

set_option autoImplicit false

namespace Recordkeeper

variable {α : Type}

/-- Where the text of a record can be read, it gives the record again. -/
def EntityType.ReadsBack (E : EntityType α) : Prop :=
  ∀ x y text, E.snapshot? x = some text → E.fromText text = some y → y = x

namespace Repository

def Snapshot (r : Repository α) (t : Table) (id : Id) (text : String) : Prop :=
  ∃ x, t.Found r.entity id x ∧ r.entity.snapshot? x = some text

/-- Every entry of the cache is kept under the key of an identity, whose snapshot it is unless that
identity is the stale one. -/
def Coherent (r : Repository α) (stale : Option Id) (m : Memory) : Prop :=
  ∀ e ∈ m.cache.entries, r.usesCache = true ∧ ∃ id preloads,
    e.1 = CacheKey.variant r.config.keyPrefix r.entity.name id preloads ∧
      (stale = some id ∨ r.Snapshot m.table id e.2.text)

variable {r : Repository α} {script : FaultScript} {stale : Option Id} {m : Memory}

theorem coherent_fresh (start : Moment) : r.Coherent none (.fresh start) := fun e he => by
  cases he

theorem Coherent.snapshot (h : r.Coherent none m) {e : String × CacheEntry}
    (he : e ∈ m.cache.entries) {id : Id} {preloads : List String}
    (hkey : e.1 = CacheKey.variant r.config.keyPrefix r.entity.name id preloads) :
    r.Snapshot m.table id e.2.text := by
  obtain ⟨-, i, p, hi, hs⟩ := h e he
  obtain rfl := CacheKey.id_eq_of_variant_eq (hi.symm.trans hkey)
  exact hs.resolve_left (fun h => by cases h)

theorem Coherent.weaken (h : r.Coherent none m) (stale : Option Id) : r.Coherent stale m :=
  fun e he => by
    obtain ⟨hu, id, p, hkey, hs⟩ := h e he
    exact ⟨hu, id, p, hkey, .inr (hs.resolve_left (fun h => by cases h))⟩

theorem Coherent.at_time (h : r.Coherent stale m) (now : Moment) :
    r.Coherent stale { m with now := now } := h

theorem Coherent.of_rows (h : r.Coherent stale m) {t : Table} (ht : t.rows = m.table.rows) :
    r.Coherent stale { m with table := t } := fun e he => by
  obtain ⟨hu, id, p, hkey, hs⟩ := h e he
  refine ⟨hu, id, p, hkey, hs.imp_right ?_⟩
  rintro ⟨x, hx, htext⟩
  exact ⟨x, hx.congr (Table.get?_congr ht id), htext⟩

theorem Coherent.of_outcome (h : r.Coherent none m) {c : StoreCall α} {a : c.Answer} {t : Table}
    (hc : Table.Outcome r.entity m.now.wall m.table c a t) :
    r.Coherent (c.target r.entity) { m with table := t } := fun e he => by
  obtain ⟨hu, id, p, hkey, hs⟩ := h e he
  refine ⟨hu, id, p, hkey, ?_⟩
  obtain ⟨x, hx, htext⟩ := hs.resolve_left (fun h => by cases h)
  by_cases htarget : c.target r.entity = some id
  · exact .inl htarget
  · exact .inr ⟨x, hc.found_of_ne hx htarget, htext⟩

theorem Coherent.of_subset (h : r.Coherent stale m) {cache : LockedCache}
    (hc : ∀ e ∈ cache.entries, e ∈ m.cache.entries) :
    r.Coherent stale { m with cache := cache } := fun e he => h e (hc e he)

theorem Coherent.purge {id : Id} (h : r.Coherent (some id) m) (now : Nat) :
    r.Coherent none { m with cache := (m.cache.answer now
      (.purge (CacheKey.base r.config.keyPrefix r.entity.name id))).2 } := fun e he => by
  obtain ⟨hm, hcover⟩ := LockedCache.mem_of_mem_purge he
  obtain ⟨hu, i, p, hkey, hs⟩ := h e hm
  -- an entry of the stale identity would be covered by the base key, and so be gone
  refine ⟨hu, i, p, hkey, .inr (hs.resolve_left ?_)⟩
  rintro hi
  obtain rfl := Option.some.inj hi
  rw [hkey, CacheKey.covers_variant] at hcover
  cases hcover

theorem Coherent.set {id : Id} {preloads : List String} {x : α} {text : String}
    (h : r.Coherent none m) (hu : r.usesCache = true) (hx : m.table.Found r.entity id x)
    (htext : r.entity.snapshot? x = some text) (now : Nat) (life : Duration) :
    r.Coherent none { m with cache := (m.cache.answer now
      (.set (CacheKey.variant r.config.keyPrefix r.entity.name id preloads) text life)).2 } :=
    fun e he => by
  rcases LockedCache.mem_of_mem_set he with ⟨hkey, hval⟩ | hm
  · exact ⟨hu, id, preloads, hkey, .inr ⟨x, hx, by rw [htext, hval]⟩⟩
  · exact h e hm

section

variable {t : Table} {id : Id}

theorem leads_invalidate (hp : script.SparesPurge) (id : Id) :
    (r.invalidate id).Leads (Memory.faulty r.entity script) (r.Coherent (some id))
      fun _ => r.Coherent none := by
  intro m hm
  rw [run_invalidate hp]
  split
  · exact hm.purge _
  · next hu =>
    intro e he
    exact absurd (hm e he).1 hu

theorem leads_readCached_snapshot (script : FaultScript) (id : Id) (preloads : List String)
    (t : Table) :
    (r.readCached (CacheKey.variant r.config.keyPrefix r.entity.name id preloads)).Leads
      (Memory.faulty r.entity script) (fun m => r.Coherent none m ∧ m.table = t)
      fun found m => (r.Coherent none m ∧ m.table = t) ∧
        ∀ x, found = some x → ∃ text, r.Snapshot t id text ∧ r.entity.fromText text = some x := by
  intro m hm
  obtain ⟨hc, rfl⟩ := hm
  unfold readCached
  rw [Program.run_bind', Program.run_askCache]
  rcases Memory.cache_faulty r.entity script
    (.get (CacheKey.variant r.config.keyPrefix r.entity.name id preloads)) m with ⟨fault, hf⟩ | hrun
  · rw [hf]
    cases fault <;> exact ⟨⟨hc, rfl⟩, fun x hx => by cases hx⟩
  · rw [hrun]
    have hkept : r.Coherent none { m with cache := (m.cache.answer m.now.ticks
        (.get (CacheKey.variant r.config.keyPrefix r.entity.name id preloads))).2 } :=
      hc.of_subset fun _ he => LockedCache.mem_of_mem_get he
    cases hfind : (m.cache.answer m.now.ticks
      (.get (CacheKey.variant r.config.keyPrefix r.entity.name id preloads))).1 with
    | error e => exact ⟨⟨hkept, rfl⟩, fun x hx => by cases hx⟩
    | ok found =>
      cases found with
      | none => exact ⟨⟨hkept, rfl⟩, fun x hx => by cases hx⟩
      | some text =>
        refine ⟨⟨hkept, rfl⟩, fun x hx => ?_⟩
        obtain ⟨e, he, hkey, rfl⟩ := LockedCache.mem_of_find hfind
        exact ⟨_, hc.snapshot he hkey, hx⟩

theorem leads_readCached (script : FaultScript) (id : Id) (preloads : List String) (t : Table) :
    (r.readCached (CacheKey.variant r.config.keyPrefix r.entity.name id preloads)).Leads
      (Memory.faulty r.entity script) (fun m => r.Coherent none m ∧ m.table = t)
      fun found m => (r.Coherent none m ∧ m.table = t) ∧
        ∀ x, found = some x → r.entity.ReadsBack → t.Found r.entity id x := by
  intro m hm
  obtain ⟨hkept, hsnapshot⟩ := leads_readCached_snapshot script id preloads t m hm
  refine ⟨hkept, fun x hx hback => ?_⟩
  obtain ⟨text, ⟨y, hy, htext⟩, hread⟩ := hsnapshot x hx
  obtain rfl := hback y x text htext hread
  exact hy

theorem leads_writeCached {preloads : List String} {x : α} (hu : r.usesCache = true)
    (hx : t.Found r.entity id x) :
    (r.writeCached (CacheKey.variant r.config.keyPrefix r.entity.name id preloads) x).Leads
      (Memory.faulty r.entity script) (fun m => r.Coherent none m ∧ m.table = t)
      fun _ m => r.Coherent none m ∧ m.table = t := by
  intro m hm
  obtain ⟨hc, rfl⟩ := hm
  unfold writeCached
  cases htext : r.entity.snapshot? x with
  | none => exact ⟨hc, rfl⟩
  | some text =>
    simp only
    rw [Program.run_bind', Program.run_askCache]
    rcases Memory.cache_faulty r.entity script
      (.set (CacheKey.variant r.config.keyPrefix r.entity.name id preloads) text r.config.cacheTtl)
      m with ⟨fault, hf⟩ | hrun
    · rw [hf]
      exact ⟨hc, rfl⟩
    · rw [hrun]
      exact ⟨hc.set hu hx htext _ _, rfl⟩

theorem ends_fetchThrough {q : IdRequest} (hu : r.usesCache = true) :
    Action.Ends (Memory.faulty r.entity script)
      (fun m => r.Coherent none m ∧ m.table = t)
      (r.fetchThrough (CacheKey.variant r.config.keyPrefix r.entity.name q.id q.preloads) q)
      (fun x m => (r.Coherent none m ∧ m.table = t) ∧
        (r.entity.ReadsBack → t.Found r.entity q.id x))
      fun m => r.Coherent none m ∧ m.table = t := by
  refine (Action.ends_lift (leads_readCached script q.id q.preloads t)).bind fun found => ?_
  cases found with
  | some x => exact Action.ends_pure fun m hm => ⟨hm.1, hm.2 x rfl⟩
  | none =>
    refine (ends_fetch.mono (fun m hm => hm.1) (fun x m hm => hm) fun _ hm => hm).bind fun x => ?_
    intro m hm
    obtain ⟨⟨hc, rfl⟩, hfind⟩ := hm
    have hx := Table.find_active.1 hfind
    have hwrite : Action.Ends (Memory.faulty r.entity script)
        (fun m' => r.Coherent none m' ∧ m'.table = m.table)
        (do
          (r.writeCached (CacheKey.variant r.config.keyPrefix r.entity.name q.id q.preloads) x :
            Program α Unit)
          return x)
        (fun y m' => (r.Coherent none m' ∧ m'.table = m.table) ∧
          (r.entity.ReadsBack → m.table.Found r.entity q.id y))
        fun m' => r.Coherent none m' ∧ m'.table = m.table :=
      (Action.ends_lift (leads_writeCached hu hx)).bind fun _ =>
        Action.ends_pure fun m' hm' => ⟨hm', fun _ => hx⟩
    exact hwrite m ⟨hc, rfl⟩

theorem ends_getById (script : FaultScript) (t : Table) (q : IdRequest) :
    Action.Ends (Memory.faulty r.entity script)
      (fun m => r.Coherent none m ∧ m.table = t) (r.getById q)
      (fun x m => (r.Coherent none m ∧ m.table = t) ∧
        (r.entity.ReadsBack → t.Found r.entity q.id x))
      fun m => r.Coherent none m ∧ m.table = t := by
  refine (Action.ends_liftExcept (fun _ h => h) fun _ _ _ h => h).bind fun _ => ?_
  split
  · next hu => exact ends_fetchThrough hu
  · refine ends_fetch.mono (fun m hm => hm) (fun x m hm => ?_) fun _ hm => hm
    obtain ⟨⟨hc, rfl⟩, hfind⟩ := hm
    exact ⟨⟨hc, rfl⟩, fun _ => Table.find_active.1 hfind⟩

end

/-- An action keeps the cache coherent, whether it succeeds or fails. -/
def KeepsCoherent {β : Type} (r : Repository α) (script : FaultScript) (x : Action α β) : Prop :=
  Action.Ends (Memory.faulty r.entity script) (r.Coherent none) x (fun _ => r.Coherent none)
    (r.Coherent none)

theorem keepsCoherent_getById (q : IdRequest) : r.KeepsCoherent script (r.getById q) := fun m hm =>
  ((ends_getById script m.table q).mono (fun _ h => h) (fun _ _ h => h.1.1) fun _ h => h.1) m ⟨hm, rfl⟩

theorem keepsCoherent_create (x : α) : r.KeepsCoherent script (r.create x) := by
  unfold create
  split
  · have hask : Action.Ends (Memory.faulty r.entity script) (r.Coherent none) (ask (.insert x))
        (fun _ => r.Coherent none) (r.Coherent none) :=
      Memory.ends_write (fun m t hm ht => hm.of_rows ht) (fun m hm => hm)
        fun m a t hm hout => hm.of_outcome hout
    exact hask.bind fun created =>
      Action.ends_ite (fun _ => Action.ends_throw fun _ h => h) fun _ => Action.ends_pure fun _ h => h
  · exact Action.ends_throw fun _ h => h

/-- A write that reached no row left nothing stale; after any other, the purge comes first. -/
theorem ends_settle (hp : script.SparesPurge) {id : Id} {affected : UInt64} :
    Action.Ends (Memory.faulty r.entity script)
      (fun m => r.Coherent (some id) m ∧ (affected = 0 → r.Coherent none m)) (r.settle id affected)
      (fun _ => r.Coherent none) (r.Coherent none) := by
  unfold settle
  split
  · next h0 => exact Action.ends_throw fun m hm => hm.2 h0
  · have hdrop : Action.Ends (Memory.faulty r.entity script)
        (fun m => r.Coherent (some id) m ∧ (affected = 0 → r.Coherent none m))
        (liftM (r.invalidate id)) (fun _ => r.Coherent none) (r.Coherent none) :=
      (Action.ends_lift (leads_invalidate hp id)).mono (fun m hm => hm.1) (fun _ _ h => h)
        fun _ h => h
    exact hdrop.bind fun _ => ends_fetch.mono (fun _ h => h) (fun _ _ h => h.1) fun _ h => h

theorem keepsCoherent_update (hp : script.SparesPurge) (x : α) (id : Id) :
    r.KeepsCoherent script (r.update x id) := by
  unfold update
  have hcheck : Action.Ends (Memory.faulty r.entity script) (r.Coherent none)
      (liftExcept (r.checkUpdate x id)) (fun _ m => r.Coherent none m ∧ r.entity.identity x = id)
      (r.Coherent none) := by
    refine Action.ends_liftExcept (fun _ h => h) fun b hb m hm => ⟨hm, ?_⟩
    by_contra hne
    simp [checkUpdate, hne] at hb
  have hsave : Action.Ends (Memory.faulty r.entity script)
      (fun m => r.Coherent none m ∧ r.entity.identity x = id) (ask (.save x))
      (fun (n : UInt64) m => r.Coherent (some id) m ∧ (n = 0 → r.Coherent none m))
      (r.Coherent none) := by
    refine Memory.ends_write (fun m t hm ht => hm.1.of_rows ht)
      (fun m hm => ⟨hm.1.weaken _, fun _ => hm.1⟩) fun m n t hm hout => ⟨?_, fun h0 => ?_⟩
    · obtain ⟨hm, rfl⟩ := hm
      exact hm.of_outcome hout
    · rw [hout.save_missed h0]
      exact hm.1
  exact hcheck.bind fun _ => hsave.bind fun n => ends_settle hp

theorem keepsCoherent_updateFields (hp : script.SparesPurge) (x : α) (fields : Object) :
    r.KeepsCoherent script (r.updateFields x fields) := by
  unfold updateFields
  refine (Action.ends_liftExcept (fun _ h => h) fun _ _ _ h => h).bind fun _ => ?_
  have hset : Action.Ends (Memory.faulty r.entity script) (r.Coherent none)
      (ask (.updateFields (r.entity.identity x) fields))
      (fun (n : UInt64) m => r.Coherent (some (r.entity.identity x)) m ∧
        (n = 0 → r.Coherent none m)) (r.Coherent none) := by
    refine Memory.ends_write (fun m t hm ht => hm.of_rows ht)
      (fun m hm => ⟨hm.weaken _, fun _ => hm⟩)
      fun m n t hm hout => ⟨hm.of_outcome hout, fun h0 => ?_⟩
    rw [hout.updateFields_missed h0]
    exact hm
  exact hset.bind fun n => ends_settle hp

theorem ends_target {c : StoreCall α} {id : Id} (hc : c.target r.entity = some id) :
    Action.Ends (Memory.faulty r.entity script) (r.Coherent none) (ask c)
      (fun _ => r.Coherent (some id)) (r.Coherent none) := by
  refine Memory.ends_write (fun m t hm ht => hm.of_rows ht) (fun m hm => hm.weaken _)
    fun m a t hm hout => ?_
  rw [← hc]
  exact hm.of_outcome hout

theorem keepsCoherent_fetch (id : Id) (preloads : List String) (v : Visibility) :
    r.KeepsCoherent script (r.fetch id preloads v) :=
  ends_fetch.mono (fun _ h => h) (fun _ _ h => h.1) fun _ h => h

theorem keepsCoherent_action (hp : script.SparesPurge) (op : Operation α) :
    r.KeepsCoherent script (op.action r) := by
  have hcheck (e : Except RequestError Unit) : r.KeepsCoherent script (liftExcept e) :=
    Action.ends_liftExcept (fun _ h => h) fun _ _ _ h => h
  have hdrop (id : Id) : Action.Ends (Memory.faulty r.entity script) (r.Coherent (some id))
      (liftM (r.invalidate id)) (fun _ => r.Coherent none) (r.Coherent none) :=
    Action.ends_lift (leads_invalidate hp id)
  cases op with
  | create x => exact keepsCoherent_create x
  | get id => exact keepsCoherent_getById ⟨id, []⟩
  | getById q => exact keepsCoherent_getById q
  | first q => exact ends_first
  | list q => exact ends_list
  | page q => exact ends_page
  | update x id => exact keepsCoherent_update hp x id
  | updateFields x fields => exact keepsCoherent_updateFields hp x fields
  | remove id =>
    exact (hcheck _).bind fun _ => (ends_target rfl).bind fun _ => (hdrop id).bind fun _ =>
      keepsCoherent_fetch id [] .all
  | restore id =>
    exact (hcheck _).bind fun _ => (ends_target rfl).bind fun _ => (hdrop id).bind fun _ =>
      keepsCoherent_fetch id [] .active
  | destroy id => exact (hcheck _).bind fun _ => (ends_target rfl).bind fun _ => hdrop id

theorem perform_coherent (s : Step α) (hp : s.faults.SparesPurge) (hm : r.Coherent none m) :
    r.Coherent none (r.perform s m).2 :=
  (keepsCoherent_action (r := r) hp s.operation _ (hm.at_time s.moment)).snd

theorem after_coherent {steps : List (Step α)} (hp : ∀ s ∈ steps, s.faults.SparesPurge)
    (start : Moment) : r.Coherent none (r.after steps (.fresh start)) :=
  after_keeps (fun s hs _ hm => perform_coherent s (hp s hs) hm) (coherent_fresh start)

end Repository

end Recordkeeper
