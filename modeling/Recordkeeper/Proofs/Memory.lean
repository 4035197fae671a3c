import Recordkeeper.Fault
import Recordkeeper.Memory
import Recordkeeper.Proofs.Cache.Entries
import Recordkeeper.Proofs.Program
import Recordkeeper.Proofs.Table.Outcome

set_option autoImplicit false

namespace Recordkeeper

variable {α β : Type}

namespace FaultScript

def SparesPurge (script : FaultScript) : Prop :=
  script.find? "cache" "delete_by_pattern" = none

def SparesStore (script : FaultScript) : Prop := ∀ call, script.find? "store" call = none

theorem sparesPurge_nil : SparesPurge [] := rfl

theorem sparesStore_nil : SparesStore [] := fun _ => rfl

end FaultScript

/-- The same table at the same moment, beside any two caches. -/
structure Memory.Alike (m n : Memory) : Prop where
  table : m.table = n.table
  now : m.now = n.now

theorem Memory.Alike.trans {m n k : Memory} (h : m.Alike n) (h' : n.Alike k) : m.Alike k :=
  ⟨h.table.trans h'.table, h.now.trans h'.now⟩

namespace Memory

abbrev faulty (E : EntityType α) (script : FaultScript) : Handler Memory α :=
  (Memory.handler E).withFaults script

variable {E : EntityType α} {script : FaultScript}

theorem store_faulty (E : EntityType α) (script : FaultScript) (c : StoreCall α) (m : Memory) :
    (∃ fault : Fault, (faulty E script).store c m = (fault.storeAnswer c, m)) ∨
      (faulty E script).store c m =
        ((m.table.answer E m.now.wall c).1,
          { m with table := (m.table.answer E m.now.wall c).2 }) := by
  simp only [faulty, Handler.withFaults]
  split
  · next fault _ => exact .inl ⟨fault, rfl⟩
  · exact .inr rfl

theorem cache_faulty (E : EntityType α) (script : FaultScript) (c : CacheCall) (m : Memory) :
    (∃ fault : Fault, (faulty E script).cache c m = (fault.cacheAnswer c, m)) ∨
      (faulty E script).cache c m =
        ((m.cache.answer m.now.ticks c).1,
          { m with cache := (m.cache.answer m.now.ticks c).2 }) := by
  simp only [faulty, Handler.withFaults]
  split
  · next fault _ => exact .inl ⟨fault, rfl⟩
  · exact .inr rfl

theorem cache_alike (E : EntityType α) (script : FaultScript) (c : CacheCall) (m : Memory) :
    Alike ((faulty E script).cache c m).2 m := by
  rcases cache_faulty E script c m with ⟨fault, hf⟩ | hrun
  · rw [hf]
    exact ⟨rfl, rfl⟩
  · rw [hrun]
    exact ⟨rfl, rfl⟩

theorem cache_purge (h : script.SparesPurge) (E : EntityType α) (base : String) (m : Memory) :
    (faulty E script).cache (.purge base) m =
      ((m.cache.answer m.now.ticks (.purge base)).1,
        { m with cache := (m.cache.answer m.now.ticks (.purge base)).2 }) := by
  have hname : script.find? "cache" (CacheCall.purge base).name = none := h
  simp only [faulty, Handler.withFaults]
  rw [hname]
  rfl

theorem store_spared (h : script.SparesStore) (E : EntityType α) (c : StoreCall α) (m : Memory) :
    (faulty E script).store c m =
      ((m.table.answer E m.now.wall c).1,
        { m with table := (m.table.answer E m.now.wall c).2 }) := by
  simp only [faulty, Handler.withFaults]
  rw [h c.name]
  rfl

theorem perform_call_ok {c : StoreCall α} {a : c.Result} {t : Table} {m : Memory}
    (h : m.table.answer E m.now.wall c = (.ok a, t)) (f : c.Result → Action α β) :
    Action.perform (faulty E []) (Repository.ask c >>= f) m =
      Action.perform (faulty E []) (f a) { m with table := t } := by
  rw [Action.perform_bind, Action.perform_ask, store_spared FaultScript.sparesStore_nil, h]
  rfl

theorem perform_call_error {c : StoreCall α} {e : StoreError} {t : Table} {m : Memory}
    (h : m.table.answer E m.now.wall c = (.error e, t)) (f : c.Result → Action α β) :
    Action.perform (faulty E []) (Repository.ask c >>= f) m =
      (.error (.store e), { m with table := t }) := by
  rw [Action.perform_bind, Action.perform_ask, store_spared FaultScript.sparesStore_nil, h]
  rfl

section

variable {P bad : Memory → Prop}

theorem store_cases {c : StoreCall α} {good : c.Result → Memory → Prop} {m : Memory}
    (hfail : ∀ t, t.rows = m.table.rows → bad { m with table := t })
    (hdone : ∀ a t, Table.Outcome E m.now.wall m.table c (.ok a) t → good a { m with table := t }) :
    Action.Lands good bad ((Memory.handler E).store c m) := by
  have hout := Table.answer_outcome E m.now.wall m.table c
  simp only [Memory.handler]
  revert hout
  generalize m.table.answer E m.now.wall c = answer
  obtain ⟨a, t⟩ := answer
  intro hout
  cases a with
  | ok a => exact hdone a t hout
  | error e => exact hfail t hout.rows_of_error

theorem ends_call {c : StoreCall α} {good : c.Result → Memory → Prop}
    (hfail : ∀ m t, P m → t.rows = m.table.rows → bad { m with table := t })
    (hdone : ∀ m a t, P m → Table.Outcome E m.now.wall m.table c (.ok a) t →
      good a { m with table := t }) :
    Action.Ends (faulty E []) P (Repository.ask c) good bad :=
  Action.ends_ask fun m hm => store_cases (fun t ht => hfail m t hm ht) fun a t => hdone m a t hm

theorem ends_write {c : StoreCall α} {good : c.Result → Memory → Prop}
    (hfail : ∀ m t, P m → t.rows = m.table.rows → bad { m with table := t })
    (hnothing : ∀ m, P m → good c.nothing m)
    (hdone : ∀ m a t, P m → Table.Outcome E m.now.wall m.table c (.ok a) t →
      good a { m with table := t }) :
    Action.Ends (faulty E script) P (Repository.ask c) good bad := by
  refine Action.ends_ask fun m hm => ?_
  rcases store_faulty E script c m with ⟨fault, hf⟩ | hc
  · rw [hf]
    cases fault with
    | empty => exact hnothing m hm
    | failure e => exact hfail m m.table hm rfl
  · rw [hc]
    exact store_cases (fun t ht => hfail m t hm ht) fun a t => hdone m a t hm

theorem answer_cache_keyed (E : EntityType α) (script : FaultScript) (c : Call α) {m : Memory}
    (hm : m.cache.Keyed) : ((faulty E script).answer c m).2.cache.Keyed := by
  cases c with
  | store c =>
    simp only [Handler.answer]
    rcases store_faulty E script c m with ⟨fault, hf⟩ | hrun
    · rwa [hf]
    · rwa [hrun]
  | cache c =>
    simp only [Handler.answer]
    rcases cache_faulty E script c m with ⟨fault, hf⟩ | hrun
    · rwa [hf]
    · rw [hrun]
      exact hm.answer m.now.ticks c

theorem ends_read {c : StoreCall α} (hc : c.isWrite = false) :
    Action.Ends (faulty E script) P (Repository.ask c) (fun _ => P) P := by
  refine Action.ends_ask fun m hm => ?_
  rcases store_faulty E script c m with ⟨fault, hf⟩ | hrun
  · rw [hf]
    cases fault with
    | empty => exact hm
    | failure e => exact hm
  · have htable : (m.table.answer E m.now.wall c).2 = m.table := by
      cases c <;> first | rfl | cases hc
    rw [hrun, htable]
    generalize (m.table.answer E m.now.wall c).1 = a
    cases a <;> exact hm

theorem ends_find {id : Id} {preloads : List String} {v : Visibility} :
    Action.Ends (faulty E script) P (Repository.ask (.find id preloads v))
      (fun found m => P m ∧ ∀ x, found = some x → m.table.find E id v = .ok (some x)) P := by
  refine Action.ends_ask fun m hm => ?_
  rcases store_faulty E script (.find id preloads v) m with ⟨fault, hf⟩ | hrun
  · rw [hf]
    cases fault with
    | empty => exact ⟨hm, fun x hx => by cases hx⟩
    | failure e => exact hm
  · rw [hrun]
    simp only [Table.answer]
    cases hfind : m.table.find E id v with
    | error e => exact hm
    | ok found => exact ⟨hm, fun x hx => hx ▸ hfind⟩

end

end Memory

namespace Repository

variable {r : Repository α} {script : FaultScript} {P : Memory → Prop}

theorem ends_fetch {id : Id} {preloads : List String} {v : Visibility} :
    Action.Ends (Memory.faulty r.entity script) P (r.fetch id preloads v)
      (fun x m => P m ∧ m.table.find r.entity id v = .ok (some x)) P := by
  refine Memory.ends_find.bind fun found => ?_
  cases found with
  | none => exact Action.ends_throw fun m hm => hm.1
  | some x => exact Action.ends_pure fun m hm => ⟨hm.1, hm.2 x rfl⟩

theorem ends_first {q : FilterRequest} :
    Action.Ends (Memory.faulty r.entity script) P (r.first q) (fun _ => P) P := by
  refine (Action.ends_liftExcept (fun _ h => h) fun _ _ _ h => h).bind fun query => ?_
  refine (Memory.ends_read rfl).bind fun found => ?_
  split
  · exact Action.ends_pure fun _ h => h
  · exact Action.ends_throw fun _ h => h

theorem ends_list {q : FilterRequest} :
    Action.Ends (Memory.faulty r.entity script) P (r.list q) (fun _ => P) P := by
  refine (Action.ends_liftExcept (fun _ h => h) fun _ _ _ h => h).bind fun query => ?_
  exact Memory.ends_read rfl

theorem ends_page {q : PageRequest} :
    Action.Ends (Memory.faulty r.entity script) P (r.page q) (fun _ => P) P := by
  refine (Action.ends_liftExcept (fun _ h => h) fun _ _ _ h => h).bind fun query => ?_
  refine (Memory.ends_read rfl).bind fun total => ?_
  simp only
  split
  · refine (Memory.ends_read rfl).bind fun records => ?_
    exact Action.ends_pure fun _ h => h
  · exact Action.ends_pure fun _ h => h

def fetched (r : Repository α) (t : Table) (id : Id) (v : Visibility) : Except RequestError α :=
  match t.find r.entity id v with
  | .ok (some x) => .ok x
  | .ok none => .error (r.notFound id)
  | .error e => .error (.store e)

theorem perform_fetch (h : script.SparesStore) (id : Id) (preloads : List String) (v : Visibility)
    (m : Memory) :
    Action.perform (Memory.faulty r.entity script) (r.fetch id preloads v) m =
      (r.fetched m.table id v, m) := by
  unfold fetch fetched
  rw [Action.perform_bind, Action.perform_ask, Memory.store_spared h]
  simp only [Table.answer]
  cases m.table.find r.entity id v with
  | error e => rfl
  | ok found => cases found <;> rfl

theorem run_readCached_alike (script : FaultScript) (key : String) (m : Memory) :
    Memory.Alike ((r.readCached key).run (Memory.faulty r.entity script) m).2 m := by
  unfold readCached
  rw [Program.run_bind', Program.run_askCache]
  have h := Memory.cache_alike r.entity script (.get key) m
  generalize (Memory.faulty r.entity script).cache (.get key) m = answer at h ⊢
  obtain ⟨a, m'⟩ := answer
  split <;> exact h

theorem run_writeCached_alike (script : FaultScript) (key : String) (x : α) (m : Memory) :
    Memory.Alike ((r.writeCached key x).run (Memory.faulty r.entity script) m).2 m := by
  unfold writeCached
  split
  · exact Memory.cache_alike r.entity script _ m
  · exact ⟨rfl, rfl⟩

theorem run_invalidate_alike (r : Repository α) (script : FaultScript) (id : Id) (m : Memory) :
    Memory.Alike ((r.invalidate id).run (Memory.faulty r.entity script) m).2 m := by
  unfold invalidate
  split
  · exact Memory.cache_alike r.entity script _ m
  · exact ⟨rfl, rfl⟩

theorem run_invalidate (h : script.SparesPurge) (id : Id) (m : Memory) :
    ((r.invalidate id).run (Memory.faulty r.entity script) m).2 =
      if r.usesCache then
        { m with cache := (m.cache.answer m.now.ticks
          (.purge (CacheKey.base r.config.keyPrefix r.entity.name id))).2 }
      else m := by
  unfold invalidate
  split
  · rw [Program.run_bind', Program.run_askCache, Memory.cache_purge h]
    rfl
  · rfl

end Repository

end Recordkeeper
