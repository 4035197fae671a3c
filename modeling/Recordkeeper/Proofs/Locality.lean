import Recordkeeper.Proofs.Cache.Key
import Recordkeeper.Proofs.Operation

/-!
What an operation addressed to one identity reads and touches. It makes calls for that identity
alone, so that its answer comes from the row and the cached variants of that identity, and the rows
and variants of every other stay as they are.
-/

set_option autoImplicit false

namespace Recordkeeper

variable {σ α β γ : Type}

def StoreCall.subject (E : EntityType α) : StoreCall α → Option Id
  | .find id .. => some id
  | c => c.target E

def Operation.subject (r : Repository α) : Operation α → Option Id
  | .get id | .remove id | .restore id | .destroy id | .update _ id => some id
  | .getById q => some q.id
  | .updateFields x _ => some (r.entity.identity x)
  | _ => none

namespace Table

variable {E : EntityType α} {t t' : Table} {id : Id} {c : StoreCall α}

theorem live?_congr (h : t.get? id = t'.get? id) : t.live? id = t'.live? id := by
  simp only [live?, h]

/-- A call about one identity puts or erases the row of that identity or does nothing, and which of
these it does and what it answers is a matter of the row there is. -/
theorem answer_cases (h : t.get? id = t'.get? id) (hc : c.subject E = some id) (now : Timestamp) :
    (t.answer E now c).1 = (t'.answer E now c).1 ∧
      (((t.answer E now c).2 = t ∧ (t'.answer E now c).2 = t') ∨
        (∃ row, (t.answer E now c).2 = t.put id row ∧ (t'.answer E now c).2 = t'.put id row) ∨
        ((t.answer E now c).2 = t.erase id ∧ (t'.answer E now c).2 = t'.erase id)) := by
  have hlive := live?_congr h
  cases c with
  | query | count | insert => cases hc
  | find i preloads v =>
    obtain rfl := Option.some.inj hc
    have hfind : t.find E i v = t'.find E i v := by simp only [find, h]
    exact ⟨hfind, .inl ⟨rfl, rfl⟩⟩
  | save x =>
    obtain rfl := Option.some.inj hc
    simp only [answer, save, hlive]
    cases dataOf E x with
    | error e => exact ⟨rfl, .inl ⟨rfl, rfl⟩⟩
    | ok data =>
      cases t'.live? (E.identity x) with
      | none => exact ⟨rfl, .inl ⟨rfl, rfl⟩⟩
      | some row => exact ⟨rfl, .inr (.inl ⟨_, rfl, rfl⟩)⟩
  | updateFields i fields =>
    obtain rfl := Option.some.inj hc
    simp only [answer, updateFields, hlive]
    split
    · exact ⟨rfl, .inl ⟨rfl, rfl⟩⟩
    · split
      · exact ⟨rfl, .inl ⟨rfl, rfl⟩⟩
      · split
        · exact ⟨rfl, .inl ⟨rfl, rfl⟩⟩
        · exact ⟨rfl, .inr (.inl ⟨_, rfl, rfl⟩)⟩
  | softDelete i =>
    obtain rfl := Option.some.inj hc
    simp only [answer, softDelete, hlive]
    split
    · exact ⟨rfl, .inr (.inl ⟨_, rfl, rfl⟩)⟩
    · exact ⟨rfl, .inl ⟨rfl, rfl⟩⟩
  | clearTombstone i =>
    obtain rfl := Option.some.inj hc
    simp only [answer, clearTombstone, h]
    split
    · exact ⟨rfl, .inr (.inl ⟨_, rfl, rfl⟩)⟩
    · exact ⟨rfl, .inl ⟨rfl, rfl⟩⟩
  | hardDelete i =>
    obtain rfl := Option.some.inj hc
    simp only [answer, hardDelete, h]
    split
    · exact ⟨rfl, .inr (.inr ⟨rfl, rfl⟩)⟩
    · exact ⟨rfl, .inl ⟨rfl, rfl⟩⟩

theorem answer_congr (h : t.get? id = t'.get? id) (hc : c.subject E = some id) (now : Timestamp) :
    (t.answer E now c).1 = (t'.answer E now c).1 ∧
      (t.answer E now c).2.get? id = (t'.answer E now c).2.get? id := by
  obtain ⟨ha, ⟨ht, ht'⟩ | ⟨row, ht, ht'⟩ | ⟨ht, ht'⟩⟩ := answer_cases h hc now
  · exact ⟨ha, by rw [ht, ht', h]⟩
  · exact ⟨ha, by rw [ht, ht', get?_put_self, get?_put_self]⟩
  · exact ⟨ha, by rw [ht, ht', get?_erase, get?_erase, if_pos rfl, if_pos rfl]⟩

theorem answer_frame (hc : c.subject E = some id) (now : Timestamp) :
    (t.answer E now c).2.counter = t.counter ∧
      ∀ i, i ≠ id → (t.answer E now c).2.get? i = t.get? i := by
  obtain ⟨-, ⟨ht, -⟩ | ⟨row, ht, -⟩ | ⟨ht, -⟩⟩ := answer_cases (rfl : t.get? id = t.get? id) hc now
  · rw [ht]
    exact ⟨rfl, fun _ _ => rfl⟩
  · rw [ht]
    exact ⟨rfl, fun i hi => by rw [get?_put, if_neg hi]⟩
  · rw [ht]
    exact ⟨rfl, fun i hi => by rw [get?_erase, if_neg hi]⟩

end Table

def Action.Respects (h : Handler σ α) (R : σ → σ → Prop) (x : Action α β) : Prop :=
  ∀ s t, R s t → (perform h x s).1 = (perform h x t).1 ∧ R (perform h x s).2 (perform h x t).2

namespace Action

variable {h : Handler σ α} {R : σ → σ → Prop}

theorem respects_pure (b : β) : Respects h R (pure b) := fun _ _ hst => ⟨rfl, hst⟩

theorem respects_throw (e : RequestError) : Respects h R (throw e : Action α β) :=
  fun _ _ hst => ⟨rfl, hst⟩

theorem respects_liftExcept (e : Except RequestError β) : Respects h R (liftExcept e) := by
  intro s t hst
  rw [perform_liftExcept, perform_liftExcept]
  exact ⟨rfl, hst⟩

theorem Respects.bind {x : Action α β} {f : β → Action α γ} (hx : Respects h R x)
    (hf : ∀ b, Respects h R (f b)) : Respects h R (x >>= f) := by
  intro s t hst
  obtain ⟨hr, hst'⟩ := hx s t hst
  rw [perform_bind, perform_bind]
  rcases hs : perform h x s with ⟨a, s'⟩
  rcases ht : perform h x t with ⟨b, t'⟩
  rw [hs, ht] at hr hst'
  obtain rfl : a = b := hr
  cases a with
  | ok b => exact hf b s' t' hst'
  | error e => exact ⟨rfl, hst'⟩

theorem respects_check {e : Except RequestError β} {f : β → Action α γ}
    (hf : ∀ b, e = .ok b → Respects h R (f b)) : Respects h R (liftExcept e >>= f) := by
  intro s t hst
  rw [perform_bind, perform_bind, perform_liftExcept, perform_liftExcept]
  cases e with
  | ok b => exact hf b rfl s t hst
  | error e => exact ⟨rfl, hst⟩

theorem respects_ite {c : Prop} [Decidable c] {x y : Action α β} (hx : c → Respects h R x)
    (hy : ¬c → Respects h R y) : Respects h R (if c then x else y) := by
  split
  · next hc => exact hx hc
  · next hc => exact hy hc

theorem respects_lift {p : Program α β} (hp : ∀ s t, R s t →
    (p.run h s).1 = (p.run h t).1 ∧ R (p.run h s).2 (p.run h t).2) :
    Respects h R (liftM p : Action α β) := by
  intro s t hst
  rw [perform_lift, perform_lift]
  obtain ⟨hr, hst'⟩ := hp s t hst
  exact ⟨congrArg Except.ok hr, hst'⟩

end Action

namespace Repository

abbrev baseKey (r : Repository α) (id : Id) : String :=
  CacheKey.base r.config.keyPrefix r.entity.name id

/-- At one moment, two memories agree on all that belongs to one identity. -/
structure SameAt (r : Repository α) (id : Id) (m n : Memory) : Prop where
  now : m.now = n.now
  row : m.table.get? id = n.table.get? id
  lookups : ∀ key, CacheKey.covers (r.baseKey id) key = true → ∀ later, m.now.ticks ≤ later →
    m.cache.find later key = n.cache.find later key

/-- Between two memories, nothing but what belongs to one identity has changed, apart from entries
that had expired. -/
structure OnlyAt (r : Repository α) (id : Id) (m₀ m : Memory) : Prop where
  now : m.now = m₀.now
  counter : m.table.counter = m₀.table.counter
  rows : ∀ i, i ≠ id → m.table.get? i = m₀.table.get? i
  entries : ∀ key, CacheKey.covers (r.baseKey id) key = false →
    LockedCache.Keeps m₀.now.ticks key m₀.cache m.cache
  keyed : m.cache.Keyed

/-- Two runs of an operation addressed to one identity, from memories that agree on it. -/
structure Together (r : Repository α) (id : Id) (m₀ n₀ m n : Memory) : Prop where
  same : r.SameAt id m n
  left : r.OnlyAt id m₀ m
  right : r.OnlyAt id n₀ n

/-- What the cache is given at a moment expires within the readings of the clock. -/
def InTime (r : Repository α) (now : Moment) : Prop :=
  r.usesCache = true → (Clock.after? now.ticks r.config.cacheTtl).isSome

variable {r : Repository α} {script : FaultScript} {id : Id} {m₀ n₀ m n : Memory}

theorem onlyAt_self (h : m.cache.Keyed) : r.OnlyAt id m m :=
  ⟨rfl, rfl, fun _ _ => rfl, fun key _ => LockedCache.keeps_self _ key _, h⟩

theorem OnlyAt.store (h : r.OnlyAt id m₀ m) {c : StoreCall α}
    (hc : c.subject r.entity = some id) :
    r.OnlyAt id m₀ { m with table := (m.table.answer r.entity m.now.wall c).2 } := by
  obtain ⟨hcounter, hrows⟩ := Table.answer_frame (t := m.table) hc m.now.wall
  exact {
    now := h.now
    counter := hcounter.trans h.counter
    rows := fun i hi => (hrows i hi).trans (h.rows i hi)
    entries := h.entries
    keyed := h.keyed }

theorem OnlyAt.cache (h : r.OnlyAt id m₀ m) {c : CacheCall} (hc : c.Within (r.baseKey id))
    (hfits : c.Fits m₀.now.ticks) :
    r.OnlyAt id m₀ { m with cache := (m.cache.answer m.now.ticks c).2 } := {
  now := h.now
  counter := h.counter
  rows := h.rows
  entries := fun key hkey =>
    (h.entries key hkey).trans
      (h.now ▸ LockedCache.answer_keeps h.keyed hc (h.now ▸ hfits) hkey)
  keyed := h.keyed.answer m.now.ticks c }

theorem respects_ask {c : StoreCall α} (hc : c.subject r.entity = some id) :
    Action.Respects (Memory.faulty r.entity script) (r.Together id m₀ n₀) (ask c) := by
  intro m n h
  rw [Action.perform_ask, Action.perform_ask]
  simp only [Memory.faulty, Handler.withFaults]
  split
  · exact ⟨rfl, h⟩
  · obtain ⟨hanswer, hrow⟩ := Table.answer_congr h.same.row hc m.now.wall
    have hright := h.right.store hc
    simp only [Memory.handler]
    rw [← h.same.now] at hright ⊢
    rw [hanswer]
    exact ⟨rfl, ⟨rfl, hrow, h.same.lookups⟩, h.left.store hc, hright⟩

theorem run_cache_together (script : FaultScript) {c : CacheCall} (hc : c.Within (r.baseKey id))
    (hfits : c.Fits m₀.now.ticks) (h : r.Together id m₀ n₀ m n) :
    (∀ key, c = .get key → ((Memory.faulty r.entity script).cache c m).1 =
      ((Memory.faulty r.entity script).cache c n).1) ∧
      r.Together id m₀ n₀ ((Memory.faulty r.entity script).cache c m).2
        ((Memory.faulty r.entity script).cache c n).2 := by
  simp only [Memory.faulty, Handler.withFaults]
  split
  · exact ⟨fun _ _ => rfl, h⟩
  · obtain ⟨hget, hlookups⟩ :=
      LockedCache.answer_congr h.left.keyed h.right.keyed hc h.same.lookups
    have hnow : n₀.now = m₀.now := h.right.now.symm.trans (h.same.now.symm.trans h.left.now)
    have hright := h.right.cache hc (hnow ▸ hfits)
    simp only [Memory.handler]
    rw [← h.same.now] at hright ⊢
    refine ⟨?_, ⟨rfl, h.same.row, hlookups⟩, h.left.cache hc hfits, hright⟩
    rintro key rfl
    exact hget key rfl

theorem respects_invalidate :
    Action.Respects (Memory.faulty r.entity script) (r.Together id m₀ n₀)
      (liftM (r.invalidate id)) := by
  refine Action.respects_lift fun m n h => ?_
  unfold invalidate
  split
  · rw [Program.run_bind', Program.run_bind', Program.run_askCache, Program.run_askCache]
    exact ⟨rfl, (run_cache_together script (c := .purge (r.baseKey id)) rfl trivial h).2⟩
  · exact ⟨rfl, h⟩

theorem respects_readCached {key : String} (hkey : CacheKey.covers (r.baseKey id) key = true) :
    Action.Respects (Memory.faulty r.entity script) (r.Together id m₀ n₀)
      (liftM (r.readCached key)) := by
  refine Action.respects_lift fun m n h => ?_
  obtain ⟨hget, hnext⟩ := run_cache_together script (c := .get key) hkey trivial h
  unfold readCached
  rw [Program.run_bind', Program.run_bind', Program.run_askCache, Program.run_askCache,
    hget key rfl]
  split <;> exact ⟨rfl, hnext⟩

theorem respects_writeCached {key : String} (hkey : CacheKey.covers (r.baseKey id) key = true)
    (hfits : (Clock.after? m₀.now.ticks r.config.cacheTtl).isSome) (x : α) :
    Action.Respects (Memory.faulty r.entity script) (r.Together id m₀ n₀)
      (liftM (r.writeCached key x)) := by
  refine Action.respects_lift fun m n h => ?_
  unfold writeCached
  split
  · next text _ =>
    rw [Program.run_bind', Program.run_bind', Program.run_askCache, Program.run_askCache]
    exact ⟨rfl, (run_cache_together script (c := .set key text r.config.cacheTtl) hkey hfits h).2⟩
  · exact ⟨rfl, h⟩

theorem respects_fetch (preloads : List String) (v : Visibility) :
    Action.Respects (Memory.faulty r.entity script) (r.Together id m₀ n₀)
      (r.fetch id preloads v) := by
  refine (respects_ask rfl).bind fun found => ?_
  cases found with
  | none => exact Action.respects_throw _
  | some x => exact Action.respects_pure x

theorem respects_getById {q : IdRequest} (hq : q.id = id) (hfits : r.InTime m₀.now) :
    Action.Respects (Memory.faulty r.entity script) (r.Together id m₀ n₀) (r.getById q) := by
  subst hq
  have hkey : CacheKey.covers (r.baseKey q.id)
      (CacheKey.variant r.config.keyPrefix r.entity.name q.id q.preloads) = true :=
    CacheKey.covers_variant ..
  refine (Action.respects_liftExcept _).bind fun _ =>
    Action.respects_ite (fun hu => ?_) fun _ => respects_fetch q.preloads .active
  refine (respects_readCached hkey).bind fun found => ?_
  cases found with
  | some x => exact Action.respects_pure x
  | none =>
    exact (respects_fetch q.preloads .active).bind fun x =>
      (respects_writeCached hkey (hfits hu) x).bind fun _ => Action.respects_pure x

theorem respects_settle (affected : UInt64) :
    Action.Respects (Memory.faulty r.entity script) (r.Together id m₀ n₀)
      (r.settle id affected) :=
  Action.respects_ite (fun _ => Action.respects_throw _) fun _ =>
    respects_invalidate.bind fun _ => respects_fetch [] .active

theorem respects_action {op : Operation α} (hop : op.subject r = some id)
    (hfits : r.InTime m₀.now) :
    Action.Respects (Memory.faulty r.entity script) (r.Together id m₀ n₀) (op.action r) := by
  cases op with
  | create | first | list | page => cases hop
  | get i => exact respects_getById (q := ⟨i, []⟩) (Option.some.inj hop) hfits
  | getById q => exact respects_getById (Option.some.inj hop) hfits
  | update x i =>
    obtain rfl : i = id := Option.some.inj hop
    refine Action.respects_check fun _ hcheck => ?_
    have hx : (StoreCall.save x).subject r.entity = some i := by
      by_contra hne
      simp [StoreCall.subject, StoreCall.target] at hne
      simp [checkUpdate, hne] at hcheck
    exact (respects_ask hx).bind fun n => respects_settle n
  | updateFields x fields =>
    obtain rfl : r.entity.identity x = id := Option.some.inj hop
    exact (Action.respects_liftExcept _).bind fun _ =>
      (respects_ask rfl).bind fun n => respects_settle n
  | remove i =>
    obtain rfl : i = id := Option.some.inj hop
    exact (Action.respects_liftExcept _).bind fun _ => (respects_ask rfl).bind fun _ =>
      respects_invalidate.bind fun _ => respects_fetch [] .all
  | restore i =>
    obtain rfl : i = id := Option.some.inj hop
    exact (Action.respects_liftExcept _).bind fun _ => (respects_ask rfl).bind fun _ =>
      respects_invalidate.bind fun _ => respects_fetch [] .active
  | destroy i =>
    obtain rfl : i = id := Option.some.inj hop
    exact (Action.respects_liftExcept _).bind fun _ => (respects_ask rfl).bind fun _ =>
      respects_invalidate

/-- From memories that agree on an identity, an operation addressed to it answers alike, leaves them
in agreement, and changes nothing else in either. -/
theorem perform_together {s : Step α} (hs : s.operation.subject r = some id)
    (hfits : r.InTime s.moment) (hm : m.cache.Keyed) (hn : n.cache.Keyed)
    (h : r.SameAt id { m with now := s.moment } { n with now := s.moment }) :
    (r.perform s m).1 = (r.perform s n).1 ∧
      r.Together id { m with now := s.moment } { n with now := s.moment } (r.perform s m).2
        (r.perform s n).2 :=
  respects_action hs hfits _ _ ⟨h, onlyAt_self hm, onlyAt_self hn⟩

theorem perform_onlyAt {s : Step α} (hs : s.operation.subject r = some id)
    (hfits : r.InTime s.moment) (hm : m.cache.Keyed) :
    r.OnlyAt id { m with now := s.moment } (r.perform s m).2 :=
  (perform_together hs hfits hm hm ⟨rfl, rfl, fun _ _ _ _ => rfl⟩).2.left

end Repository

end Recordkeeper
