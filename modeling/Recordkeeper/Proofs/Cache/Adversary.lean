import Recordkeeper.Proofs.Cache.Transparency

/-!
A repository over any store and any cache. The cache may lose what it is given, answer with stale
texts or with noise, fail, or be absent: the store goes through the same states, and no answer but
a lookup's success can come from it.
-/

set_option autoImplicit false

namespace Recordkeeper

variable {σ κ κ' α β : Type}

/-- A store over a state of its own, which reads leave as it is. -/
structure Backing (σ α : Type) where
  answer : (c : StoreCall α) → σ → c.Answer × σ
  reads : ∀ c s, c.isWrite = false → (answer c s).2 = s

/-- How a cache answers, over a state of its own: with what it was given, with something else, or
with a failure. -/
abbrev CacheBehaviour (κ : Type) := (c : CacheCall) → κ → c.Answer × κ

def Backing.beside (store : Backing σ α) (cache : CacheBehaviour κ) : Handler (σ × κ) α where
  store c s := ((store.answer c s.1).1, (store.answer c s.1).2, s.2)
  cache c s := ((cache c s.2).1, s.1, (cache c s.2).2)

def Backing.table (E : EntityType α) (now : Timestamp) (script : FaultScript) : Backing Table α where
  answer c t :=
    match script.find? "store" c.name with
    | some fault => (fault.storeAnswer c, t)
    | none => t.answer E now c
  reads c t hc := by
    split
    · rfl
    · cases c <;> first | rfl | cases hc

structure Visit (σ α : Type) where
  operation : Operation α
  store : Backing σ α

namespace Repository

def withCache (r : Repository α) (present : Bool) : Repository α := { r with hasCache := present }

def visit (r : Repository α) (cache : CacheBehaviour κ) (v : Visit σ α) (s : σ × κ) :
    Except RequestError v.operation.Result × (σ × κ) :=
  Action.perform (v.store.beside cache) (v.operation.action r) s

def visits (r : Repository α) (cache : CacheBehaviour κ) (vs : List (Visit σ α)) (s : σ × κ) :
    σ × κ :=
  vs.foldl (fun s v => (r.visit cache v s).2) s

theorem visits_cons (r : Repository α) (cache : CacheBehaviour κ) (v : Visit σ α)
    (vs : List (Visit σ α)) (s : σ × κ) :
    r.visits cache (v :: vs) s = r.visits cache vs (r.visit cache v s).2 := rfl

section

variable {r : Repository α} (cache : CacheBehaviour κ) (cache' : CacheBehaviour κ')

/-- From one store, actions that mirror each other have one outcome and leave one store. -/
theorem perform_mirrors {x y : Action α β} (hx : Action.Mirrors x y) (store : Backing σ α) (s : σ)
    (k : κ) (k' : κ') :
    (Action.perform (store.beside cache) x (s, k)).1 =
        (Action.perform (store.beside cache') y (s, k')).1 ∧
      (Action.perform (store.beside cache) x (s, k)).2.1 =
        (Action.perform (store.beside cache') y (s, k')).2.1 := by
  refine Program.Mirrors.run_related (R := fun (a : σ × κ) (b : σ × κ') => a.1 = b.1)
    (fun c a b hab => ?_) (fun c a b hab => hab) hx rfl
  simp only [Backing.beside, hab]
  exact ⟨trivial, trivial⟩

theorem visit_mirrors {v : Visit σ α} (hv : isLookup v.operation = false) (s : σ) (k : κ)
    (k' : κ') :
    (r.visit cache v (s, k)).1 = (r.uncached.visit cache' v (s, k')).1 ∧
      (r.visit cache v (s, k)).2.1 = (r.uncached.visit cache' v (s, k')).2.1 :=
  perform_mirrors cache cache' (mirrors_action hv) v.store s k k'

theorem visit_lookup_store {v : Visit σ α} (hv : isLookup v.operation = true) (s : σ × κ) :
    (r.visit cache v s).2.1 = s.1 := by
  have hkeep (c : Call α) (a : σ × κ) (hc : r.Asks (fun c => c.isWrite = false) c) (ha : a.1 = s.1) :
      ((v.store.beside cache).answer c a).2.1 = s.1 := by
    cases c with
    | store c => exact (v.store.reads c a.1 hc).trans ha
    | cache c => exact ha
  have hread (q : IdRequest) : Action.Makes (r.Asks fun c => c.isWrite = false) (r.getById q) :=
    makes_getById q rfl
  obtain ⟨op, store⟩ := v
  cases op with
  | get id => exact (hread ⟨id, []⟩).run_keeps (P := fun a : σ × κ => a.1 = s.1) hkeep rfl
  | getById q => exact (hread q).run_keeps (P := fun a : σ × κ => a.1 = s.1) hkeep rfl
  | _ => cases hv

theorem run_readCached_store (store : Backing σ α) (key : String) (s : σ × κ) :
    ((r.readCached key).run (store.beside cache) s).2.1 = s.1 := by
  unfold readCached
  rw [Program.run_bind', Program.run_askCache]
  split <;> rfl

theorem perform_getById_error (store : Backing σ α) (q : IdRequest) (s : σ) (k : κ) (k' : κ')
    {e : RequestError} (h : (Action.perform (store.beside cache) (r.getById q) (s, k)).1 = .error e) :
    (Action.perform (store.beside cache') (r.uncached.getById q) (s, k')).1 = .error e := by
  unfold getById at h ⊢
  rw [Action.perform_bind, Action.perform_liftExcept] at h ⊢
  have hcheck : r.uncached.checkLookup q = r.checkLookup q := rfl
  rw [hcheck]
  cases hq : r.checkLookup q with
  | error e' =>
    rw [hq] at h
    exact h
  | ok _ =>
    rw [hq] at h
    simp only [usesCache_uncached] at h ⊢
    split at h
    · unfold fetchThrough at h
      rw [Action.perform_bind, Action.perform_lift] at h
      have hstore := run_readCached_store (r := r) cache store
        (CacheKey.variant r.config.keyPrefix r.entity.name q.id q.preloads) (s, k)
      generalize (r.readCached (CacheKey.variant r.config.keyPrefix r.entity.name q.id
        q.preloads)).run (store.beside cache) (s, k) = read at h hstore
      obtain ⟨found, s', k₁⟩ := read
      obtain rfl : s' = s := hstore
      cases found with
      | some x => cases h
      | none => exact (perform_mirrors cache cache' (mirrors_stored _ q) store s' k₁ k').1.symm.trans h
    · exact (perform_mirrors cache cache' (mirrors_fetch q.id q.preloads .active) store s k
        k').1.symm.trans h

theorem visit_lookup_error {v : Visit σ α} (hv : isLookup v.operation = true) (s : σ) (k : κ)
    (k' : κ') {e : RequestError} (h : (r.visit cache v (s, k)).1 = .error e) :
    (r.uncached.visit cache' v (s, k')).1 = .error e := by
  obtain ⟨op, store⟩ := v
  cases op with
  | get id => exact perform_getById_error cache cache' store ⟨id, []⟩ s k k' h
  | getById q => exact perform_getById_error cache cache' store q s k k' h
  | _ => cases hv

theorem visit_store (v : Visit σ α) (s : σ) (k : κ) (k' : κ') :
    (r.visit cache v (s, k)).2.1 = (r.uncached.visit cache' v (s, k')).2.1 := by
  cases hv : isLookup v.operation with
  | false => exact (visit_mirrors cache cache' hv s k k').2
  | true =>
    rw [visit_lookup_store cache hv, visit_lookup_store cache' hv]

theorem visits_store (vs : List (Visit σ α)) (s : σ) (k : κ) (k' : κ') :
    (r.visits cache vs (s, k)).1 = (r.uncached.visits cache' vs (s, k')).1 := by
  induction vs generalizing s k k' with
  | nil => rfl
  | cons v vs ih =>
    have hstep := visit_store (r := r) cache cache' v s k k'
    simp only [visits_cons]
    rw [← Prod.eta (r.visit cache v (s, k)).2, ← Prod.eta (r.uncached.visit cache' v (s, k')).2,
      hstep]
    exact ih _ _ _

end

def absent : CacheBehaviour Unit := fun _ s => (.error ⟨"no cache"⟩, s)

def answerAlone (r : Repository α) (v : Visit σ α) (s : σ) : Except RequestError v.operation.Result :=
  (r.uncached.visit absent v (s, ())).1

/-- Whatever two caches do, or if there is none, a run takes the store through the same states and
answers alike but for lookups, and a lookup that fails fails as it would on that store alone. -/
theorem cache_never_decides (r : Repository α) (present present' : Bool) (cache : CacheBehaviour κ)
    (cache' : CacheBehaviour κ') (vs : List (Visit σ α)) (s : σ) (k : κ) (k' : κ') :
    ((r.withCache present).visits cache vs (s, k)).1 =
        ((r.withCache present').visits cache' vs (s, k')).1 ∧
      ∀ v : Visit σ α,
        let one := (r.withCache present).visit cache v ((r.withCache present).visits cache vs (s, k))
        let other :=
          (r.withCache present').visit cache' v ((r.withCache present').visits cache' vs (s, k'))
        (isLookup v.operation = false → one.1 = other.1) ∧
          (isLookup v.operation = true → ∀ e, one.1 = .error e ∨ other.1 = .error e →
            r.answerAlone v ((r.withCache present).visits cache vs (s, k)).1 = .error e) := by
  have hone := visits_store (r := r.withCache present) cache absent vs s k ()
  have hother := visits_store (r := r.withCache present') cache' absent vs s k' ()
  have hstores : ((r.withCache present).visits cache vs (s, k)).1 =
      ((r.withCache present').visits cache' vs (s, k')).1 := hone.trans hother.symm
  refine ⟨hstores, fun v => ?_⟩
  rcases hl : (r.withCache present).visits cache vs (s, k) with ⟨t, l⟩
  rcases hr : (r.withCache present').visits cache' vs (s, k') with ⟨t', l'⟩
  rw [hl, hr] at hstores
  obtain rfl : t = t' := hstores
  refine ⟨fun hv => ?_, fun hv e he => ?_⟩
  · have hleft := (visit_mirrors (r := r.withCache present) cache absent hv t l ()).1
    have hright := (visit_mirrors (r := r.withCache present') cache' absent hv t l' ()).1
    exact hleft.trans hright.symm
  · rcases he with he | he
    · exact visit_lookup_error (r := r.withCache present) cache absent hv t l () he
    · exact visit_lookup_error (r := r.withCache present') cache' absent hv t l' () he

def stuck (text : String) : CacheBehaviour Unit
  | .get _, s => (.ok (some text), s)
  | c, s => (.ok c.nothing, s)

def tokenVisits : List (Visit Table (Catalog.Item String)) :=
  [.create ⟨0, "a"⟩, .get 1, .update ⟨1, "b"⟩ 1, .remove 1].map fun op =>
    ⟨op, .table tokens.entity Moment.epoch.wall []⟩

def outdated : CacheBehaviour Unit := stuck "\x7b\"id\":1,\"value\":\"a\"\x7d"

/-- A cache stuck with an outdated text answers the lookup of a removed token, which fails without
it; the store and the list of the tokens are the same with it and without it. -/
theorem outdated_tokenVisits :
    let store := Backing.table tokens.entity Moment.epoch.wall []
    let stale := tokens.visits outdated tokenVisits ({}, ())
    let plain := tokens.uncached.visits absent tokenVisits ({}, ())
    stale.1 = plain.1 ∧
      (tokens.visit outdated ⟨.list {}, store⟩ stale).1 =
        (tokens.uncached.visit absent ⟨.list {}, store⟩ plain).1 ∧
      (tokens.visit outdated ⟨.get 1, store⟩ stale).1 = .ok ⟨1, "a"⟩ ∧
      (tokens.uncached.visit absent ⟨.get 1, store⟩ plain).1 = .error (.notFound "token" (some 1)) ∧
      tokens.answerAlone ⟨.get 1, store⟩ stale.1 = .error (.notFound "token" (some 1)) := by
  intro store stale plain
  obtain ⟨hstores, hvisit⟩ :=
    cache_never_decides tokens true false outdated absent tokenVisits {} () ()
  have hstale : (Action.perform (store.beside outdated) (tokens.get 1) stale).1 = .ok ⟨1, "a"⟩ := by
    decide +kernel
  have hplain : (Action.perform (store.beside absent) (tokens.uncached.get 1) plain).1 =
      .error (.notFound "token" (some 1)) := by
    decide +kernel
  exact ⟨hstores, (hvisit ⟨.list {}, store⟩).1 rfl, hstale, hplain,
    (hvisit ⟨.get 1, store⟩).2 rfl _ (.inr hplain)⟩

end Repository

end Recordkeeper
