import Recordkeeper.Proofs.Operation

/-!
Programs that put the same questions to a store, whatever their caches say. No operation but a
lookup uses what a cache answers, so that with and without a cache it asks the store the same and
makes the same of it; and a lookup uses it only to succeed.
-/

set_option autoImplicit false

namespace Recordkeeper

variable {σ τ α β γ : Type}

/-- `p` asks the store what `q` asks it, and goes on from every answer as `q` does, whatever a cache
tells `p` on the way. -/
inductive Program.Mirrors : Program α β → Program α β → Prop where
  | done (b : β) : Mirrors (.done b) (.done b)
  | store (c : StoreCall α) {f g : c.Answer → Program α β} (h : ∀ a, Mirrors (f a) (g a)) :
      Mirrors (.ask (.store c) f) (.ask (.store c) g)
  | cache (c : CacheCall) {f : c.Answer → Program α β} {q : Program α β}
      (h : ∀ a, Mirrors (f a) q) : Mirrors (.ask (.cache c) f) q

namespace Program

theorem Mirrors.bind {p q : Program α β} {f g : β → Program α γ} (hp : p.Mirrors q)
    (hf : ∀ b, (f b).Mirrors (g b)) : (p >>= f).Mirrors (q >>= g) := by
  induction hp with
  | done b => exact hf b
  | store c _ ih => exact .store c ih
  | cache c _ ih => exact .cache c ih

theorem mirrors_askCache (c : CacheCall) {f : c.Answer → Program α β} {q : Program α β}
    (hf : ∀ a, (f a).Mirrors q) : (askCache c >>= f).Mirrors q := .cache c hf

theorem mirrors_askStore (c : StoreCall α) :
    (askStore c : Program α c.Answer).Mirrors (askStore c) := .store c .done

/-- Two handlers whose stores answer alike from related states, and whose states stay related
through calls to the cache, run such programs alike. -/
theorem Mirrors.run_related {h : Handler σ α} {h' : Handler τ α} {R : σ → τ → Prop}
    (hstore : ∀ c s t, R s t → (h.store c s).1 = (h'.store c t).1 ∧
      R (h.store c s).2 (h'.store c t).2)
    (hcache : ∀ c s t, R s t → R (h.cache c s).2 t) {p q : Program α β} (hp : p.Mirrors q) {s : σ}
    {t : τ} (hs : R s t) : (p.run h s).1 = (q.run h' t).1 ∧ R (p.run h s).2 (q.run h' t).2 := by
  induction hp generalizing s t with
  | done b => exact ⟨rfl, hs⟩
  | store c _ ih =>
    obtain ⟨hanswer, hafter⟩ := hstore c s t hs
    simp only [run, Handler.answer]
    rw [hanswer]
    exact ih _ hafter
  | cache c _ ih => exact ih _ (hcache c s t hs)

end Program

def Action.Mirrors (x y : Action α β) : Prop := x.run.Mirrors y.run

namespace Action

theorem mirrors_pure (b : β) : Mirrors (pure b : Action α β) (pure b) := .done _

theorem mirrors_throw (e : RequestError) : Mirrors (throw e : Action α β) (throw e) := .done _

theorem mirrors_liftExcept (e : Except RequestError β) :
    Mirrors (liftExcept e : Action α β) (liftExcept e) := by
  cases e <;> exact .done _

theorem mirrors_lift {p q : Program α β} (hp : p.Mirrors q) :
    Mirrors (liftM p : Action α β) (liftM q) := hp.bind fun _ => .done _

theorem Mirrors.bind {x y : Action α β} {f g : β → Action α γ} (hx : Mirrors x y)
    (hf : ∀ b, Mirrors (f b) (g b)) : Mirrors (x >>= f) (y >>= g) := by
  unfold Mirrors
  rw [ExceptT.run_bind, ExceptT.run_bind]
  refine Program.Mirrors.bind hx fun a => ?_
  cases a with
  | ok b => exact hf b
  | error e => exact .done _

theorem mirrors_ite {c : Prop} [Decidable c] {x y x' y' : Action α β} (hx : Mirrors x x')
    (hy : Mirrors y y') : Mirrors (if c then x else y) (if c then x' else y') := by
  split
  · exact hx
  · exact hy

end Action

namespace Repository

variable {r : Repository α}

def uncached (r : Repository α) : Repository α := { r with hasCache := false }

theorem usesCache_uncached (r : Repository α) : r.uncached.usesCache = false := by
  simp [usesCache, uncached]

theorem mirrors_ask (c : StoreCall α) : Action.Mirrors (ask c) (ask c) := by
  refine (Action.mirrors_lift (Program.mirrors_askStore c)).bind fun a => ?_
  cases a with
  | ok a => exact Action.mirrors_pure a
  | error e => exact Action.mirrors_throw _

theorem mirrors_fetch (id : Id) (preloads : List String) (v : Visibility) :
    Action.Mirrors (r.fetch id preloads v) (r.uncached.fetch id preloads v) := by
  refine (mirrors_ask (.find id preloads v)).bind fun found => ?_
  cases found with
  | none => exact Action.mirrors_throw _
  | some x => exact Action.mirrors_pure x

theorem mirrors_invalidate (id : Id) :
    Action.Mirrors (liftM (r.invalidate id) : Action α Unit) (liftM (r.uncached.invalidate id)) := by
  have hnone : r.uncached.invalidate id = .done () := by
    simp only [invalidate, usesCache_uncached]
    rfl
  rw [hnone]
  refine Action.mirrors_lift ?_
  unfold invalidate
  split
  · exact Program.mirrors_askCache _ fun _ => .done ()
  · exact .done ()

theorem mirrors_settle (id : Id) (affected : UInt64) :
    Action.Mirrors (r.settle id affected) (r.uncached.settle id affected) :=
  Action.mirrors_ite (Action.mirrors_throw _)
    ((mirrors_invalidate id).bind fun _ => mirrors_fetch id [] .active)

def isLookup : Operation α → Bool
  | .get _ | .getById _ => true
  | _ => false

theorem mirrors_action {op : Operation α} (hop : isLookup op = false) :
    Action.Mirrors (op.action r) (op.action r.uncached) := by
  cases op with
  | get | getById => cases hop
  | create x =>
    refine Action.mirrors_ite ?_ (Action.mirrors_throw _)
    exact (mirrors_ask _).bind fun created =>
      Action.mirrors_ite (Action.mirrors_throw _) (Action.mirrors_pure created)
  | first q =>
    refine (Action.mirrors_liftExcept _).bind fun query => (mirrors_ask _).bind fun found => ?_
    cases found with
    | nil => exact Action.mirrors_throw _
    | cons x rest => exact Action.mirrors_pure x
  | list q => exact (Action.mirrors_liftExcept _).bind fun query => mirrors_ask _
  | page q =>
    refine (Action.mirrors_liftExcept _).bind fun query => (mirrors_ask (.count query)).bind
      fun (total : UInt64) => ?_
    exact Action.mirrors_ite ((mirrors_ask _).bind fun records => Action.mirrors_pure _)
      (Action.mirrors_pure _)
  | update x id =>
    exact (Action.mirrors_liftExcept _).bind fun _ => (mirrors_ask _).bind fun n =>
      mirrors_settle id n
  | updateFields x fields =>
    exact (Action.mirrors_liftExcept _).bind fun _ => (mirrors_ask _).bind fun n =>
      mirrors_settle _ n
  | remove id =>
    exact (Action.mirrors_liftExcept _).bind fun _ => (mirrors_ask _).bind fun _ =>
      (mirrors_invalidate id).bind fun _ => mirrors_fetch id [] .all
  | restore id =>
    exact (Action.mirrors_liftExcept _).bind fun _ => (mirrors_ask _).bind fun _ =>
      (mirrors_invalidate id).bind fun _ => mirrors_fetch id [] .active
  | destroy id =>
    exact (Action.mirrors_liftExcept _).bind fun _ => (mirrors_ask _).bind fun _ =>
      mirrors_invalidate id

theorem mirrors_stored (key : String) (q : IdRequest) :
    Action.Mirrors (do
        let x ← r.fetch q.id q.preloads .active
        (r.writeCached key x : Program α Unit)
        return x)
      (r.uncached.fetch q.id q.preloads .active) := by
  have hwrite (x : α) : (r.writeCached key x).Mirrors (.done ()) := by
    unfold writeCached
    split
    · exact Program.mirrors_askCache _ fun _ => .done ()
    · exact .done ()
  have hfetch := (mirrors_fetch (r := r) q.id q.preloads .active).bind fun x =>
    (Action.mirrors_lift (hwrite x)).bind fun _ => Action.mirrors_pure x
  have hpure : (r.uncached.fetch q.id q.preloads .active >>= fun x =>
      (liftM (Program.done () : Program α Unit) : Action α Unit) >>= fun _ => pure x) =
      r.uncached.fetch q.id q.preloads .active := bind_pure _
  rwa [hpure] at hfetch

end Repository

end Recordkeeper
