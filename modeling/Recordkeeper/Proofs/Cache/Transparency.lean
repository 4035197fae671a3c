import Recordkeeper.Entity.Catalog
import Recordkeeper.Proofs.Cache.Coherence
import Recordkeeper.Proofs.Cache.Mirror
import Recordkeeper.Proofs.Cache.Overrun
import Recordkeeper.Proofs.Entity.Item
import Recordkeeper.Proofs.Json.Text

set_option autoImplicit false

namespace Recordkeeper

variable {α β : Type}

namespace Repository

variable {r : Repository α} {script : FaultScript} {m : Memory}

/-- From memories that differ in the cache alone, actions that mirror each other have one outcome
and end in such memories again. -/
theorem perform_alike {x y : Action α β} (hx : Action.Mirrors x y) {n : Memory}
    (ha : Memory.Alike m n) :
    (Action.perform (Memory.faulty r.entity script) x m).1 =
        (Action.perform (Memory.faulty r.entity script) y n).1 ∧
      Memory.Alike (Action.perform (Memory.faulty r.entity script) x m).2
        (Action.perform (Memory.faulty r.entity script) y n).2 := by
  refine Program.Mirrors.run_related (fun c m n ha => ?_)
    (fun c m n ha => (Memory.cache_alike r.entity script c m).trans ha) hx ha
  simp only [Memory.faulty, Handler.withFaults]
  split
  · exact ⟨rfl, ha⟩
  · simp only [Memory.handler, ha.table, ha.now]
    exact ⟨trivial, rfl, rfl⟩

/-- A lookup answers what the table shows, through a coherent cache as without one. -/
theorem perform_getById (hback : r.usesCache = true → r.entity.ReadsBack) (hs : script.SparesStore)
    (hm : r.Coherent none m) (q : IdRequest) :
    (Action.perform (Memory.faulty r.entity script) (r.getById q) m).1 =
        (r.checkLookup q).bind (fun _ => r.fetched m.table q.id .active) ∧
      Memory.Alike (Action.perform (Memory.faulty r.entity script) (r.getById q) m).2 m := by
  unfold getById
  rw [Action.perform_bind, Action.perform_liftExcept]
  cases r.checkLookup q with
  | error e => exact ⟨rfl, rfl, rfl⟩
  | ok _ =>
    simp only [Except.bind]
    split
    · next hu =>
      unfold fetchThrough
      have hread := leads_readCached script q.id q.preloads m.table m ⟨hm, rfl⟩
      have halike := run_readCached_alike (r := r) script
        (CacheKey.variant r.config.keyPrefix r.entity.name q.id q.preloads) m
      rw [Action.perform_bind, Action.perform_lift]
      generalize (r.readCached (CacheKey.variant r.config.keyPrefix r.entity.name q.id
        q.preloads)).run (Memory.faulty r.entity script) m = answer at hread halike ⊢
      obtain ⟨found, m'⟩ := answer
      cases found with
      | some x =>
        refine ⟨?_, halike⟩
        have hfind := Table.find_active.2 (hread.2 x rfl (hback hu))
        simp [fetched, hfind, Action.perform_pure]
      | none =>
        simp only
        rw [Action.perform_bind, perform_fetch hs, halike.table]
        cases r.fetched m.table q.id .active with
        | error e => exact ⟨rfl, halike⟩
        | ok x =>
          simp only
          rw [Action.perform_bind, Action.perform_lift]
          exact ⟨rfl, (run_writeCached_alike script _ x m').trans halike⟩
    · rw [perform_fetch hs]
      exact ⟨rfl, rfl, rfl⟩

theorem perform_get (hback : r.usesCache = true → r.entity.ReadsBack) (hm : r.Coherent none m)
    (hkeyed : Table.Keyed m.table.rows) (id : Id) (now : Moment) :
    (r.perform ⟨.get id, now, []⟩ m).1 = r.fetched m.table id .active := by
  refine (perform_getById hback FaultScript.sparesStore_nil (hm.at_time now) ⟨id, []⟩).1.trans ?_
  by_cases hid : id = 0
  · have hnone : m.table.get? id = none := by
      cases hget : m.table.get? id with
      | none => rfl
      | some row => exact absurd hid (hkeyed.ne_zero hget)
    simp [checkLookup, hid, Except.bind, fetched, Table.find, hid ▸ hnone]
  · simp [checkLookup, hid, Except.bind, pure, Except.pure]

theorem lookup_alike (hback : r.entity.ReadsBack) (hs : script.SparesStore)
    (hm : r.Coherent none m) {n : Memory} (ha : m.Alike n) (q : IdRequest) :
    (Action.perform (Memory.faulty r.entity script) (r.getById q) m).1 =
        (Action.perform (Memory.faulty r.entity script) (r.uncached.getById q) n).1 ∧
      Memory.Alike (Action.perform (Memory.faulty r.entity script) (r.getById q) m).2
        (Action.perform (Memory.faulty r.entity script) (r.uncached.getById q) n).2 := by
  have hn : Action.perform (Memory.faulty r.entity script) (r.uncached.getById q) n =
      ((r.checkLookup q).bind fun _ => r.fetched n.table q.id .active, n) := by
    unfold getById
    rw [Action.perform_bind, Action.perform_liftExcept]
    have hcheck : r.uncached.checkLookup q = r.checkLookup q := rfl
    rw [hcheck]
    cases r.checkLookup q with
    | error e => rfl
    | ok _ =>
      simp only [usesCache_uncached, Except.bind]
      exact perform_fetch (r := r.uncached) hs q.id q.preloads .active n
  obtain ⟨hanswer, halike⟩ := perform_getById (fun _ => hback) hs hm q
  rw [hn, hanswer, ha.table]
  exact ⟨rfl, halike.trans ha⟩

theorem perform_uncached (hback : r.entity.ReadsBack) {s : Step α} (hs : s.faults.SparesStore)
    (hm : r.Coherent none m) {n : Memory} (ha : m.table = n.table) :
    (r.perform s m).1 = (r.uncached.perform s n).1 ∧
      (r.perform s m).2.table = (r.uncached.perform s n).2.table := by
  have hat : Memory.Alike { m with now := s.moment } { n with now := s.moment } := ⟨ha, rfl⟩
  have hmat := hm.at_time s.moment
  obtain ⟨op, now, script⟩ := s
  unfold perform
  cases hop : isLookup op with
  | false =>
    obtain ⟨hr, h⟩ := perform_alike (mirrors_action hop) hat
    exact ⟨hr, h.table⟩
  | true =>
    cases op with
    | get id =>
      obtain ⟨hr, h⟩ := lookup_alike hback hs hmat hat ⟨id, []⟩
      exact ⟨hr, h.table⟩
    | getById q =>
      obtain ⟨hr, h⟩ := lookup_alike hback hs hmat hat q
      exact ⟨hr, h.table⟩
    | _ => cases hop

theorem after_uncached (hback : r.entity.ReadsBack) {steps : List (Step α)}
    (hp : ∀ s ∈ steps, s.faults.SparesPurge) (hs : ∀ s ∈ steps, s.faults.SparesStore)
    (hm : r.Coherent none m) {n : Memory} (ha : m.table = n.table) :
    (r.after steps m).table = (r.uncached.after steps n).table := by
  induction steps generalizing m n with
  | nil => exact ha
  | cons s steps ih =>
    have hstep := (perform_uncached hback (hs s List.mem_cons_self) hm ha).2
    exact ih (fun s' h => hp s' (List.mem_cons_of_mem _ h))
      (fun s' h => hs s' (List.mem_cons_of_mem _ h))
      (perform_coherent s (hp s List.mem_cons_self) hm) hstep

theorem found_of_getById (hback : r.entity.ReadsBack) (hm : r.Coherent none m) {q : IdRequest}
    {now : Moment} {x : α} (h : (r.perform ⟨.getById q, now, script⟩ m).1 = .ok x) :
    m.table.Found r.entity q.id x := by
  have hends := ends_getById script m.table q { m with now := now } ⟨hm.at_time now, rfl⟩
  exact (hends.of_ok h).2 hback

theorem answer?_uncached_iff (hback : r.entity.ReadsBack) {s : Step α} (hs : s.faults.SparesStore)
    (hm : r.Coherent none m) {n : Memory} (ha : m.table = n.table) :
    r.answer? s m = r.uncached.answer? s n ↔ ¬r.Overruns s m := by
  rw [answer?_of_not_overruns (not_overruns_uncached s n r.usesCache_uncached),
    ← (perform_uncached hback hs hm ha).1]
  constructor
  · intro hsame hover
    rw [answer?_eq_none.2 hover] at hsame
    cases hsame
  · exact answer?_of_not_overruns

/-- In every run in which purges go through, a lookup that answers with a record answers with the
live record of the store. Where the store never fails, an operation answers as it would without a
cache if and only if it is not broken off, which it is where the cache would have to keep a record
beyond the last reading of the clock. -/
theorem cache_transparent (hback : r.entity.ReadsBack) {steps : List (Step α)}
    (hp : ∀ s ∈ steps, s.faults.SparesPurge) (start : Moment) :
    (∀ q now script x,
        (r.perform ⟨.getById q, now, script⟩ (r.after steps (.fresh start))).1 = .ok x →
        (r.after steps (.fresh start)).table.Found r.entity q.id x) ∧
      (∀ id now script x,
        (r.perform ⟨.get id, now, script⟩ (r.after steps (.fresh start))).1 = .ok x →
        (r.after steps (.fresh start)).table.Found r.entity id x) ∧
      ((∀ s ∈ steps, s.faults.SparesStore) → ∀ s : Step α, s.faults.SparesStore →
        (r.answer? s (r.after steps (.fresh start)) =
            r.uncached.answer? s (r.uncached.after steps (.fresh start)) ↔
          ¬r.Overruns s (r.after steps (.fresh start)))) := by
  have hcoherent := after_coherent (r := r) hp start
  refine ⟨fun q now script x h => found_of_getById hback hcoherent h, fun id now script x h =>
    found_of_getById (q := ⟨id, []⟩) hback hcoherent h, fun hs s hstore => ?_⟩
  have htable := after_uncached hback hp hs (coherent_fresh (r := r) start)
    (n := Memory.fresh start) rfl
  exact answer?_uncached_iff hback hstore hcoherent htable

theorem fromTextWith_of_source {columns : List String} {decode : Json → Option α} {s : String}
    {j : Json} (hs : Json.source? s = some j) (hnone : noneRepeated columns j) :
    fromTextWith columns decode s = decode j.canonical := by simp [fromTextWith, hs, hnone]

theorem whole_members (x : Catalog.Item String) :
    (Json.obj (Catalog.Item.members "value" .str x)).Whole Json.maxDepth := by
  refine .obj fun m hm => ?_
  simp only [Catalog.Item.members, List.mem_cons, List.not_mem_nil, or_false] at hm
  rcases hm with rfl | rfl
  · have hlt := x.id.toNat_lt
    refine .int ?_
    simp only [Number.fits, Bool.and_eq_true, decide_eq_true_eq]
    omega
  · exact .str x.value

theorem token_readsBack : Catalog.token.ReadsBack := by
  intro x y text hsnapshot hread
  have hput (v w : Json) : Object.put "value" w [(Column.id, v)] = [(Column.id, v), ("value", w)] := by
    have hne : Column.id ≠ "value" := by decide
    have hlt : ¬ "value" < Column.id := by decide
    rw [Object.put, if_neg hne, if_neg hlt, Object.put]
  have hencode : Catalog.Item.encode "value" Json.str x =
      .obj (Catalog.Item.members "value" .str x) := by
    simp only [Catalog.Item.encode, Object.ofMembers, Object.overlay, List.foldl_cons,
      List.foldl_nil]
    exact congrArg Json.obj (hput (.ofId x.id) (.str x.value))
  have hcanonical : (Json.obj (Catalog.Item.members "value" .str x)).canonical =
      .obj (Catalog.Item.members "value" .str x) := by
    simp only [Json.canonical, Json.canonicalMembers, Catalog.Item.members, Object.put, Json.ofId]
    exact congrArg Json.obj (hput (.ofId x.id) (.str x.value))
  have htext : (Json.obj (Catalog.Item.members "value" .str x)).text = text := by
    rw [← hencode]
    simp only [EntityType.snapshot?, Catalog.token] at hsnapshot
    split at hsnapshot
    · cases hsnapshot
    · exact Option.some.inj hsnapshot
  have hsource := Json.source?_text (whole_members x)
  rw [htext] at hsource
  have hnone : noneRepeated [Column.id, "value"] (.obj (Catalog.Item.members "value" .str x)) := by
    simp [noneRepeated, Catalog.Item.members, Column.id]
  have hdecode : Catalog.Item.decode "value" Json.string?
      (.obj (Catalog.Item.members "value" .str x)) = some y := by
    have hfrom : fromTextWith [Column.id, "value"] (Catalog.Item.decode "value" Json.string?) text =
        Catalog.Item.decode "value" Json.string?
          (Json.obj (Catalog.Item.members "value" .str x)).canonical :=
      fromTextWith_of_source hsource hnone
    rw [← hcanonical]
    exact hfrom.symm.trans hread
  obtain ⟨hid, hvalue⟩ := Catalog.Item.decode_eq_some.1 hdecode
  have hgiven : Object.get? Column.id (Catalog.Item.members "value" Json.str x) =
      some (.ofId x.id) := rfl
  have hsame : x.id = y.id := Option.some.inj ((Column.rewriteId_get? hgiven).symm.trans hid)
  have hvalues : x.value = y.value := Option.some.inj hvalue
  obtain ⟨i, v⟩ := x
  obtain ⟨j, w⟩ := y
  exact congrArg₂ Catalog.Item.mk hsame.symm hvalues.symm

def tokens : Repository (Catalog.Item String) where
  entity := Catalog.token

def tokenChanged : List (Step (Catalog.Item String)) :=
  [⟨.create ⟨0, "a"⟩, .epoch, []⟩, ⟨.get 1, .epoch, []⟩, ⟨.update ⟨1, "b"⟩ 1, .epoch, []⟩,
    ⟨.get 1, .epoch, [("cache.set", .failure (.unavailable "probe"))]⟩, ⟨.get 1, .epoch, []⟩]

theorem found_tokenChanged :
    (tokens.perform ⟨.get 1, .epoch, []⟩ (tokens.after tokenChanged (.fresh .epoch))).1 =
        .ok ⟨1, "b"⟩ ∧
      (tokens.after tokenChanged (.fresh .epoch)).table.Found tokens.entity 1 ⟨1, "b"⟩ ∧
      tokens.answer? ⟨.get 1, .epoch, []⟩ (tokens.after tokenChanged (.fresh .epoch)) =
        tokens.uncached.answer? ⟨.get 1, .epoch, []⟩
          (tokens.uncached.after tokenChanged (.fresh .epoch)) := by
  have hget : (tokens.perform ⟨.get 1, .epoch, []⟩ (tokens.after tokenChanged (.fresh .epoch))).1 =
      .ok ⟨1, "b"⟩ := by
    have h : (Action.perform (Memory.handler tokens.entity) (tokens.get 1)
        (tokens.after tokenChanged (.fresh .epoch))).1 = .ok ⟨1, "b"⟩ := by decide +kernel
    exact h
  have hp : ∀ s ∈ tokenChanged, s.faults.SparesPurge := by
    simp only [tokenChanged, List.forall_mem_cons]
    exact ⟨rfl, rfl, rfl, rfl, rfl, by simp⟩
  have hs : ∀ s ∈ tokenChanged, s.faults.SparesStore := by
    have hne (call : String) : "store." ++ call ≠ "cache.set" := fun h => by
      simpa using congrArg String.toList h
    simp [tokenChanged, FaultScript.SparesStore, FaultScript.find?, hne]
  have hfits : (Clock.after? Moment.epoch.ticks tokens.config.cacheTtl).isSome := by decide +kernel
  obtain ⟨-, hfound, hsame⟩ := cache_transparent (r := tokens) token_readsBack hp .epoch
  exact ⟨hget, hfound 1 .epoch [] _ hget,
    (hsame hs ⟨.get 1, .epoch, []⟩ FaultScript.sparesStore_nil).2 (not_overruns_of_fits fun _ => hfits)⟩

def keptTokens : Repository (Catalog.Item String) where
  entity := Catalog.token
  config := { cacheTtl := .ofSeconds 18446744073709551615 }

/-- The first lookup of a token does not come back. -/
theorem not_transparent_keptTokens :
    keptTokens.answer? ⟨.get 1, .epoch, []⟩
        (keptTokens.after [⟨.create ⟨0, "a"⟩, .epoch, []⟩] (.fresh .epoch)) = none ∧
      (keptTokens.uncached.answer? ⟨.get 1, .epoch, []⟩
        (keptTokens.uncached.after [⟨.create ⟨0, "a"⟩, .epoch, []⟩] (.fresh .epoch))).isSome := by
  constructor <;> decide +kernel

end Repository

end Recordkeeper
