import Recordkeeper.Proofs.Operation

/-!
When an operation is broken off by the cache beside it: where it would keep a record beyond the last
reading of the clock. Nothing else takes the lock of the cache away.
-/

set_option autoImplicit false

namespace Recordkeeper

variable {α β : Type}

theorem LockedCache.answer_poisoned {now : Nat} {c : LockedCache} {life : Duration} {q : CacheCall}
    (hq : q.Lasts life) : (c.answer now q).2 = .poisoned ↔
      c = .poisoned ∨ (Clock.after? now life = none ∧ ∃ key text, q = .set key text life) := by
  cases c with
  | poisoned => cases q <;> simp [answer, answer?]
  | sound c =>
    cases q with
    | get | purge => simp [answer, answer?]
    | set key text given =>
      obtain rfl : given = life := hq
      cases hend : Clock.after? now given <;> simp [answer, answer?, hend]

theorem Memory.answer_poisoned (E : EntityType α) (script : FaultScript) {life : Duration}
    {c : Call α} (hc : ∀ q, c = .cache q → q.Lasts life) (m : Memory) :
    ((faulty E script).answer c m).2.cache = .poisoned ↔
      m.cache = .poisoned ∨ (Clock.after? m.now.ticks life = none ∧
        script.find? "cache" "set" = none ∧ ∃ key text, c = .cache (.set key text life)) := by
  cases c with
  | store c =>
    simp only [Handler.answer]
    rcases store_faulty E script c m with ⟨fault, hf⟩ | hrun
    · simp [hf]
    · simp [hrun]
  | cache q =>
    simp only [Handler.answer, faulty, Handler.withFaults]
    split
    · next fault hfault =>
      refine ⟨.inl, fun h => h.resolve_right ?_⟩
      rintro ⟨-, hnone, key, text, hset⟩
      obtain rfl := Call.cache.inj hset
      exact absurd hnone (by simp [show script.find? "cache" "set" = some fault from hfault])
    · next hnone =>
      refine (LockedCache.answer_poisoned (hc q rfl)).trans (or_congr_right ?_)
      refine and_congr_right fun _ => ⟨?_, ?_⟩
      · rintro ⟨key, text, rfl⟩
        exact ⟨hnone, key, text, rfl⟩
      · rintro ⟨-, key, text, hset⟩
        exact ⟨key, text, Call.cache.inj hset⟩

theorem Memory.answer_now (E : EntityType α) (script : FaultScript) (c : Call α) (m : Memory) :
    ((faulty E script).answer c m).2.now = m.now := by
  cases c with
  | store c =>
    simp only [Handler.answer]
    rcases store_faulty E script c m with ⟨fault, hf⟩ | hrun
    · rw [hf]
    · rw [hrun]
  | cache q => exact (cache_alike E script q m).now

theorem Program.run_poisoned {E : EntityType α} {script : FaultScript} {life : Duration}
    {p : Program α β} (hp : p.Makes fun c => ∀ q, c = .cache q → q.Lasts life) (m : Memory) :
    (p.run (Memory.faulty E script) m).2.cache = .poisoned ↔
      m.cache = .poisoned ∨ (Clock.after? m.now.ticks life = none ∧
        script.find? "cache" "set" = none ∧
        ∃ key text a, ⟨.cache (.set key text life), a⟩ ∈ p.exchanges (Memory.faulty E script) m) := by
  induction p generalizing m with
  | done b => simp [run, exchanges]
  | ask c next ih =>
    simp only [run, exchanges]
    rw [ih _ (hp.2 _), Memory.answer_poisoned E script hp.1, Memory.answer_now, or_assoc]
    refine or_congr_right ?_
    rw [← and_or_left, ← and_or_left]
    refine and_congr_right fun _ => and_congr_right fun _ => ⟨?_, ?_⟩
    · rintro (⟨key, text, rfl⟩ | ⟨key, text, a, he⟩)
      · exact ⟨key, text, _, List.mem_cons_self⟩
      · exact ⟨key, text, a, List.mem_cons_of_mem _ he⟩
    · rintro ⟨key, text, a, he⟩
      rcases List.mem_cons.1 he with he | he
      · exact .inl ⟨key, text, (Exchange.mk.inj he).1.symm⟩
      · exact .inr ⟨key, text, a, he⟩

namespace Repository

variable {r : Repository α} {s : Step α} {m : Memory}

/-- The step asks a cache that can be reached to keep a record beyond the last reading of the
clock. -/
structure Overruns (r : Repository α) (s : Step α) (m : Memory) : Prop where
  reached : m.cache ≠ .poisoned ∧ s.faults.find? "cache" "set" = none
  late : Clock.after? s.moment.ticks r.config.cacheTtl = none
  keeps : ∃ key text a, ⟨.cache (.set key text r.config.cacheTtl), a⟩ ∈
    (s.operation.action r).run.exchanges (Memory.faulty r.entity s.faults) { m with now := s.moment }

theorem lasts_action (op : Operation α) :
    Action.Makes (fun c => ∀ q, c = .cache q → q.Lasts r.config.cacheTtl) (op.action r) := by
  refine Program.Makes.mono (makes_action op) fun c hc q hq => ?_
  subst hq
  exact hc.2

theorem perform_poisoned : (r.perform s m).2.cache = .poisoned ↔
    m.cache = .poisoned ∨ (Clock.after? s.moment.ticks r.config.cacheTtl = none ∧
      s.faults.find? "cache" "set" = none ∧
      ∃ key text a, ⟨.cache (.set key text r.config.cacheTtl), a⟩ ∈
        (s.operation.action r).run.exchanges (Memory.faulty r.entity s.faults)
          { m with now := s.moment }) :=
  Program.run_poisoned (lasts_action s.operation) { m with now := s.moment }

theorem answer?_eq_none : r.answer? s m = none ↔ r.Overruns s m := by
  have hif : r.answer? s m = none ↔
      m.cache ≠ .poisoned ∧ (r.perform s m).2.cache = .poisoned := by simp [answer?]
  rw [hif, perform_poisoned]
  constructor
  · rintro ⟨hsound, hpoisoned⟩
    obtain ⟨hlate, hreached, hkeeps⟩ := hpoisoned.resolve_left hsound
    exact ⟨⟨hsound, hreached⟩, hlate, hkeeps⟩
  · rintro ⟨⟨hsound, hreached⟩, hlate, hkeeps⟩
    exact ⟨hsound, .inr ⟨hlate, hreached, hkeeps⟩⟩

theorem answer?_of_not_overruns (h : ¬r.Overruns s m) : r.answer? s m = some (r.perform s m).1 := by
  have hif : ¬(m.cache ≠ .poisoned ∧ (r.perform s m).2.cache = .poisoned) := fun hboth =>
    h (answer?_eq_none.1 (if_pos hboth))
  exact if_neg hif

theorem not_overruns_of_fits
    (h : r.usesCache = true → (Clock.after? s.moment.ticks r.config.cacheTtl).isSome) :
    ¬r.Overruns s m := by
  rintro ⟨-, hlate, key, text, a, he⟩
  have hasks : r.Asks (s.operation.mayAsk r) (.cache (.set key text r.config.cacheTtl)) :=
    (makes_action (r := r) s.operation).of_mem he
  have hfits := h hasks.1
  rw [hlate] at hfits
  cases hfits

theorem not_overruns_uncached (s : Step α) (m : Memory) (h : r.usesCache = false) :
    ¬r.Overruns s m := not_overruns_of_fits fun hu => absurd hu (by simp [h])

end Repository

end Recordkeeper
