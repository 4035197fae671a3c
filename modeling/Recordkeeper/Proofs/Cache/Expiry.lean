import Mathlib.Data.List.Induction
import Recordkeeper.Proofs.Cache.Entries

/-!
Entries that have expired stay in a cache until they happen to be dropped. Beside it stands a plain
map, from which every entry is gone at the moment its time ends. As long as no entry is set beyond the
end of the clock the two answer alike, but for the number of keys that a purge reports: the cache
counts the expired entries that were left over under the base key.
-/

set_option autoImplicit false

namespace Recordkeeper

inductive CacheUse where
  | get (key : String)
  | set (key text : String) (life : Duration)
  | purge (base : String)
  | contains (key : String)
  | size

namespace CacheUse

abbrev Result : CacheUse → Type
  | get _ => Option String
  | set .. => Unit
  | purge _ => UInt64
  | contains _ => Bool
  | size => Nat

abbrev Answer (u : CacheUse) : Type := Option (Except CacheError u.Result)

def refusal : (u : CacheUse) → u.Answer
  | get _ => some (.error (LockedCache.refused "read"))
  | set .. => some (.error (LockedCache.refused "write"))
  | purge _ => some (.error (LockedCache.refused "write"))
  | contains _ => some (.ok false)
  | size => some (.ok 0)

end CacheUse

structure TimedUse where
  now : Nat
  use : CacheUse

def TimedUse.fits (s : TimedUse) : Bool :=
  match s.use with
  | .set _ _ life => (Clock.after? s.now life).isSome
  | _ => true

namespace LockedCache

def use (now : Nat) (c : LockedCache) : (u : CacheUse) → u.Answer × LockedCache
  | .get key => c.answer? now (.get key)
  | .set key text life => c.answer? now (.set key text life)
  | .purge base => c.answer? now (.purge base)
  | .contains key => (some (.ok (c.contains now key)), c)
  | .size => (some (.ok (c.size now)), c)

def after (steps : List TimedUse) : LockedCache :=
  steps.foldl (fun c s => (c.use s.now s.use).2) (.sound {})

def answerAfter (steps : List TimedUse) (s : TimedUse) : s.use.Answer :=
  ((after steps).use s.now s.use).1

/-- How many expired entries are still there under a base key, in the words that purges count by. -/
def leftover (now : Nat) (c : LockedCache) (base : String) : UInt64 :=
  UInt64.ofNat (c.entries.countP fun e => CacheKey.covers base e.1 && !ExpiringCache.isLive now e.2)

end LockedCache

abbrev PlainMap := List (String × CacheEntry)

namespace PlainMap

def sweep (now : Nat) (m : PlainMap) : PlainMap := m.filter fun e => now < e.2.expires

def useSwept (now : Nat) (m : PlainMap) : (u : CacheUse) → u.Result × PlainMap
  | .get key => ((m.lookup key).map (·.text), m)
  | .set key text life => ((), (key, ⟨text, now + life.ticks⟩) :: m.filter (·.1 != key))
  | .purge base => (UInt64.ofNat (m.countP fun e => CacheKey.covers base e.1),
      m.filter fun e => !CacheKey.covers base e.1)
  | .contains key => ((m.lookup key).isSome, m)
  | .size => (m.length, m)

def use (now : Nat) (m : PlainMap) (u : CacheUse) : u.Result × PlainMap :=
  (m.sweep now).useSwept now u

def after (steps : List TimedUse) : PlainMap :=
  steps.foldl (fun m s => (m.use s.now s.use).2) []

def answerAfter (steps : List TimedUse) (s : TimedUse) : s.use.Result :=
  ((after steps).use s.now s.use).1

theorem sweep_sweep {now later : Nat} (h : now ≤ later) (m : PlainMap) :
    (m.sweep now).sweep later = m.sweep later := by
  rw [sweep, sweep, sweep, List.filter_filter]
  refine List.filter_congr fun e _ => ?_
  simp only [Bool.and_eq_left_iff_imp, decide_eq_true_eq]
  omega

theorem sweep_filter (now : Nat) (m : PlainMap) (p : String × CacheEntry → Bool) :
    sweep now (m.filter p) = (m.sweep now).filter p := by
  simp only [sweep, List.filter_filter, Bool.and_comm]

theorem sweep_cons (now : Nat) (e : String × CacheEntry) {m m' : PlainMap}
    (h : m.sweep now = m'.sweep now) : sweep now (e :: m) = sweep now (e :: m') := by
  simp only [sweep, List.filter_cons] at h ⊢
  rw [h]

end PlainMap

namespace ExpiringCache

open PlainMap (sweep)

variable {now : Nat} {c : ExpiringCache} {m : PlainMap}

theorem Keyed.lookup_of_mem (h : c.Keyed) {key : String} {e : CacheEntry}
    (he : (key, e) ∈ c.entries) : c.entries.lookup key = some e := by
  obtain ⟨entries⟩ := c
  induction entries with
  | nil => cases he
  | cons d entries ih =>
    obtain ⟨k, v⟩ := d
    obtain ⟨hk, hentries⟩ := List.nodup_cons.1 h
    rcases List.mem_cons.1 he with heq | he
    · obtain ⟨rfl, rfl⟩ := Prod.mk.injEq .. ▸ heq
      exact List.lookup_cons_self
    · have hne : key ≠ k := fun heq => hk (List.mem_map.2 ⟨_, he, heq⟩)
      rw [List.lookup_cons, beq_false_of_ne hne]
      exact ih hentries he

theorem lookup_sweep (h : c.Keyed) (now : Nat) (key : String) :
    (sweep now c.entries).lookup key = (c.entries.lookup key).filter (isLive now) :=
  lookup_filter h key _

theorem sweep_get (h : c.Keyed) (now : Nat) (key : String) :
    sweep now (c.get now key).2.entries = sweep now c.entries := by
  rcases get_snd now c key with hs | ⟨e, he, hdead, hs⟩
  · rw [hs]
  · rw [hs, sweep, sweep, List.filter_filter]
    refine List.filter_congr fun d hd => ?_
    simp only [Bool.and_eq_left_iff_imp, bne_iff_ne, ne_eq]
    rintro hlive rfl
    obtain rfl := Option.some.inj ((h.lookup_of_mem hd).symm.trans he)
    exact absurd (hdead.symm.trans hlive) nofun

theorem sweep_purge (now : Nat) (c : ExpiringCache) (base : String) :
    sweep now (c.purge now base).2.entries =
      (sweep now c.entries).filter fun e => !CacheKey.covers base e.1 := by
  simp only [purge, sweep, List.filter_filter]
  refine List.filter_congr fun e _ => ?_
  simp only [isLive]
  cases decide (now < e.2.expires) <;> simp

/-- The map holds what is live in the cache. -/
structure Shows (now : Nat) (c : ExpiringCache) (m : PlainMap) : Prop where
  keyed : c.Keyed
  live : m.sweep now = sweep now c.entries

theorem Shows.mono {later : Nat} (h : Shows now c m) (hlater : now ≤ later) : Shows later c m where
  keyed := h.keyed
  live := by rw [← PlainMap.sweep_sweep hlater m, h.live, PlainMap.sweep_sweep hlater]

theorem Shows.swept (h : Shows now c m) : sweep now (m.sweep now) = sweep now c.entries := by
  rw [PlainMap.sweep_sweep (Nat.le_refl now), h.live]

theorem Shows.set (h : Shows now c m) (key text : String) (life : Duration) :
    Shows now (c.keep key text (now + life.ticks)) (m.use now (.set key text life)).2 := by
  refine ⟨h.keyed.keep .., PlainMap.sweep_cons now _ ?_⟩
  rw [PlainMap.sweep_filter, PlainMap.sweep_filter, h.swept]

theorem Shows.purge (h : Shows now c m) (base : String) :
    Shows now (c.purge now base).2 (m.use now (.purge base)).2 := by
  refine ⟨h.keyed.purge now base, (PlainMap.sweep_filter ..).trans ?_⟩
  rw [h.swept, ← sweep_purge]

theorem countP_sweep (now : Nat) (entries : PlainMap) (p : String × CacheEntry → Bool) :
    entries.countP p =
      (sweep now entries).countP p + entries.countP fun e => p e && !isLive now e.2 := by
  rw [sweep, List.countP_filter]
  induction entries with
  | nil => rfl
  | cons e entries ih =>
    simp only [List.countP_cons, ih, isLive]
    cases p e <;> cases decide (now < e.2.expires) <;> simp <;> omega

end ExpiringCache

namespace LockedCache

open ExpiringCache (Shows)

variable {now : Nat} {c : ExpiringCache} {m : PlainMap} {u : CacheUse}

theorem use_poisoned (now : Nat) (u : CacheUse) : use now .poisoned u = (u.refusal, .poisoned) := by
  cases u <;> rfl

theorem use_of_not_fits (h : TimedUse.fits ⟨now, u⟩ = false) :
    use now (.sound c) u = (none, .poisoned) := by
  cases u with
  | set key text life =>
    have hend : Clock.after? now life = none := by simpa [TimedUse.fits] using h
    simp only [use, answer?, hend]
    rfl
  | _ => cases h

theorem use_of_fits (h : Shows now c m) (hfits : TimedUse.fits ⟨now, u⟩ = true) :
    ∃ c', (use now (.sound c) u).2 = .sound c' ∧ Shows now c' (m.use now u).2 := by
  cases u with
  | get key =>
    exact ⟨_, rfl, h.keyed.get now key,
      h.swept.trans (ExpiringCache.sweep_get h.keyed now key).symm⟩
  | set key text life =>
    obtain ⟨expires, hend⟩ := Option.isSome_iff_exists.1 hfits
    obtain rfl := Clock.eq_of_after? hend
    refine ⟨c.keep key text (now + life.ticks), ?_, h.set key text life⟩
    simp only [use, answer?, hend]
    rfl
  | purge base => exact ⟨_, rfl, h.purge base⟩
  | contains key | size => exact ⟨c, rfl, h.keyed, h.swept⟩

theorem answer_of_fits (h : Shows now c m) (hfits : TimedUse.fits ⟨now, u⟩ = true)
    (hu : ∀ base, u ≠ .purge base) : (use now (.sound c) u).1 = some (.ok (m.use now u).1) := by
  have hlookup (key : String) : (m.sweep now).lookup key =
      (c.entries.lookup key).filter (ExpiringCache.isLive now) := by
    rw [h.live, ExpiringCache.lookup_sweep h.keyed]
  cases u with
  | get key =>
    have hget : (c.get now key).1 = ((m.sweep now).lookup key).map (·.text) := by
      rw [hlookup, ExpiringCache.get_eq_filter]
    exact congrArg (some ∘ Except.ok) hget
  | set key text life =>
    obtain ⟨expires, hend⟩ := Option.isSome_iff_exists.1 hfits
    simp only [use, answer?, hend]
    rfl
  | purge base => exact absurd rfl (hu base)
  | contains key =>
    have hcontains : c.contains now key = ((m.sweep now).lookup key).isSome := by
      rw [hlookup, ExpiringCache.contains]
      cases c.entries.lookup key with
      | none => rfl
      | some e => cases hlive : ExpiringCache.isLive now e <;> simp [Option.filter, hlive]
    exact congrArg (some ∘ Except.ok) hcontains
  | size =>
    have hsize : c.size now = (m.sweep now).length := by
      rw [h.live]
      exact List.countP_eq_length_filter
    exact congrArg (some ∘ Except.ok) hsize

theorem answer_purge (h : Shows now c m) (base : String) :
    (use now (.sound c) (.purge base)).1 =
      some (.ok ((m.use now (.purge base)).1 + leftover now (.sound c) base : UInt64)) := by
  have hcount : UInt64.ofNat (c.entries.countP fun e => CacheKey.covers base e.1) =
      UInt64.ofNat ((m.sweep now).countP fun e => CacheKey.covers base e.1) +
        leftover now (.sound c) base := by
    rw [h.live, ExpiringCache.countP_sweep now c.entries, UInt64.ofNat_add]
    rfl
  exact congrArg (some ∘ Except.ok) hcount

theorem foldl_poisoned (steps : List TimedUse) :
    steps.foldl (fun c s => (use s.now c s.use).2) .poisoned = .poisoned := by
  induction steps with
  | nil => rfl
  | cons s steps ih => rwa [List.foldl_cons, use_poisoned]

/-- A run leaves a cache that shows itself as the map, or the lock poisoned. -/
theorem run_shows {steps : List TimedUse} {last : Nat} (h : Shows now c m)
    (hsorted : steps.Pairwise (·.now ≤ ·.now)) (hfirst : ∀ s ∈ steps, now ≤ s.now)
    (hlast : ∀ s ∈ steps, s.now ≤ last) (hnow : now ≤ last) :
    ((∀ s ∈ steps, s.fits) → ∃ c',
      steps.foldl (fun c s => (use s.now c s.use).2) (.sound c) = .sound c' ∧
        Shows last c' (steps.foldl (fun m s => (m.use s.now s.use).2) m)) ∧
      ((∃ s ∈ steps, s.fits = false) →
        steps.foldl (fun c s => (use s.now c s.use).2) (.sound c) = .poisoned) := by
  induction steps generalizing now c m with
  | nil => exact ⟨fun _ => ⟨c, rfl, h.mono hnow⟩, fun ⟨_, hs, _⟩ => (List.not_mem_nil hs).elim⟩
  | cons s steps ih =>
    obtain ⟨hs, hsteps⟩ := List.pairwise_cons.1 hsorted
    simp only [List.mem_cons, forall_eq_or_imp, exists_eq_or_imp] at hfirst hlast ⊢
    simp only [List.foldl_cons]
    cases hfits : s.fits with
    | true =>
      obtain ⟨c', hc', hshows⟩ := use_of_fits (h.mono hfirst.1) hfits
      rw [hc']
      simpa using ih hshows hsteps hs hlast.2 hlast.1
    | false =>
      rw [use_of_not_fits hfits, foldl_poisoned]
      simp

variable {steps p : List TimedUse} {s : TimedUse}

theorem after_shows (hsorted : steps.Pairwise (·.now ≤ ·.now)) (hp : p ++ [s] <+: steps) :
    ((∀ s' ∈ p, s'.fits) → ∃ c, after p = .sound c ∧ Shows s.now c (PlainMap.after p)) ∧
      ((∃ s' ∈ p, s'.fits = false) → after p = .poisoned) := by
  obtain ⟨hbefore, -, hs⟩ := List.pairwise_append.1 (hsorted.sublist hp.sublist)
  have hempty : Shows 0 {} [] := ⟨List.nodup_nil, rfl⟩
  exact run_shows hempty hbefore (fun _ _ => Nat.zero_le _)
    (fun e he => hs e he s (List.mem_singleton_self s)) (Nat.zero_le _)

theorem answerAfter_of_fits (hsorted : steps.Pairwise (·.now ≤ ·.now)) (hp : p ++ [s] <+: steps)
    (hfit : ∀ s' ∈ p, s'.fits) (hs : s.fits) (hu : ∀ base, s.use ≠ .purge base) :
    answerAfter p s = some (.ok (PlainMap.answerAfter p s)) := by
  obtain ⟨c, hc, hshows⟩ := (after_shows hsorted hp).1 hfit
  unfold answerAfter
  rw [hc]
  exact answer_of_fits hshows hs hu

theorem answerAfter_of_not_fits (hsorted : steps.Pairwise (·.now ≤ ·.now))
    (hp : p ++ [s] <+: steps) (hfit : ∀ s' ∈ p, s'.fits) (hs : s.fits = false) :
    answerAfter p s = none := by
  obtain ⟨c, hc, -⟩ := (after_shows hsorted hp).1 hfit
  rw [answerAfter, hc, use_of_not_fits hs]

theorem answerAfter_purge (hsorted : steps.Pairwise (·.now ≤ ·.now)) {now : Nat} {base : String}
    (hp : p ++ [⟨now, .purge base⟩] <+: steps) (hfit : ∀ s' ∈ p, s'.fits) :
    answerAfter p ⟨now, .purge base⟩ = some (.ok
      (PlainMap.answerAfter p ⟨now, .purge base⟩ + (after p).leftover now base : UInt64)) := by
  obtain ⟨c, hc, hshows⟩ := (after_shows hsorted hp).1 hfit
  unfold answerAfter
  rw [hc]
  exact answer_purge hshows base

theorem fits_of_answered (hsorted : steps.Pairwise (·.now ≤ ·.now))
    (h : ∀ p s, p ++ [s] <+: steps → (answerAfter p s).isSome) (hp : p <+: steps) :
    ∀ s ∈ p, s.fits := by
  induction p using List.reverseRecOn with
  | nil => exact fun _ hs => (List.not_mem_nil hs).elim
  | append_singleton p s ih =>
    have hbefore := ih (List.IsPrefix.trans (List.prefix_append _ _) hp)
    refine List.forall_mem_append.2 ⟨hbefore, List.forall_mem_singleton.2 ?_⟩
    by_contra hs
    have hnone := answerAfter_of_not_fits hsorted hp hbefore (Bool.eq_false_iff.2 hs)
    have hsome := h p s hp
    rw [hnone] at hsome
    cases hsome

/-- Up to the first entry beyond the end of the clock, all but purges are answered as by the map, and
a purge counts what was left over on top of it; that entry gets no answer, and whatever follows is
refused. So the two answer alike throughout if and only if there is no such entry and no purge meets
an expired one under its base key. -/
theorem answers_alike_iff (steps : List TimedUse) (hsorted : steps.Pairwise (·.now ≤ ·.now)) :
    (∀ p s, p ++ [s] <+: steps → (∀ s' ∈ p, s'.fits) →
      (s.fits → (∀ base, s.use ≠ .purge base) →
        answerAfter p s = some (.ok (PlainMap.answerAfter p s))) ∧
      (s.fits = false → answerAfter p s = none)) ∧
    (∀ p now base, p ++ [⟨now, .purge base⟩] <+: steps → (∀ s' ∈ p, s'.fits) →
      answerAfter p ⟨now, .purge base⟩ = some (.ok
        (PlainMap.answerAfter p ⟨now, .purge base⟩ + (after p).leftover now base : UInt64))) ∧
    (∀ p s, p ++ [s] <+: steps → (∃ s' ∈ p, s'.fits = false) → answerAfter p s = s.use.refusal) ∧
    ((∀ p s, p ++ [s] <+: steps → answerAfter p s = some (.ok (PlainMap.answerAfter p s))) ↔
      (∀ s ∈ steps, s.fits) ∧
        ∀ p now base, p ++ [⟨now, .purge base⟩] <+: steps → (after p).leftover now base = 0) := by
  have hpurge (p now base) (hp : p ++ [⟨now, .purge base⟩] <+: steps) (hfit : ∀ s' ∈ p, s'.fits) :=
    answerAfter_purge hsorted hp hfit
  refine ⟨fun p s hp hfit => ⟨answerAfter_of_fits hsorted hp hfit,
    answerAfter_of_not_fits hsorted hp hfit⟩, hpurge, fun p s hp hpoisoned => ?_, fun h => ?_,
    fun ⟨hfits, hleft⟩ p s hp => ?_⟩
  · rw [answerAfter, (after_shows hsorted hp).2 hpoisoned, use_poisoned]
  · have hfits {p : List TimedUse} (hp : p <+: steps) : ∀ s ∈ p, s.fits :=
      fits_of_answered hsorted (fun p s hp => by rw [h p s hp]; rfl) hp
    refine ⟨hfits (List.prefix_refl _), fun p now base hp => ?_⟩
    have hcount := hpurge p now base hp (hfits (List.IsPrefix.trans (List.prefix_append _ _) hp))
    rw [h p _ hp] at hcount
    exact UInt64.add_eq_left.1 (Except.ok.inj (Option.some.inj hcount)).symm
  · have hbefore : ∀ s' ∈ p, s'.fits := fun s' hs' =>
      hfits s' (hp.subset (List.mem_append_left _ hs'))
    have hs : s.fits := hfits s (hp.subset (List.mem_append_right _ List.mem_cons_self))
    by_cases hbase : ∃ base, s.use = .purge base
    · obtain ⟨now, u⟩ := s
      obtain ⟨base, rfl⟩ := hbase
      rw [hpurge p now base hp hbefore, hleft p now base hp, UInt64.add_zero]
    · exact answerAfter_of_fits hsorted hp hbefore hs fun base hu => hbase ⟨base, hu⟩

def adaAsked : List TimedUse :=
  [⟨0, .set "user:1" "ada" { nanos := 5 }⟩, ⟨6, .get "user:1"⟩, ⟨7, .purge "user"⟩]

theorem answers_adaAsked :
    adaAsked.Pairwise (·.now ≤ ·.now) ∧
      ∀ p s, p ++ [s] <+: adaAsked → answerAfter p s = some (.ok (PlainMap.answerAfter p s)) := by
  have hsorted : adaAsked.Pairwise (·.now ≤ ·.now) := by simp [adaAsked]
  have hfits : ∀ s ∈ adaAsked, s.fits := by decide
  refine ⟨hsorted, (answers_alike_iff adaAsked hsorted).2.2.2.2 ⟨hfits, fun p now base hp => ?_⟩⟩
  obtain ⟨rfl, rfl, rfl⟩ : p = adaAsked.take 2 ∧ now = 7 ∧ base = "user" := by
    rcases p with _ | ⟨a, _ | ⟨b, _ | ⟨d, p⟩⟩⟩ <;> simp_all [adaAsked]
  decide

/-- The purge counts an entry whose time was over before it. -/
theorem not_answers_alike :
    ¬ ∀ steps : List TimedUse, steps.Pairwise (·.now ≤ ·.now) → ∀ p s, p ++ [s] <+: steps →
      answerAfter p s = some (.ok (PlainMap.answerAfter p s)) := by
  intro h
  let kept : List TimedUse := [⟨0, .set "user:1" "ada" {}⟩]
  let purged : TimedUse := ⟨0, .purge "user:1"⟩
  have halike := h (kept ++ [purged]) (by simp [kept, purged]) kept purged (List.prefix_refl _)
  have hcounted : (answerAfter kept purged : Option (Except CacheError UInt64)).map
      Except.toOption = some (some 1) := by decide
  have hshown : (PlainMap.answerAfter kept purged : UInt64) = 0 := by decide
  rw [halike, hshown] at hcounted
  exact absurd hcounted (by decide)

end LockedCache

end Recordkeeper
