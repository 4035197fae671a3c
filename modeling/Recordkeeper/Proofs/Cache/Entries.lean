import Recordkeeper.Cache.Locked

set_option autoImplicit false

namespace Recordkeeper.ExpiringCache

variable {now : Nat} {c : ExpiringCache}

theorem mem_of_mem_get {key : String} {e : String × CacheEntry}
    (h : e ∈ (c.get now key).2.entries) : e ∈ c.entries := by
  unfold get at h
  split at h
  · exact h
  · split at h
    · exact h
    · exact (List.mem_filter.1 h).1

theorem mem_of_mem_keep {key text : String} {expires : Nat} {e : String × CacheEntry}
    (h : e ∈ (c.keep key text expires).entries) :
    (e.1 = key ∧ e.2.text = text) ∨ e ∈ c.entries := by
  rcases List.mem_cons.1 h with rfl | h
  · exact .inl ⟨rfl, rfl⟩
  · exact .inr (List.mem_filter.1 h).1

theorem mem_of_mem_purge {base : String} {e : String × CacheEntry}
    (h : e ∈ (c.purge now base).2.entries) :
    e ∈ c.entries ∧ CacheKey.covers base e.1 = false := by
  obtain ⟨hm, hp⟩ := List.mem_filter.1 h
  simp only [Bool.and_eq_true, Bool.not_eq_true'] at hp
  exact ⟨hm, hp.1⟩

theorem mem_of_get {key text : String} (h : (c.get now key).1 = some text) :
    ∃ e ∈ c.entries, e.1 = key ∧ e.2.text = text := by
  unfold get at h
  split at h
  · cases h
  · next e he =>
    obtain ⟨l, r, hl, -⟩ := List.lookup_eq_some_iff.1 he
    split at h
    · exact ⟨(key, e), by simp [hl], rfl, Option.some.inj h⟩
    · cases h

def Keyed (c : ExpiringCache) : Prop := (c.entries.map (·.1)).Nodup

theorem Keyed.filter (h : c.Keyed) (p : String × CacheEntry → Bool) :
    Keyed { entries := c.entries.filter p } := h.sublist (List.filter_sublist.map _)

theorem Keyed.keep (h : c.Keyed) (key text : String) (expires : Nat) :
    (c.keep key text expires).Keyed := by
  refine List.nodup_cons.2 ⟨fun hm => ?_, h.filter fun e => e.1 != key⟩
  obtain ⟨e, he, hkey⟩ := List.mem_map.1 hm
  simp [hkey] at he

theorem Keyed.get (h : c.Keyed) (now : Nat) (key : String) : (c.get now key).2.Keyed := by
  unfold ExpiringCache.get
  split
  · exact h
  · split
    · exact h
    · exact h.filter _

theorem Keyed.purge (h : c.Keyed) (now : Nat) (base : String) : (c.purge now base).2.Keyed :=
  h.filter _

theorem lookup_filter (h : c.Keyed) (key : String) (p : String × CacheEntry → Bool) :
    (c.entries.filter p).lookup key = (c.entries.lookup key).filter fun e => p (key, e) := by
  obtain ⟨entries⟩ := c
  induction entries with
  | nil => rfl
  | cons e entries ih =>
    obtain ⟨k, v⟩ := e
    obtain ⟨hk, hr⟩ := List.nodup_cons.1 h
    specialize ih hr
    by_cases hkey : key = k
    · subst hkey
      by_cases hp : p (key, v)
      · simp [hp, Option.filter]
      · have hnone : (entries.filter p).lookup key = none := by
          refine List.lookup_eq_none_iff.2 fun e he => ?_
          have hne : e.1 ≠ key := fun h => hk (List.mem_map.2 ⟨e, (List.mem_filter.1 he).1, h⟩)
          simpa using Ne.symm hne
        simp [hp, hnone, Option.filter]
    · by_cases hp : p (k, v) <;> simp [hp, List.lookup_cons, beq_false_of_ne hkey, ih]

theorem get_eq_filter (key : String) :
    (c.get now key).1 = ((c.entries.lookup key).filter (isLive now)).map (·.text) := by
  unfold get
  cases c.entries.lookup key with
  | none => rfl
  | some e =>
    simp only [Option.filter]
    split <;> rfl

theorem isLive_of_le {later : Nat} (h : now ≤ later) {e : CacheEntry} (he : isLive later e = true) :
    isLive now e = true := by
  simp only [isLive, decide_eq_true_eq] at he ⊢
  omega

theorem get_filter (h : c.Keyed) {p : String × CacheEntry → Bool} {key : String} {later : Nat}
    (hp : ∀ e, c.entries.lookup key = some e → isLive later e = true → p (key, e) = true) :
    (get later { entries := c.entries.filter p } key).1 = (c.get later key).1 := by
  rw [get_eq_filter, get_eq_filter, lookup_filter h]
  cases he : c.entries.lookup key with
  | none => rfl
  | some e =>
    by_cases hlive : isLive later e
    · simp [Option.filter, hlive, hp e he hlive]
    · by_cases hq : p (key, e) <;> simp [Option.filter, hlive, hq]

theorem get_snd (now : Nat) (c : ExpiringCache) (key : String) :
    (c.get now key).2 = c ∨ ∃ e, c.entries.lookup key = some e ∧ isLive now e = false ∧
      (c.get now key).2 = { entries := c.entries.filter (·.1 != key) } := by
  unfold get
  cases c.entries.lookup key with
  | none => exact .inl rfl
  | some e =>
    by_cases hlive : isLive now e
    · simp [hlive]
    · exact .inr ⟨e, rfl, by simpa using hlive, by simp [hlive]⟩

theorem get_get (h : c.Keyed) (key other : String) {later : Nat} (hlater : now ≤ later) :
    ((c.get now key).2.get later other).1 = (c.get later other).1 := by
  rcases get_snd now c key with hs | ⟨e, he, hdead, hs⟩
  · rw [hs]
  · rw [hs]
    refine get_filter h fun e' he' hlive => ?_
    by_cases ho : other = key
    · subst ho
      obtain rfl : e = e' := Option.some.inj (he.symm.trans he')
      simp [isLive_of_le hlater hlive] at hdead
    · simpa using ho

theorem get_purge (h : c.Keyed) {base key : String} (hkey : CacheKey.covers base key = false)
    {later : Nat} (hlater : now ≤ later) :
    ((c.purge now base).2.get later key).1 = (c.get later key).1 :=
  get_filter h fun e _ hlive => by simp [hkey, isLive_of_le hlater hlive]

theorem lookup_drop (h : c.Keyed) {key other : String} (ho : other ≠ key) :
    (c.entries.filter (·.1 != key)).lookup other = c.entries.lookup other := by
  rw [lookup_filter h]
  cases c.entries.lookup other with
  | none => rfl
  | some e => simp [Option.filter, ho]

theorem lookup_keep (h : c.Keyed) (key other text : String) (expires : Nat) :
    (c.keep key text expires).entries.lookup other =
      if other = key then some ⟨text, expires⟩ else c.entries.lookup other := by
  by_cases ho : other = key
  · simp [keep, ho]
  · simp [keep, List.lookup_cons, ho, beq_false_of_ne ho, lookup_drop h ho]

theorem lookup_purge (h : c.Keyed) (base key : String) :
    (c.purge now base).2.entries.lookup key =
      (c.entries.lookup key).filter fun e => !CacheKey.covers base key && isLive now e :=
  lookup_filter h key _

theorem get_purge_of_covers (h : c.Keyed) {base key : String}
    (hkey : CacheKey.covers base key = true) (later : Nat) :
    ((c.purge now base).2.get later key).1 = none := by
  rw [get_eq_filter, lookup_purge h]
  cases c.entries.lookup key with
  | none => rfl
  | some e => simp [Option.filter, hkey]

theorem lookup_get_of_ne (h : c.Keyed) {key other : String} (ho : other ≠ key) :
    (c.get now key).2.entries.lookup other = c.entries.lookup other := by
  rcases get_snd now c key with hs | ⟨e, -, -, hs⟩
  · rw [hs]
  · rw [hs, lookup_drop h ho]

/-- The entry of a key is as it was, or gone after its time. -/
def Keeps (now : Nat) (key : String) (c c' : ExpiringCache) : Prop :=
  c'.entries.lookup key = c.entries.lookup key ∨
    c'.entries.lookup key = (c.entries.lookup key).filter (isLive now)

theorem Keeps.trans {key : String} {c' c'' : ExpiringCache} (h : Keeps now key c c')
    (h' : Keeps now key c' c'') : Keeps now key c c'' := by
  rcases h with h | h <;> rcases h' with h' | h' <;> rw [h] at h'
  · exact .inl h'
  · exact .inr h'
  · exact .inr h'
  · exact .inr (by rw [h', Option.filter_filter]; simp)

/-- What is kept at one moment is found alike later, and from any moment on at which it is found
as it is then. -/
theorem Keeps.get {key : String} {c' : ExpiringCache} (h : Keeps now key c c') {since later : Nat}
    (hsince : (c.get since key).1 = (c.get now key).1) (hlater : since ≤ later) :
    (c'.get later key).1 = (c.get later key).1 := by
  rw [get_eq_filter, get_eq_filter] at hsince ⊢
  rcases h with h | h
  · rw [h]
  · rw [h]
    cases he : c.entries.lookup key with
    | none => rfl
    | some e =>
      rw [he] at hsince
      by_cases hlive : isLive later e
      · have hs := isLive_of_le hlater hlive
        by_cases hn : isLive now e
        · simp [Option.filter, hn]
        · simp [Option.filter, hs, hn] at hsince
      · by_cases hn : isLive now e <;> simp [Option.filter, hlive, hn]

theorem get_keep (h : c.Keyed) {c' : ExpiringCache} (h' : c'.Keyed) (key text : String)
    (expires : Nat) {other : String} {later : Nat}
    (hsame : (c.get later other).1 = (c'.get later other).1) :
    ((c.keep key text expires).get later other).1 = ((c'.keep key text expires).get later other).1 := by
  rw [get_eq_filter, get_eq_filter] at hsame ⊢
  rw [lookup_keep h, lookup_keep h']
  split
  · rfl
  · exact hsame

end Recordkeeper.ExpiringCache

namespace Recordkeeper

namespace CacheCall

def Within (base : String) : CacheCall → Prop
  | .get key | .set key .. => CacheKey.covers base key = true
  | .purge b => b = base

def Fits (now : Nat) : CacheCall → Prop
  | .set _ _ life => (Clock.after? now life).isSome
  | _ => True

end CacheCall

namespace LockedCache

def find (now : Nat) (c : LockedCache) (key : String) : Except CacheError (Option String) :=
  (c.answer now (.get key)).1

def Keyed (c : LockedCache) : Prop := (c.entries.map (·.1)).Nodup

variable {now : Nat} {c : LockedCache} {q : CacheCall} {base key : String}

theorem mem_of_mem_get {e : String × CacheEntry} (h : e ∈ (c.answer now (.get key)).2.entries) :
    e ∈ c.entries := by
  cases c with
  | sound c => exact ExpiringCache.mem_of_mem_get h
  | poisoned => exact h

theorem mem_of_mem_set {text : String} {life : Duration} {e : String × CacheEntry}
    (h : e ∈ (c.answer now (.set key text life)).2.entries) :
    (e.1 = key ∧ e.2.text = text) ∨ e ∈ c.entries := by
  cases c with
  | sound c =>
    simp only [answer, answer?] at h
    cases hend : Clock.after? now life with
    | some expires =>
      rw [hend] at h
      exact ExpiringCache.mem_of_mem_keep h
    | none =>
      rw [hend] at h
      cases h
  | poisoned => exact .inr h

theorem mem_of_mem_purge {e : String × CacheEntry} (h : e ∈ (c.answer now (.purge base)).2.entries) :
    e ∈ c.entries ∧ CacheKey.covers base e.1 = false := by
  cases c with
  | sound c => exact ExpiringCache.mem_of_mem_purge h
  | poisoned => cases h

theorem mem_of_find {text : String} (h : c.find now key = .ok (some text)) :
    ∃ e ∈ c.entries, e.1 = key ∧ e.2.text = text := by
  cases c with
  | sound c => exact ExpiringCache.mem_of_get (Except.ok.inj h)
  | poisoned => cases h

theorem Keyed.answer (h : c.Keyed) (now : Nat) (q : CacheCall) : (c.answer now q).2.Keyed := by
  cases c with
  | sound c =>
    cases q with
    | get key => exact ExpiringCache.Keyed.get h now key
    | set key text life =>
      simp only [LockedCache.answer, answer?]
      cases Clock.after? now life with
      | some expires => exact ExpiringCache.Keyed.keep h ..
      | none => exact List.nodup_nil
    | purge base => exact ExpiringCache.Keyed.purge h now base
  | poisoned => cases q <;> exact h

theorem find_get (h : c.Keyed) (key other : String) {later : Nat} (hlater : now ≤ later) :
    (c.answer now (.get key)).2.find later other = c.find later other := by
  cases c with
  | sound c => exact congrArg Except.ok (ExpiringCache.get_get h key other hlater)
  | poisoned => rfl

theorem find_purge (h : c.Keyed) (hkey : CacheKey.covers base key = false) {later : Nat}
    (hlater : now ≤ later) : (c.answer now (.purge base)).2.find later key = c.find later key := by
  cases c with
  | sound c => exact congrArg Except.ok (ExpiringCache.get_purge h hkey hlater)
  | poisoned => rfl

theorem find_purge_of_none (h : c.Keyed) (hkey : CacheKey.covers base key = true) {later : Nat}
    (hnone : ∀ text, c.find later key ≠ .ok (some text)) :
    (c.answer now (.purge base)).2.find later key = c.find later key := by
  cases c with
  | sound c =>
    have hget : (c.get later key).1 = none := by
      cases hfound : (c.get later key).1 with
      | none => rfl
      | some text => exact absurd (congrArg Except.ok hfound) (hnone text)
    exact congrArg Except.ok ((ExpiringCache.get_purge_of_covers h hkey later).trans hget.symm)
  | poisoned => rfl

/-- The lock is as it was, and so is the entry of a key, if it is not gone after its time. -/
inductive Keeps (now : Nat) (key : String) : LockedCache → LockedCache → Prop where
  | sound {c c' : ExpiringCache} : ExpiringCache.Keeps now key c c' →
      Keeps now key (.sound c) (.sound c')
  | poisoned : Keeps now key .poisoned .poisoned

theorem keeps_self (now : Nat) (key : String) (c : LockedCache) : Keeps now key c c := by
  cases c with
  | sound c => exact .sound (.inl rfl)
  | poisoned => exact .poisoned

theorem Keeps.trans {c' c'' : LockedCache} (h : Keeps now key c c') (h' : Keeps now key c' c'') :
    Keeps now key c c'' := by
  cases h with
  | sound h =>
    cases h' with
    | sound h' => exact .sound (h.trans h')
  | poisoned => exact h'

theorem Keeps.find {c' : LockedCache} (h : Keeps now key c c') {since later : Nat}
    (hsince : c.find since key = c.find now key) (hlater : since ≤ later) :
    c'.find later key = c.find later key := by
  cases h with
  | sound h => exact congrArg Except.ok (h.get (Except.ok.inj hsince) hlater)
  | poisoned => rfl

theorem answer_keeps (h : c.Keyed) (hq : q.Within base) (hfits : q.Fits now)
    (hkey : CacheKey.covers base key = false) : Keeps now key c (c.answer now q).2 := by
  have hne {given : String} (hg : CacheKey.covers base given = true) : key ≠ given := by
    rintro rfl
    simp [hg] at hkey
  cases c with
  | sound c =>
    cases q with
    | get given => exact .sound (.inl (ExpiringCache.lookup_get_of_ne h (hne hq)))
    | set given text life =>
      obtain ⟨expires, hend⟩ := Option.isSome_iff_exists.1 hfits
      simp only [answer, answer?, hend]
      exact .sound (.inl (by rw [ExpiringCache.lookup_keep h, if_neg (hne hq)]))
    | purge b =>
      obtain rfl : b = base := hq
      exact .sound (.inr (by simp [ExpiringCache.lookup_purge h, hkey]))
  | poisoned => cases q <;> exact .poisoned

/-- From caches in which the entries under a base key are found alike, calls for such entries find
them alike, and leave them so. -/
theorem answer_congr {c' : LockedCache} (h : c.Keyed) (h' : c'.Keyed) (hq : q.Within base)
    (hsame : ∀ key, CacheKey.covers base key = true → ∀ later, now ≤ later →
      c.find later key = c'.find later key) :
    (∀ key, q = .get key → c.find now key = c'.find now key) ∧
      ∀ key, CacheKey.covers base key = true → ∀ later, now ≤ later →
        (c.answer now q).2.find later key = (c'.answer now q).2.find later key := by
  have hbase := hsame base (by simp [CacheKey.covers]) now (Nat.le_refl now)
  cases c with
  | poisoned =>
    cases c' with
    | poisoned => exact ⟨fun _ _ => rfl, fun _ _ _ _ => rfl⟩
    | sound c' => cases hbase
  | sound c =>
    cases c' with
    | poisoned => cases hbase
    | sound c' =>
      cases q with
      | get given =>
        refine ⟨fun key hkey => ?_, fun key hkey later hlater => ?_⟩
        · obtain rfl := CacheCall.get.inj hkey
          exact hsame _ hq now (Nat.le_refl now)
        · rw [find_get h _ _ hlater, find_get h' _ _ hlater]
          exact hsame key hkey later hlater
      | set given text life =>
        refine ⟨nofun, fun key hkey later hlater => ?_⟩
        simp only [answer, answer?]
        cases Clock.after? now life with
        | none => rfl
        | some expires =>
          have hold := Except.ok.inj (hsame key hkey later hlater)
          exact congrArg Except.ok (ExpiringCache.get_keep h h' given text expires hold)
      | purge b =>
        obtain rfl : b = base := hq
        refine ⟨nofun, fun key hkey later _ => congrArg Except.ok ?_⟩
        exact (ExpiringCache.get_purge_of_covers h hkey later).trans
          (ExpiringCache.get_purge_of_covers h' hkey later).symm

end LockedCache

end Recordkeeper
