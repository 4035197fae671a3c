import Recordkeeper.Cache.Redis
import Recordkeeper.Proofs.Cache.Entries

/-!
A purge reaches the same keys in either cache. The pattern by which a server is asked for the
variants of a key matches these and nothing else, whatever glob marks the key holds; and a server
that is asked from one cursor to the next, until it names none, has given all of them.
-/

set_option autoImplicit false

namespace Recordkeeper

namespace Text

theorem globParts_literal {c : Char} (h : isGlobMark c = false) (r : List Char) :
    globParts none (c :: r) = .literal c :: globParts none r := by
  simp only [isGlobMark, Bool.or_eq_false_iff, decide_eq_false_iff_not] at h
  obtain ⟨⟨⟨⟨hstar, hmark⟩, hopen⟩, -⟩, hback⟩ := h
  rw [globParts.eq_def]
  split <;> simp_all

/-- Behind an escaped text a pattern goes on as it would alone. -/
theorem globParts_escape (t p : List Char) :
    globParts none (globEscape t ++ p) = t.map .literal ++ globParts none p := by
  induction t with
  | nil => rfl
  | cons c t ih =>
    rw [globEscape]
    split
    · simp [globParts, ih]
    · next h => simp [globParts_literal (by simpa using h), ih]

namespace GlobPart

theorem covers_literals (t : List Char) (ps : List GlobPart) (s : List Char) :
    Covers (t.map .literal ++ ps) s ↔ ∃ rest, s = t ++ rest ∧ Covers ps rest := by
  induction t generalizing s with
  | nil => simp
  | cons c t ih =>
    simp only [List.map_cons, List.cons_append, literal, Covers, ih, beq_iff_eq]
    constructor
    · rintro ⟨_, _, rfl, rfl, rest, rfl, h⟩
      exact ⟨rest, rfl, h⟩
    · rintro ⟨rest, rfl, h⟩
      exact ⟨c, t ++ rest, rfl, rfl, rest, rfl, h⟩

theorem covers_run (s : List Char) : Covers [.run] s :=
  ⟨s, [], (List.append_nil s).symm, rfl⟩

end GlobPart

theorem globMatches_escape (t p s : List Char) :
    GlobMatches (globEscape t ++ p) s ↔ ∃ rest, s = t ++ rest ∧ GlobMatches p rest := by
  rw [GlobMatches, globParts_escape, GlobPart.covers_literals]
  rfl

end Text

namespace CacheKey

theorem isPrefixOf_iff {start key : String} :
    start.toList.isPrefixOf key.toList = true ↔ ∃ rest, key = start ++ rest := by
  rw [List.isPrefixOf_iff_prefix]
  constructor
  · rintro ⟨rest, h⟩
    exact ⟨String.ofList rest, by rw [← String.toList_inj, ← h]; simp⟩
  · rintro ⟨rest, rfl⟩
    exact ⟨rest.toList, by simp⟩

theorem covers_iff {base key : String} :
    covers base key = true ↔ key = base ∨ ∃ rest, key = base ++ ":" ++ rest := by
  rw [covers, Bool.or_eq_true, decide_eq_true_eq, isPrefixOf_iff]

end CacheKey

namespace ExpiringCache

theorem contains_purge {m : ExpiringCache} {now : Nat} (h : m.Keyed) (base key : String) :
    (m.purge now base).2.contains now key = (m.contains now key && !CacheKey.covers base key) := by
  simp only [contains, lookup_purge h]
  cases m.entries.lookup key with
  | none => rfl
  | some e =>
    cases hcovers : CacheKey.covers base key <;> cases hlive : isLive now e <;>
      simp [Option.filter, hlive]

theorem contains_map {now : Nat} {e : CacheEntry} (h : isLive now e = true) (keys : List String)
    (key : String) :
    contains now { entries := keys.map fun k => (k, e) } key = true ↔ key ∈ keys := by
  induction keys with
  | nil => simp [contains]
  | cons k keys ih =>
    by_cases hk : key = k
    · simp [contains, hk, h]
    · simpa [contains, List.lookup_cons, beq_false_of_ne hk, hk] using ih

end ExpiringCache

namespace Redis

theorem globMatches_variantsPattern {base key : String} :
    Text.GlobMatches (variantsPattern base).toList key.toList ↔
      ∃ rest, key = base ++ ":" ++ rest := by
  have hcolon (s : List Char) : Text.GlobMatches [':', '*'] s ↔ ∃ rest, s = ':' :: rest := by
    constructor
    · rintro ⟨c, rest, rfl, hc, -⟩
      exact ⟨rest, by rw [eq_of_beq hc]⟩
    · rintro ⟨rest, rfl⟩
      exact ⟨':', rest, rfl, by decide, Text.GlobPart.covers_run rest⟩
  simp only [variantsPattern, String.toList_ofList, Text.globMatches_escape, hcolon]
  constructor
  · rintro ⟨_, hkey, rest, rfl⟩
    refine ⟨String.ofList rest, ?_⟩
    rw [← String.toList_inj, hkey]
    simp
  · rintro ⟨rest, rfl⟩
    exact ⟨':' :: rest.toList, by simp, _, rfl⟩

inductive Brings : List Reply → List String → Prop where
  | last {r : Reply} {keys : List String} : r.batch? = some (0, keys) → Brings [r] keys
  | more {r : Reply} {next : UInt64} {keys : List String} {replies : List Reply}
      {found : List String} : r.batch? = some (next, keys) → next ≠ 0 → Brings replies found →
      Brings (r :: replies) (keys ++ found)

/-- The commands of one walk with the replies to them: each command asks by the same pattern, from
the cursor that the reply before it named. -/
inductive Walk (pattern : String) : UInt64 → List (Command × Reply) → Prop where
  | last {cursor : UInt64} {count : String} {r : Reply} {keys : List String} :
      r.batch? = some (0, keys) →
      Walk pattern cursor [(["SCAN", toString cursor, "MATCH", pattern, "COUNT", count], r)]
  | more {cursor next : UInt64} {count : String} {r : Reply} {keys : List String}
      {rest : List (Command × Reply)} : r.batch? = some (next, keys) → next ≠ 0 →
      Walk pattern next rest →
      Walk pattern cursor ((["SCAN", toString cursor, "MATCH", pattern, "COUNT", count], r) :: rest)

/-- What a server promises of a walk in full over the keys that it holds: it gives every key that
matches, perhaps more than once, and no other. -/
def Serves (held : List String) (exchanged : List (Command × Reply)) (found : List String) : Prop :=
  ∀ pattern, Walk pattern 0 exchanged →
    ∀ key, key ∈ found ↔ key ∈ held ∧ Text.GlobMatches pattern.toList key.toList

theorem readReply_batch {r : Reply} {next : UInt64} {keys : List String}
    (h : r.batch? = some (next, keys)) :
    readReply "SCAN" Reply.batch? r = .ok (next, keys) := by
  unfold readReply
  split
  · simp [Reply.batch?] at h
  · simp [Reply.batch?] at h
  · simp [h]

theorem scan_of_brings (base : String) {walk : List Reply} {found : List String}
    (h : Brings walk found) (cursor : UInt64) (before : List String) (sent : List Command)
    (rest : List Reply) :
    ∃ scans : List Command, scans.length = walk.length ∧
      Walk (variantsPattern base) cursor (scans.zip walk) ∧
      scan base cursor before sent (walk ++ rest) =
        (.ok (before ++ found), sent ++ scans, rest) := by
  induction h generalizing cursor before sent with
  | @last r keys hr =>
    refine ⟨[scanCommand base cursor], rfl, .last hr, ?_⟩
    simp [scan, readReply_batch hr]
  | @more r next keys replies found hr hnext _ ih =>
    obtain ⟨scans, hlen, hwalk, hscan⟩ :=
      ih next (before ++ keys) (sent ++ [scanCommand base cursor])
    refine ⟨scanCommand base cursor :: scans, by simp [hlen], .more hr hnext hwalk, ?_⟩
    simp [scan, readReply_batch hr, hnext, hscan]

theorem sent_purge (base : String) {c : Connection} {walk rest : List Reply}
    {found : List String} (hopen : c.closed = false) (hreplies : c.replies = walk ++ rest)
    (hbrings : Brings walk found) :
    ∃ scans : List Command, scans.length = walk.length ∧
      Walk (variantsPattern base) 0 (scans.zip walk) ∧
      (answer c (.purge base)).2.sent = c.sent ++ scans ++ [deleteCommand (base :: found)] := by
  obtain ⟨scans, hlen, hwalk, hscan⟩ := scan_of_brings base hbrings 0 [] c.sent rest
  refine ⟨scans, hlen, hwalk, ?_⟩
  simp only [answer, hopen, purge, hreplies, hscan, List.nil_append]
  cases rest <;> rfl

/-- Let a server hold the keys that are live in a cache in memory. When its replies lead through a
full walk, and the walk is served as promised, then a purge sends one deletion behind the walk, and
of the keys held it names those that a purge of the cache in memory removes: the base key, and every
key that begins with it and a colon. -/
theorem purges_same_keys {c : Connection} {base : String} {walk rest : List Reply}
    {found held : List String} {m : ExpiringCache} {now : Nat} (hopen : c.closed = false)
    (hreplies : c.replies = walk ++ rest) (hbrings : Brings walk found)
    (hserves : Serves held (((answer c (.purge base)).2.sent.drop c.sent.length).zip walk) found)
    (hkeyed : m.Keyed) (hheld : ∀ key, key ∈ held ↔ m.contains now key = true) :
    ∃ (scans : List Command) (names : List String), scans.length = walk.length ∧
      (answer c (.purge base)).2.sent = c.sent ++ scans ++ [deleteCommand names] ∧
      (∀ key, key ∈ held ∧ key ∈ names ↔
        m.contains now key = true ∧ (m.purge now base).2.contains now key = false) ∧
      ∀ key, key ∈ held ∧ key ∈ names ↔
        key ∈ held ∧ (key = base ∨ ∃ rest, key = base ++ ":" ++ rest) := by
  obtain ⟨scans, hlen, hwalk, hsent⟩ := sent_purge base hopen hreplies hbrings
  have hzip : (scans ++ [deleteCommand (base :: found)]).zip (walk ++ []) =
      scans.zip walk ++ [deleteCommand (base :: found)].zip [] := List.zip_append hlen
  have hscans : ((answer c (.purge base)).2.sent.drop c.sent.length).zip walk = scans.zip walk := by
    rw [hsent, List.append_assoc, List.drop_left]
    simpa using hzip
  rw [hscans] at hserves
  have hnames (key : String) : key ∈ held ∧ key ∈ base :: found ↔
      key ∈ held ∧ (key = base ∨ ∃ rest, key = base ++ ":" ++ rest) := by
    rw [List.mem_cons, hserves _ hwalk, globMatches_variantsPattern]
    exact and_congr_right fun hkey => or_congr_right (and_iff_right hkey)
  refine ⟨scans, base :: found, hlen, hsent, fun key => ?_, hnames⟩
  rw [hnames, ← CacheKey.covers_iff, hheld, ExpiringCache.contains_purge hkeyed]
  cases CacheKey.covers base key <;> cases m.contains now key <;> simp

def starredKeys : List String :=
  ["user:[1]*", "user:[1]*:Posts", "user:[1]*:Posts-Tags", "user:1", "user:1:Posts", "user:[1]*2"]

def starredCache : ExpiringCache := { entries := starredKeys.map fun key => (key, ⟨"", 1⟩) }

def starredReplies : List Reply :=
  [.list [.text "7", .list [.text "user:[1]*:Posts"]], .list [.text "3", .list []],
    .list [.text "0", .list [.text "user:[1]*:Posts-Tags", .text "user:[1]*:Posts"]]]

theorem Walk.pattern {pattern : String} {cursor : UInt64} {command : Command} {r : Reply}
    {rest : List (Command × Reply)} (h : Walk pattern cursor ((command, r) :: rest)) :
    command[3]? = some pattern := by
  cases h <;> rfl

theorem purges_starredKeys :
    ∃ (scans : List Command) (names : List String), scans.length = 3 ∧
      (answer { replies := starredReplies } (.purge "user:[1]*")).2.sent =
        scans ++ [deleteCommand names] ∧
      (∀ key, key ∈ starredKeys ∧ key ∈ names ↔ starredCache.contains 0 key = true ∧
        (starredCache.purge 0 "user:[1]*").2.contains 0 key = false) ∧
      ∀ key, key ∈ starredKeys ∧ key ∈ names ↔
        key ∈ starredKeys ∧ (key = "user:[1]*" ∨ ∃ rest, key = "user:[1]*" ++ ":" ++ rest) := by
  let found := ["user:[1]*:Posts"] ++ ([] ++ ["user:[1]*:Posts-Tags", "user:[1]*:Posts"])
  have hbrings : Brings starredReplies found :=
    .more rfl (by decide) (.more rfl (by decide) (.last rfl))
  have hserves : Serves starredKeys (((answer { replies := starredReplies }
      (.purge "user:[1]*")).2.sent.drop 0).zip starredReplies) found := by
    intro pattern hwalk key
    have hpattern : variantsPattern "user:[1]*" = pattern := Option.some.inj hwalk.pattern
    rw [← hpattern, globMatches_variantsPattern, ← CacheKey.isPrefixOf_iff]
    have hkeys : ∀ key ∈ found, key ∈ starredKeys := by decide
    have hmatch : ∀ key ∈ starredKeys,
        key ∈ found ↔ ("user:[1]*" ++ ":").toList.isPrefixOf key.toList = true := by decide
    exact ⟨fun h => ⟨hkeys key h, (hmatch key (hkeys key h)).1 h⟩, fun h => (hmatch key h.1).2 h.2⟩
  have hkeyed : starredCache.Keyed := by
    unfold ExpiringCache.Keyed
    decide
  have hheld (key : String) : key ∈ starredKeys ↔ starredCache.contains 0 key = true :=
    (ExpiringCache.contains_map (by decide) starredKeys key).symm
  exact purges_same_keys (c := { replies := starredReplies }) rfl (List.append_nil _).symm hbrings
    hserves hkeyed hheld

end Redis

end Recordkeeper
