import Recordkeeper.Proofs.Cache.Transparency
import Recordkeeper.Proofs.Locality
import Recordkeeper.Proofs.Write

/-!
Operations addressed to different identities do not touch each other. In either order they answer
the same and leave the same rows, and what a cache holds afterwards is found alike, unless the
cache's clock is read so differently by the two that an entry expires in between.
-/

set_option autoImplicit false

namespace Recordkeeper

variable {α : Type}

namespace LockedCache

/-- Whatever is looked up, the two readings of the clock find the same: no entry expires between.
Readings that a clock can give in both orders, without ever going back, agree, and are so. -/
def Steady (c : LockedCache) (a b : Moment) : Prop :=
  ∀ key, c.find a.ticks key = c.find b.ticks key

theorem steady_of_live {c : LockedCache} {a b : Moment}
    (h : ∀ e ∈ c.entries, ExpiringCache.isLive a.ticks e.2 = true ∧
      ExpiringCache.isLive b.ticks e.2 = true) : c.Steady a b := by
  cases c with
  | poisoned => exact fun _ => rfl
  | sound c =>
    intro key
    have hget : (c.get a.ticks key).1 = (c.get b.ticks key).1 := by
      rw [ExpiringCache.get_eq_filter, ExpiringCache.get_eq_filter]
      cases he : c.entries.lookup key with
      | none => rfl
      | some e =>
        obtain ⟨l, r, hl, -⟩ := List.lookup_eq_some_iff.1 he
        obtain ⟨ha, hb⟩ := h (key, e) (by simp [LockedCache.entries, hl])
        simp [Option.filter, ha, hb]
    exact congrArg Except.ok hget

theorem Steady.symm {c : LockedCache} {a b : Moment} (h : c.Steady a b) : c.Steady b a :=
  fun key => (h key).symm

end LockedCache

namespace Table

theorem Keyed.ext {t t' : Table} (h : Keyed t.rows) (h' : Keyed t'.rows)
    (hsame : ∀ id, t.get? id = t'.get? id) : t.rows = t'.rows :=
  Ordered.ext h.ordered h'.ordered fun e => by
    rw [Ordered.mem_iff h.ordered, Ordered.mem_iff h'.ordered]
    exact iff_of_eq (congrArg (· = some e.2) (hsame e.1))

theorem eq_of_rows {t t' : Table} (h : t.rows = t'.rows) (hcounter : t.counter = t'.counter) :
    t = t' := by
  cases t
  cases t'
  exact congrArg₂ Table.mk h hcounter

end Table

namespace Repository

variable {r : Repository α} {m n : Memory} {A B : Step α} {i j : Id}

theorem covers_other (hij : i ≠ j) {key : String}
    (hi : CacheKey.covers (r.baseKey i) key = true) :
    CacheKey.covers (r.baseKey j) key = false :=
  Bool.eq_false_iff.2 fun hj => hij (CacheKey.id_eq_of_covers hi hj)

theorem OnlyAt.lookup {now : Moment} (h : r.OnlyAt i { m with now := now } n) {key : String}
    (hkey : CacheKey.covers (r.baseKey i) key = false) {later : Nat} (hlater : now.ticks ≤ later) :
    n.cache.find later key = m.cache.find later key := (h.entries key hkey).find rfl hlater

/-- What an operation finds of its own identity is as before, after one addressed to another. -/
theorem sameAt_perform (hB : B.operation.subject r = some j) (hfits : r.InTime B.moment)
    (hij : i ≠ j) (hm : m.cache.Keyed) {now : Moment} (hsteady : m.cache.Steady now B.moment) :
    r.SameAt i { m with now := now } { (r.perform B m).2 with now := now } := by
  have honly := perform_onlyAt hB hfits hm
  refine ⟨rfl, (honly.rows i hij).symm, fun key hkey later hlater => ?_⟩
  exact ((honly.entries key (covers_other hij hkey)).find (hsteady key) hlater).symm

theorem perform_lookup_table {s : Step α} (hs : isLookup s.operation = true) (m : Memory) :
    (r.perform s m).2.table = m.table := by
  refine (r.perform_table s m).resolve_right ?_
  rintro ⟨c, hc, -⟩
  obtain ⟨op, now, script⟩ := s
  cases op with
  | get | getById => cases hc
  | _ => cases hs

abbrev bare (m : Memory) : Memory := { m with cache := .sound {} }

theorem bare_table (m : Memory) : m.table = (bare m).table := rfl

theorem perform_table_uncached (s : Step α) (h : m.table = n.table) :
    (r.perform s m).2.table = (r.uncached.perform s n).2.table := by
  have halike : Memory.Alike { m with now := s.moment } { n with now := s.moment } := ⟨h, rfl⟩
  cases hop : isLookup s.operation with
  | false => exact (perform_alike (mirrors_action hop) halike).2.table
  | true =>
    rw [perform_lookup_table hop, perform_lookup_table hop, h]

theorem inTime_uncached (now : Moment) : r.uncached.InTime now :=
  fun hu => absurd hu (by simp [usesCache_uncached])

section

variable {a b ab ba : Memory} {nowA nowB : Moment}
  (hAB : r.Together i { m with now := nowA } { b with now := nowA } a ba)
  (hBA : r.Together j { m with now := nowB } { a with now := nowB } b ab) (hij : i ≠ j)

include hAB hBA hij

/-- A row is what the operation addressed to it made of it, whichever came first. -/
theorem get?_swap (k : Id) : ab.table.get? k = ba.table.get? k := by
  by_cases hi : k = i
  · subst hi
    exact (hBA.right.rows k hij).trans hAB.same.row
  · by_cases hj : k = j
    · subst hj
      exact hBA.same.row.symm.trans (hAB.right.rows k hij.symm).symm
    · exact ((hBA.right.rows k hj).trans (hAB.left.rows k hi)).trans
        ((hAB.right.rows k hi).trans (hBA.left.rows k hj)).symm

theorem table_swap (hab : Table.Keyed ab.table.rows) (hba : Table.Keyed ba.table.rows) :
    ab.table = ba.table := by
  have hcounter : ab.table.counter = ba.table.counter :=
    (hBA.right.counter.trans hAB.left.counter).trans
      (hAB.right.counter.trans hBA.left.counter).symm
  exact Table.eq_of_rows (Table.Keyed.ext hab hba (get?_swap hAB hBA hij)) hcounter

theorem find_swap (key : String) {later : Nat} (hlaterA : nowA.ticks ≤ later)
    (hlaterB : nowB.ticks ≤ later) : ab.cache.find later key = ba.cache.find later key := by
  cases hi : CacheKey.covers (r.baseKey i) key with
  | true =>
    have hj := covers_other hij hi
    have hsame := hAB.same.lookups key hi later (hAB.left.now ▸ hlaterA)
    exact (hBA.right.lookup hj hlaterB).trans hsame
  | false =>
    have hthen := hAB.right.lookup hi hlaterA
    cases hj : CacheKey.covers (r.baseKey j) key with
    | true => exact (hthen.trans (hBA.same.lookups key hj later (hBA.left.now ▸ hlaterB))).symm
    | false =>
      exact ((hBA.right.lookup hj hlaterB).trans (hAB.left.lookup hi hlaterA)).trans
        (hthen.trans (hBA.left.lookup hj hlaterB)).symm

end

section

variable (hA : A.operation.subject r = some i) (hB : B.operation.subject r = some j) (hij : i ≠ j)

include hA hB hij

/-- Two operations addressed to different identities, one after the other in both orders, at clock
readings between which no entry expires. -/
theorem perform_swap (hfitsA : r.InTime A.moment) (hfitsB : r.InTime B.moment) (hm : m.cache.Keyed)
    (hrows : Table.Keyed m.table.rows) (hsteady : m.cache.Steady A.moment B.moment) :
    (r.perform A m).1 = (r.perform A (r.perform B m).2).1 ∧
      (r.perform B m).1 = (r.perform B (r.perform A m).2).1 ∧
      (r.perform B (r.perform A m).2).2.table = (r.perform A (r.perform B m).2).2.table ∧
      ∀ key later, A.moment.ticks ≤ later → B.moment.ticks ≤ later →
        (r.perform B (r.perform A m).2).2.cache.find later key =
          (r.perform A (r.perform B m).2).2.cache.find later key := by
  obtain ⟨hanswerA, hAB⟩ := perform_together hA hfitsA hm (perform_cache_keyed B hm)
    (sameAt_perform hB hfitsB hij hm hsteady)
  obtain ⟨hanswerB, hBA⟩ := perform_together hB hfitsB hm (perform_cache_keyed A hm)
    (sameAt_perform hA hfitsA hij.symm hm hsteady.symm)
  refine ⟨hanswerA, hanswerB, table_swap hAB hBA hij ?_ ?_,
    fun key later => find_swap hAB hBA hij key⟩
  · exact perform_rows_keyed B (perform_rows_keyed A hrows)
  · exact perform_rows_keyed A (perform_rows_keyed B hrows)

theorem perform_swap_table (hrows : Table.Keyed m.table.rows) :
    (r.perform B (r.perform A m).2).2.table = (r.perform A (r.perform B m).2).2.table := by
  obtain ⟨-, -, htable, -⟩ := perform_swap (r := r.uncached) (m := bare m) hA hB hij
    (inTime_uncached A.moment) (inTime_uncached B.moment) List.nodup_nil hrows fun _ => rfl
  have hab := perform_table_uncached (r := r) B (perform_table_uncached (r := r) A (bare_table m))
  have hba := perform_table_uncached (r := r) A (perform_table_uncached (r := r) B (bare_table m))
  exact hab.trans (htable.trans hba.symm)

/-- Beside a coherent cache, they answer alike in either order. -/
theorem perform_swap_answer (hback : r.entity.ReadsBack) (hm : r.Coherent none m)
    (hrows : Table.Keyed m.table.rows) (hpurge : B.faults.SparesPurge)
    (hstore : A.faults.SparesStore) :
    (r.perform A m).1 = (r.perform A (r.perform B m).2).1 := by
  obtain ⟨hanswer, -⟩ := perform_swap (r := r.uncached) (m := bare m) hA hB hij
    (inTime_uncached A.moment) (inTime_uncached B.moment) List.nodup_nil hrows fun _ => rfl
  have hfirst := (perform_uncached hback hstore hm (bare_table m)).1
  have hafter := perform_table_uncached (r := r) B (bare_table m)
  exact hfirst.trans
    (hanswer.trans (perform_uncached hback hstore (perform_coherent B hpurge hm) hafter).1.symm)

end

theorem answer?_of_inTime {s : Step α} (h : r.InTime s.moment) :
    r.answer? s m = some (r.perform s m).1 := answer?_of_not_overruns (not_overruns_of_fits h)

def tenTokens : List (Step (Catalog.Item String)) :=
  ["a", "b", "c", "d", "e", "f", "g", "h", "i", "j"].map (fun v => ⟨.create ⟨0, v⟩, .epoch, []⟩) ++
    [⟨.get 1, .epoch, []⟩, ⟨.get 10, .epoch, []⟩]

def firstRenamed : Step (Catalog.Item String) := ⟨.update ⟨1, "z"⟩ 1, .epoch, []⟩

def tenthRead : Step (Catalog.Item String) :=
  ⟨.get 10, { Moment.epoch with ticks := 1000000000 }, []⟩

def tenHeld : Memory := tokens.after tenTokens (.fresh .epoch)

def briefTokens : Repository (Catalog.Item String) where
  entity := Catalog.token
  config := { cacheTtl := { nanos := 9 } }

def twoTokens : List (Step (Catalog.Item String)) :=
  [⟨.create ⟨0, "a"⟩, .epoch, []⟩, ⟨.create ⟨0, "b"⟩, .epoch, []⟩, ⟨.get 1, .epoch, []⟩]

def secondRenamed : Step (Catalog.Item String) :=
  ⟨.update ⟨2, "z"⟩ 2, { Moment.epoch with ticks := 10 }, []⟩

def firstRead : Step (Catalog.Item String) := ⟨.get 1, { Moment.epoch with ticks := 8 }, []⟩

end Repository

end Recordkeeper
