import Recordkeeper.Entity.Catalog
import Recordkeeper.Proofs.Run
import Recordkeeper.Proofs.Table.Query

set_option autoImplicit false

namespace Recordkeeper

theorem toNat_saturate (n : Nat) : (saturate n).toNat = min n (2 ^ 64 - 1) := by
  have h : min n 18446744073709551615 < UInt64.size := by
    simp only [UInt64.size]
    omega
  exact UInt64.toNat_ofNat_of_lt' h

theorem UInt64.one_le {n : UInt64} (h : n ≠ 0) : 1 ≤ n := by
  have h0 : n.toNat ≠ 0 := fun h0 => h (UInt64.toNat_inj.1 h0)
  rw [UInt64.le_iff_toNat_le, UInt64.toNat_one]
  omega

namespace Pagination

variable {β : Type}

def window (p : Pagination) (xs : List β) : List β :=
  (xs.drop ((p.pageIndex.toNat - 1) * p.pageSize.toNat)).take p.pageSize.toNat

theorem normalized_pageIndex (p : Pagination) (d : UInt64) (m : Option UInt64) :
    (p.normalized d m).pageIndex = if p.pageIndex = 0 then 1 else p.pageIndex := rfl

theorem one_le_normalized_pageIndex (p : Pagination) (d : UInt64) (m : Option UInt64) :
    1 ≤ (p.normalized d m).pageIndex := by
  rw [normalized_pageIndex]
  split
  · exact UInt64.le_refl 1
  · next h => exact UInt64.one_le h

theorem one_le_normalized_pageSize (p : Pagination) (d : UInt64) (m : Option UInt64) :
    1 ≤ (p.normalized d m).pageSize := by
  have hsize : 1 ≤ if p.pageSize = 0 then max d 1 else p.pageSize := by
    split
    · rw [UInt64.le_iff_toNat_le, UInt64.toNat_max]
      exact Nat.le_max_right _ _
    · next h => exact UInt64.one_le h
  cases m with
  | none => exact hsize
  | some m =>
    refine Std.le_min_iff.2 ⟨hsize, ?_⟩
    rw [UInt64.le_iff_toNat_le, UInt64.toNat_max]
    exact Nat.le_max_right _ _

theorem normalized_pageSize_le (p : Pagination) (d m : UInt64) :
    (p.normalized d (some m)).pageSize ≤ max m 1 := Std.min_le_right

theorem cut_eq_window (p : Pagination) {xs : List β} (hlen : xs.length < 2 ^ 64) :
    (if p.offset < UInt64.ofNat xs.length then Window.cut (some ⟨p.offset, p.limit⟩) xs else []) =
      p.window xs := by
  have hlt : p.offset < UInt64.ofNat xs.length ↔
      (p.pageIndex.toNat - 1) * p.pageSize.toNat < xs.length := by
    rw [UInt64.lt_iff_toNat_lt, offset, toNat_saturate, UInt64.toNat_ofNat_of_lt' hlen]
    omega
  split
  · next h =>
    have hoff : p.offset.toNat = (p.pageIndex.toNat - 1) * p.pageSize.toNat := by
      have hl := hlt.1 h
      rw [offset, toNat_saturate]
      omega
    simp [Window.cut, window, hoff, limit]
  · next h =>
    have hge := fun hl => h (hlt.2 hl)
    rw [window, List.drop_eq_nil_of_le (Nat.not_lt.1 hge), List.take_nil]

theorem toNat_totalPages {p : Pagination} (hsize : 1 ≤ p.pageSize) :
    p.totalPages.toNat = (p.total.toNat + p.pageSize.toNat - 1) / p.pageSize.toNat := by
  have hs : 1 ≤ p.pageSize.toNat := UInt64.le_iff_toNat_le.1 hsize
  have hs0 : p.pageSize ≠ 0 := fun h0 => by simp [h0] at hs
  unfold totalPages
  by_cases ht : p.total = 0
  · rw [if_pos (.inl ht), ht, UInt64.toNat_zero, Nat.zero_add]
    exact (Nat.div_eq_of_lt (by omega)).symm
  · rw [if_neg (not_or.2 ⟨ht, hs0⟩), toNat_saturate]
    have hle : (p.total.toNat + p.pageSize.toNat - 1) / p.pageSize.toNat ≤ p.total.toNat := by
      have ht1 : p.total.toNat ≠ 0 := fun h0 => ht (UInt64.toNat_inj.1 h0)
      have hmul := Nat.le_mul_of_pos_right (p.total.toNat - 1) hs
      rw [Nat.div_le_iff_le_mul_add_pred hs, Nat.mul_comm]
      have hsplit : p.total.toNat * p.pageSize.toNat =
          (p.total.toNat - 1) * p.pageSize.toNat + p.pageSize.toNat := by
        rw [← Nat.succ_mul]
        congr 1
        omega
      omega
    have hlt := p.total.toNat_lt
    omega

theorem flatten_windows (xs : List β) {k : Nat} (hk : k < 2 ^ 64) (page : UInt64 → Pagination)
    (size : UInt64)
    (hpage : ∀ i, i ≠ 0 → (page i).pageIndex = i ∧ (page i).pageSize = size) :
    ((List.range k).map fun j => (page (UInt64.ofNat (j + 1))).window xs).flatten =
      xs.take (k * size.toNat) := by
  induction k with
  | zero => simp
  | succ k ih =>
    have hnat : (UInt64.ofNat (k + 1)).toNat = k + 1 := UInt64.toNat_ofNat_of_lt' hk
    obtain ⟨hindex, hsize⟩ := hpage (UInt64.ofNat (k + 1)) fun h0 => by simp [h0] at hnat
    rw [List.range_succ, List.map_append, List.flatten_append, ih (by omega), Nat.succ_mul,
      List.take_add]
    simp only [List.map_cons, List.map_nil, List.flatten_cons, List.flatten_nil, List.append_nil,
      window, hindex, hsize, hnat, Nat.add_sub_cancel]

end Pagination

namespace Repository

variable {α : Type} (r : Repository α) (m : Memory)

theorem perform_query (q : Query) (w : Option Window) :
    Action.perform (Memory.handler r.entity) (ask (.query q w)) m =
      ((m.table.query r.entity q w).mapError RequestError.store, m) := Action.perform_ask _ m

theorem perform_count (q : Query) :
    Action.perform (Memory.handler r.entity) (ask (.count q)) m =
      ((m.table.count q).mapError RequestError.store, m) := Action.perform_ask _ m

theorem perform_list (q : FilterRequest) :
    Action.perform (Memory.handler r.entity) (r.list q) m =
      ((r.compile q).bind fun query =>
        (m.table.query r.entity query none).mapError RequestError.store, m) := by
  refine (Action.perform_bind _ _ _).trans ?_
  rw [Action.perform_liftExcept]
  cases r.compile q with
  | error e => rfl
  | ok query => exact r.perform_query m query none

variable {r m}

theorem query_of_list {q : FilterRequest} {records : List α}
    (h : (Action.perform (Memory.handler r.entity) (r.list q) m).1 = .ok records) :
    ∃ query, r.compile q = .ok query ∧ m.table.query r.entity query none = .ok records := by
  rw [perform_list] at h
  cases hc : r.compile q with
  | error e => simp [hc, Except.bind] at h
  | ok query =>
    cases hq : m.table.query r.entity query none with
    | error e => simp [hc, hq, Except.bind, Except.mapError] at h
    | ok found => exact ⟨query, rfl, by simpa [hc, hq, Except.bind, Except.mapError] using h⟩

theorem perform_first {q : FilterRequest} {query : Query} {records : List α}
    (hc : r.compile q = .ok query) (hq : m.table.query r.entity query none = .ok records) :
    (Action.perform (Memory.handler r.entity) (r.first q) m).1 =
      match records.head? with
      | some x => .ok x
      | none => .error (r.notFound none) := by
  have hrun : Action.perform (Memory.handler r.entity) (ask (.query query (some .first))) m =
      (.ok (records.take 1), m) := by
    rw [perform_query, Table.query_window hq]
    rfl
  have hcompile : Action.perform (Memory.handler r.entity) (liftExcept (r.compile q)) m =
      (.ok query, m) := by rw [Action.perform_liftExcept, hc]
  unfold first
  rw [Action.perform_bind_ok hcompile, Action.perform_bind_ok hrun]
  cases records <;> rfl

theorem perform_page {q : PageRequest} {query : Query} {records : List α}
    (hc : r.compile q.filter = .ok query) (hq : m.table.query r.entity query none = .ok records)
    (hlen : records.length < 2 ^ 64) {p : Pagination}
    (hp : p = { q.pagination.normalized r.config.defaultPageSize r.config.maxPageSize with
      total := UInt64.ofNat records.length }) :
    (Action.perform (Memory.handler r.entity) (r.page q) m).1 = .ok ⟨p.window records, p⟩ := by
  have hcount : Action.perform (Memory.handler r.entity) (ask (.count query)) m =
      (.ok (UInt64.ofNat records.length), m) := by
    rw [perform_count, (Table.count_of_query hq).1]
    rfl
  have hfetch : Action.perform (Memory.handler r.entity)
      (ask (.query query (some ⟨p.offset, p.limit⟩))) m =
        (.ok (Window.cut (some ⟨p.offset, p.limit⟩) records), m) := by
    rw [perform_query, Table.query_window hq]
    rfl
  have hcompile : Action.perform (Memory.handler r.entity) (liftExcept (r.compile q.filter)) m =
      (.ok query, m) := by rw [Action.perform_liftExcept, hc]
  unfold page
  rw [Action.perform_bind_ok hcompile]
  refine (congrArg Prod.fst (Action.perform_bind_ok hcount _)).trans ?_
  subst hp
  rw [← Pagination.cut_eq_window _ hlen]
  simp only
  split
  · exact congrArg Prod.fst (Action.perform_bind_ok hfetch _)
  · rfl

end Repository

/-- A page that shows its window of a list: which page is meant, of what size, and which elements
stand on it. -/
structure Page.Shows {α : Type} (page : Page α) (index : UInt64) (maxSize : Option UInt64)
    (records : List α) : Prop where
  total : page.pagination.total.toNat = records.length
  index_eq : page.pagination.pageIndex = if index = 0 then 1 else index
  one_le_index : 1 ≤ page.pagination.pageIndex
  one_le_size : 1 ≤ page.pagination.pageSize
  size_le : ∀ m, maxSize = some m → page.pagination.pageSize ≤ max m 1
  shown : page.records = page.pagination.window records

namespace Repository

variable {α : Type} {r : Repository α}

def pageOf (r : Repository α) (size : UInt64) (records : List α) (index : UInt64) : Page α :=
  let p : Pagination :=
    { Pagination.normalized ⟨index, size, 0⟩ r.config.defaultPageSize r.config.maxPageSize with
      total := UInt64.ofNat records.length }
  ⟨p.window records, p⟩

theorem pageOf_shows {records : List α} (hlen : records.length < 2 ^ 64) (size index : UInt64) :
    (r.pageOf size records index).Shows index r.config.maxPageSize records where
  total := UInt64.toNat_ofNat_of_lt' hlen
  index_eq := Pagination.normalized_pageIndex ⟨index, size, 0⟩ r.config.defaultPageSize
    r.config.maxPageSize
  one_le_index := Pagination.one_le_normalized_pageIndex ⟨index, size, 0⟩ r.config.defaultPageSize
    r.config.maxPageSize
  one_le_size := Pagination.one_le_normalized_pageSize ⟨index, size, 0⟩ r.config.defaultPageSize
    r.config.maxPageSize
  size_le := by
    intro m hm
    simp only [pageOf, hm]
    exact Pagination.normalized_pageSize_le _ _ m
  shown := rfl

theorem flatten_pageOf {records : List α} (hlen : records.length < 2 ^ 64) (size index : UInt64) :
    ((List.range (r.pageOf size records index).pagination.totalPages.toNat).map fun j =>
      (r.pageOf size records (UInt64.ofNat (j + 1))).records).flatten = records := by
  have hshows := r.pageOf_shows hlen size index
  have hsize := UInt64.le_iff_toNat_le.1 hshows.one_le_size
  rw [UInt64.toNat_one] at hsize
  have hwindows := Pagination.flatten_windows records (UInt64.toNat_lt _)
    (k := (r.pageOf size records index).pagination.totalPages.toNat)
    (fun i => (r.pageOf size records i).pagination) (r.pageOf size records index).pagination.pageSize
    fun i hi => ⟨by rw [(r.pageOf_shows hlen size i).index_eq, if_neg hi], rfl⟩
  refine hwindows.trans (List.take_of_length_le ?_)
  rw [Pagination.toNat_totalPages hshows.one_le_size, hshows.total]
  have hdiv := Nat.div_add_mod
    (records.length + (r.pageOf size records index).pagination.pageSize.toNat - 1)
    (r.pageOf size records index).pagination.pageSize.toNat
  have hmod := Nat.mod_lt
    (records.length + (r.pageOf size records index).pagination.pageSize.toNat - 1) hsize
  rw [Nat.mul_comm] at hdiv
  omega

/-- Where a list can be given, its first record and its pages can, and they are the head and the
windows of the list; the pages of one size make it up again. -/
theorem windows_of_list {m : Memory} (ht : Table.Reachable r.entity m.table) {q : FilterRequest}
    {records : List α} {now : Moment} (hlist : (r.perform ⟨.list q, now, []⟩ m).1 = .ok records)
    (later : Moment) :
    (r.perform ⟨.first q, later, []⟩ m).1 =
        (match records.head? with
        | some x => .ok x
        | none => .error (r.notFound none)) ∧
      ∀ size, ∃ page : UInt64 → Page α,
        (∀ index total,
          (r.perform ⟨.page ⟨q, ⟨index, size, total⟩⟩, later, []⟩ m).1 = .ok (page index)) ∧
        (∀ index, (page index).Shows index r.config.maxPageSize records) ∧
        ∀ index, ((List.range (page index).pagination.totalPages.toNat).map fun j =>
          (page (UInt64.ofNat (j + 1))).records).flatten = records := by
  obtain ⟨query, hcompile, hquery⟩ := query_of_list hlist
  have hlen : records.length < 2 ^ 64 :=
    Nat.lt_of_le_of_lt (Table.count_of_query hquery).2 ht.keyed.length_lt
  refine ⟨perform_first hcompile hquery, fun size => ⟨r.pageOf size records, ?_, ?_, ?_⟩⟩
  · exact fun index total =>
      perform_page (m := { m with now := later }) (q := ⟨q, ⟨index, size, total⟩⟩) hcompile hquery
        hlen rfl
  · exact r.pageOf_shows hlen size
  · exact r.flatten_pageOf hlen size

def words : Repository (Catalog.Item String) where
  entity := Catalog.plain
  config := { maxPageSize := some 2 }

def threeWords : Memory :=
  words.after (["b", "a", "c"].map fun w => ⟨.create ⟨0, w⟩, .epoch, []⟩) (.fresh .epoch)

def lastWordsFirst : FilterRequest := { order := some "value desc" }

theorem list_threeWords :
    (words.perform ⟨.list lastWordsFirst, .epoch, []⟩ threeWords).1 =
      .ok [⟨3, "c"⟩, ⟨1, "b"⟩, ⟨2, "a"⟩] := by
  have h : (Action.perform (Memory.handler words.entity) (words.list lastWordsFirst) threeWords).1 =
      .ok [⟨3, "c"⟩, ⟨1, "b"⟩, ⟨2, "a"⟩] := by decide +kernel
  exact h

theorem windows_of_threeWords :
    (words.perform ⟨.first lastWordsFirst, .epoch, []⟩ threeWords).1 = .ok ⟨3, "c"⟩ ∧
      ∀ size, ∃ page : UInt64 → Page (Catalog.Item String),
        (∀ index total, (words.perform ⟨.page ⟨lastWordsFirst, ⟨index, size, total⟩⟩, .epoch, []⟩
          threeWords).1 = .ok (page index)) ∧
        (∀ index, (page index).Shows index (some 2) [⟨3, "c"⟩, ⟨1, "b"⟩, ⟨2, "a"⟩]) ∧
        ∀ index, ((List.range (page index).pagination.totalPages.toNat).map fun j =>
          (page (UInt64.ofNat (j + 1))).records).flatten = [⟨3, "c"⟩, ⟨1, "b"⟩, ⟨2, "a"⟩] :=
  windows_of_list (.after _ .empty) list_threeWords .epoch

end Repository

end Recordkeeper
