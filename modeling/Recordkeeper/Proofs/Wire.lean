import Recordkeeper.Proofs.Entity.Schema
import Recordkeeper.Config
import Recordkeeper.Request.Wire

/-!
Requests, configurations and records against their documents: what is written reads back as it was,
and a document that can be read is brought by writing into a form that stays. The parts of a page
request read from its object as they do alone.
-/

set_option autoImplicit false

namespace Recordkeeper

/-- Values read back from what is written of them, and writing what was read gives documents that
reading and writing leave alone. -/
structure Json.Faithful {α : Type} (write : α → Json) (read : Json → Option α) : Prop where
  reads (x : α) : read (write x) = some x
  settles {j w : Json} : (read j).map write = some w → (read w).map write = some w

namespace Json

variable {α : Type} {write : α → Json} {read : Json → Option α}

theorem Faithful.of_reads (h : ∀ x, read (write x) = some x) : Faithful write read where
  reads := h
  settles := by
    intro j w hw
    obtain ⟨x, -, rfl⟩ := Option.map_eq_some_iff.1 hw
    rw [h x, Option.map_some]

theorem list?_map (h : ∀ x, read (write x) = some x) (xs : List α) :
    list? read (.arr (xs.map write)) = some xs := by
  show (xs.map write).mapM read = some xs
  induction xs with
  | nil => rfl
  | cons x xs ih => simp [h x, ih]

theorem option?_ofOption (h : ∀ x, read (write x) = some x) (hnull : ∀ x, write x ≠ .null)
    (o : Option α) : option? read (ofOption write o) = some o := by
  cases o with
  | none => rfl
  | some x => rw [ofOption, option?_of_ne_null (hnull x), h x, Option.map_some]

theorem orDefault_of_read {j : Json} {x : α} (h : read j = some x) (default : α) :
    (slotOf (some j)).orDefault default read = some x := by rw [orDefault_some, h]

theorem required_of_read {j : Json} {x : α} (h : read j = some x) :
    (slotOf (some j)).required read = some x := by
  rw [← h]
  rfl

end Json

open Json (slotOf fields?_obj)

theorem Filter.read?_write (f : Filter) : Filter.read? f.write = some f := rfl

section

variable {o o' : Object}

theorem FilterRequest.read?_eq_some {r : FilterRequest} :
    FilterRequest.read? (.obj o) = some r ↔
      (slotOf (o.get? "filters")).orDefault [] (Json.list? Filter.read?) = some r.filters ∧
        (slotOf (o.get? "order")).orDefault none (Json.option? Json.string?) = some r.order ∧
        (slotOf (o.get? "preloads")).orDefault [] Json.strings? = some r.preloads := by
  obtain ⟨filters, order, preloads⟩ := r
  simp [read?, fields?_obj, Option.bind_eq_some_iff]

theorem FilterRequest.read?_congr (h : ∀ name ∈ names, o.get? name = o'.get? name) :
    FilterRequest.read? (.obj o) = FilterRequest.read? (.obj o') := by
  simp only [names, List.forall_mem_cons] at h
  refine Option.ext fun r => ?_
  rw [read?_eq_some, read?_eq_some, h.1, h.2.1, h.2.2.1]

theorem FilterRequest.read?_write (r : FilterRequest) : FilterRequest.read? r.write = some r := by
  obtain ⟨filters, order, preloads⟩ := r
  rw [write, read?_eq_some]
  cases order <;>
    exact ⟨Json.list?_map Filter.read?_write filters, rfl, Json.list?_ofStrings preloads⟩

theorem Pagination.read?_eq_some {p : Pagination} :
    Pagination.read? (.obj o) = some p ↔
      (slotOf (o.get? "pageIndex")).orDefault 0 Json.uint64? = some p.pageIndex ∧
        (slotOf (o.get? "pageSize")).orDefault 0 Json.uint64? = some p.pageSize ∧
        (slotOf (o.get? "total")).orDefault 0 Json.uint64? = some p.total := by
  obtain ⟨pageIndex, pageSize, total⟩ := p
  simp [read?, fields?_obj, Option.bind_eq_some_iff]

theorem Pagination.read?_congr (h : ∀ name ∈ names, o.get? name = o'.get? name) :
    Pagination.read? (.obj o) = Pagination.read? (.obj o') := by
  simp only [names, List.forall_mem_cons] at h
  refine Option.ext fun p => ?_
  rw [read?_eq_some, read?_eq_some, h.1, h.2.1, h.2.2.1]

theorem Pagination.read?_write (p : Pagination) : Pagination.read? p.write = some p :=
  read?_eq_some.2 ⟨Json.orDefault_of_read (Json.uint64?_ofId p.pageIndex) 0,
    Json.orDefault_of_read (Json.uint64?_ofId p.pageSize) 0,
    Json.orDefault_of_read (Json.uint64?_ofId p.total) 0⟩

theorem Object.get?_filter {name : String} {p : String → Bool} (h : p name = true) (o : Object) :
    Object.get? name (o.filter fun m => p m.1) = o.get? name := by
  induction o with
  | nil => rfl
  | cons m o ih =>
    obtain ⟨key, v⟩ := m
    by_cases hkey : name = key
    · subst hkey
      simp [h, Object.get?_cons]
    · by_cases hp : p key <;> simp [hp, Object.get?_cons, hkey, ih]

theorem PageRequest.read?_eq_some {r : PageRequest} :
    PageRequest.read? (.obj o) = some r ↔
      FilterRequest.read? (.obj o) = some r.filter ∧
        Pagination.read? (.obj o) = some r.pagination := by
  obtain ⟨filter, pagination⟩ := r
  let taken := o.filter fun m => FilterRequest.names.contains m.1
  let rest := o.filter fun m => !FilterRequest.names.contains m.1
  have hfilter : FilterRequest.read? (.obj taken) = FilterRequest.read? (.obj o) :=
    FilterRequest.read?_congr fun name hname =>
      Object.get?_filter (p := fun key => FilterRequest.names.contains key) (by simpa using hname) o
  have hpagination : Pagination.read? (.obj (rest.filter fun m => Pagination.names.contains m.1)) =
      Pagination.read? (.obj o) := by
    refine Pagination.read?_congr fun name hname => ?_
    rw [Object.get?_filter (p := fun key => Pagination.names.contains key) (by simpa using hname)]
    refine Object.get?_filter (p := fun key => !FilterRequest.names.contains key) ?_ o
    revert name
    decide
  rw [← hfilter, ← hpagination]
  simp only [read?, List.partition_eq_filter_filter, Option.bind_eq_bind, Option.bind_eq_some_iff,
    Option.pure_def, Option.some.injEq, mk.injEq]
  constructor
  · rintro ⟨f, hf, p, hp, rfl, rfl⟩
    exact ⟨hf, hp⟩
  · rintro ⟨hf, hp⟩
    exact ⟨filter, hf, pagination, hp, rfl, rfl⟩

theorem PageRequest.read?_write (r : PageRequest) : PageRequest.read? r.write = some r := by
  have hapart : ∀ name ∈ FilterRequest.names, name ∉ Pagination.names := by decide
  have hnames : ∀ name ∈ r.filter.members.map (·.1), name ∈ FilterRequest.names := by
    obtain ⟨⟨filters, order, preloads⟩, pagination⟩ := r
    cases order <;> simp [FilterRequest.members, FilterRequest.names]
  have hnodup : (r.filter.members.map (·.1)).Nodup := by
    obtain ⟨⟨filters, order, preloads⟩, pagination⟩ := r
    cases order <;> simp [FilterRequest.members]
  have hget (name : String) : (r.filter.members.overlay r.pagination.members).get? name =
      (r.filter.members.get? name).or (r.pagination.members.get? name) := by
    rw [Object.get?_overlay, Object.get?_ofMembers hnodup]
  have hfilter : FilterRequest.read? (.obj (r.filter.members.overlay r.pagination.members)) =
      FilterRequest.read? (.obj r.filter.members) := by
    refine FilterRequest.read?_congr fun name hname => ?_
    have hnone : r.pagination.members.get? name = none :=
      Object.get?_eq_none_of_not_mem (by revert name; exact hapart)
    rw [hget, hnone, Option.or_none]
  have hpagination : Pagination.read? (.obj (r.filter.members.overlay r.pagination.members)) =
      Pagination.read? (.obj r.pagination.members) := by
    refine Pagination.read?_congr fun name hname => ?_
    have hnone : r.filter.members.get? name = none :=
      Object.get?_eq_none_of_not_mem fun hmem => hapart name (hnames name hmem) hname
    rw [hget, hnone, Option.none_or]
  exact read?_eq_some.2 ⟨hfilter.trans (FilterRequest.read?_write r.filter),
    hpagination.trans (Pagination.read?_write r.pagination)⟩

end

theorem IdRequest.read?_eq_some {o : Object} {r : IdRequest} :
    IdRequest.read? (.obj o) = some r ↔
      (slotOf (o.get? "id")).required Json.uint64? = some r.id ∧
        (slotOf (o.get? "preloads")).orDefault [] Json.strings? = some r.preloads := by
  obtain ⟨id, preloads⟩ := r
  simp [read?, fields?_obj, Option.bind_eq_some_iff]

theorem IdRequest.read?_write (r : IdRequest) : IdRequest.read? r.write = some r :=
  read?_eq_some.2 ⟨Json.required_of_read (Json.uint64?_ofId r.id), Json.list?_ofStrings r.preloads⟩

theorem OrderPolicy.read?_name (p : OrderPolicy) : OrderPolicy.read? (.str p.name) = some p := by
  cases p <;> rfl

theorem CacheConfig.read?_eq_some {o : Object} {c : CacheConfig} :
    CacheConfig.read? (.obj o) = some c ↔
      (slotOf (o.get? "enabled")).orDefault true Json.bool? = some c.enabled ∧
        (slotOf (o.get? "ttl_secs")).orDefault 86400 Json.uint64? = some c.ttlSecs ∧
        (slotOf (o.get? "key_prefix")).orDefault "crudkit:" Json.string? = some c.keyPrefix := by
  obtain ⟨enabled, ttlSecs, keyPrefix⟩ := c
  cases enabled <;> simp [read?, fields?_obj, Option.bind_eq_some_iff]

theorem CacheConfig.read?_write (c : CacheConfig) : CacheConfig.read? c.write = some c :=
  read?_eq_some.2 ⟨rfl, Json.orDefault_of_read (Json.uint64?_ofId c.ttlSecs) 86400, rfl⟩

theorem PaginationConfig.read?_eq_some {o : Object} {c : PaginationConfig} :
    PaginationConfig.read? (.obj o) = some c ↔
      (slotOf (o.get? "default_page_size")).orDefault 15 Json.uint64? = some c.defaultPageSize ∧
        (slotOf (o.get? "max_page_size")).orDefault none (Json.option? Json.uint64?) =
          some c.maxPageSize := by
  obtain ⟨defaultPageSize, maxPageSize⟩ := c
  simp [read?, fields?_obj, Option.bind_eq_some_iff]

theorem PaginationConfig.read?_write (c : PaginationConfig) :
    PaginationConfig.read? c.write = some c := by
  have hmax := Json.option?_ofOption Json.uint64?_ofId (fun _ => nofun) c.maxPageSize
  rw [write, read?_eq_some]
  exact ⟨Json.orDefault_of_read (Json.uint64?_ofId c.defaultPageSize) 15,
    Json.orDefault_of_read hmax none⟩

theorem EngineConfig.read?_eq_some {o : Object} {c : EngineConfig} :
    EngineConfig.read? (.obj o) = some c ↔
      (slotOf (o.get? "cache")).orDefault {} CacheConfig.read? = some c.cache ∧
        (slotOf (o.get? "pagination")).orDefault {} PaginationConfig.read? = some c.pagination ∧
        (slotOf (o.get? "order_policy")).orDefault .strict OrderPolicy.read? =
          some c.orderPolicy := by
  obtain ⟨cache, pagination, orderPolicy⟩ := c
  simp [read?, fields?_obj, Option.bind_eq_some_iff]

theorem EngineConfig.read?_write (c : EngineConfig) : EngineConfig.read? c.write = some c :=
  read?_eq_some.2 ⟨Json.orDefault_of_read c.cache.read?_write {},
    Json.orDefault_of_read c.pagination.read?_write {},
    Json.orDefault_of_read c.orderPolicy.read?_name .strict⟩

namespace FieldType

/-- Numbers are finite, and what a nullable column holds is not written as null. -/
def Exact : (t : FieldType) → t.Value → Prop
  | real, .finite _ => True
  | real, _ => False
  | nullable t, some v => t.encode v ≠ .null ∧ t.Exact v
  | _, _ => True

theorem decode_encode_iff (t : FieldType) (v : t.Value) :
    t.decode (t.encode v) = some v ↔ t.Exact v := by
  induction t with
  | text | flag | document => exact iff_of_true rfl trivial
  | integer => exact iff_of_true (Json.int64?_toInt v) trivial
  | natural => exact iff_of_true (Json.uint64?_ofId v) trivial
  | textList => exact iff_of_true (Json.list?_ofStrings v) trivial
  | real =>
    cases v with
    | finite x => exact iff_of_true rfl trivial
    | infinite | nan => exact iff_of_false nofun id
  | nullable t ih =>
    cases v with
    | none => exact iff_of_true rfl trivial
    | some v =>
      show Json.option? t.decode (t.encode v) = some (some v) ↔ t.encode v ≠ .null ∧ t.Exact v
      by_cases hnull : t.encode v = .null
      · rw [hnull]
        exact iff_of_false nofun fun h => h.1 rfl
      · rw [Json.option?_of_ne_null hnull, ← ih v]
        simp [hnull]

theorem encode_ne_null {t : FieldType} {j : Json} {v : t.Value} (hj : j ≠ .null)
    (h : t.decode j = some v) : t.encode v ≠ .null := by
  induction t with
  | text | integer | natural | flag | textList => exact nofun
  | document =>
    obtain rfl := Option.some.inj h
    exact hj
  | real =>
    obtain ⟨x, -, rfl⟩ := Option.map_eq_some_iff.1 h
    exact nofun
  | nullable t ih =>
    have hread : Json.option? t.decode j = some v := h
    rw [Json.option?_of_ne_null hj] at hread
    obtain ⟨w, hw, rfl⟩ := Option.map_eq_some_iff.1 hread
    exact ih hw

theorem exact_of_decode {t : FieldType} {j : Json} {v : t.Value} (h : t.decode j = some v) :
    t.Exact v := by
  induction t with
  | text | integer | natural | flag | textList | document => trivial
  | real =>
    obtain ⟨x, -, rfl⟩ := Option.map_eq_some_iff.1 h
    trivial
  | nullable t ih =>
    have hread : Json.option? t.decode j = some v := h
    by_cases hj : j = .null
    · subst hj
      obtain rfl := Option.some.inj hread
      trivial
    · rw [Json.option?_of_ne_null hj] at hread
      obtain ⟨w, hw, rfl⟩ := Option.map_eq_some_iff.1 hread
      exact ⟨encode_ne_null hj hw, ih hw⟩

theorem exact_of_ofSlot {t : FieldType} {slot : Json.Slot} {v : t.Value}
    (h : t.ofSlot slot = some v) : t.Exact v := by
  cases slot with
  | given j => exact exact_of_decode ((t.ofSlot_given j).symm.trans h)
  | absent =>
    cases t with
    | nullable t =>
      obtain rfl := Option.some.inj h
      trivial
    | text | integer | natural | real | flag | textList | document => cases h
  | cutOff => cases t <;> cases h

end FieldType

theorem Timestamp.ofJson?_toJson (t : Timestamp) : ofJson? t.toJson = some t := by
  simp [ofJson?, toJson, text, read_write]

theorem Timestamp.option?_ofOption (t : Option Timestamp) :
    Json.option? ofJson? (Json.ofOption toJson t) = some t :=
  Json.option?_ofOption ofJson?_toJson (fun _ => nofun) t

theorem Object.get?_of_mem {o : Object} (h : (o.map (·.1)).Nodup) {m : String × Json} (hm : m ∈ o) :
    o.get? m.1 = some m.2 := by
  induction o with
  | nil => cases hm
  | cons d o ih =>
    obtain ⟨key, v⟩ := d
    obtain ⟨hkey, ho⟩ := List.nodup_cons.1 h
    rw [get?_cons]
    rcases List.mem_cons.1 hm with rfl | hm
    · exact if_pos rfl
    · rw [if_neg fun heq => hkey (List.mem_map.2 ⟨m, hm, heq⟩), ih ho hm]

namespace Values

def Exact : (fs : List Field) → Values fs → Prop
  | [], _ => True
  | f :: fs, (v, vs) => f.type.Exact v ∧ Exact fs vs

/-- Values are read from the members that are written of them if all of them are exact. -/
theorem ofSlots_eq_some_iff {d : Object} {fs : List Field} (vs : Values fs) (place : Nat)
    (h : ∀ m ∈ vs.encode fs, d.get? m.1 = some m.2) :
    ofSlots (fun _ name => slotOf (d.get? name)) place fs = some vs ↔ vs.Exact fs := by
  induction fs generalizing place with
  | nil => exact iff_of_true rfl trivial
  | cons f fs ih =>
    obtain ⟨v, vs⟩ := vs
    obtain ⟨hv, hvs⟩ := List.forall_mem_cons.1 h
    have hv : d.get? f.name = some (f.type.encode v) := hv
    rw [ofSlots_cons, hv, Json.slotOf, FieldType.ofSlot_given, Exact, ← f.type.decode_encode_iff,
      ← ih vs (place + 1) hvs]
    constructor
    · intro hread
      obtain ⟨w, hw, hread⟩ := Option.bind_eq_some_iff.1 hread
      obtain ⟨ws, hws, heq⟩ := Option.map_eq_some_iff.1 hread
      obtain ⟨rfl, rfl⟩ := Prod.mk.inj heq
      exact ⟨hw, hws⟩
    · rintro ⟨hw, hws⟩
      rw [hw, hws]
      rfl

theorem exact_of_ofSlots {slot : Nat → String → Json.Slot} {place : Nat} {fs : List Field}
    {vs : Values fs} (h : ofSlots slot place fs = some vs) : vs.Exact fs := by
  induction fs generalizing place with
  | nil => trivial
  | cons f fs ih =>
    rw [ofSlots_cons, Option.bind_eq_some_iff] at h
    obtain ⟨v, hv, h⟩ := h
    obtain ⟨vs', hvs, rfl⟩ := Option.map_eq_some_iff.1 h
    exact ⟨FieldType.exact_of_ofSlot hv, ih hvs⟩

end Values

namespace Schema

variable (S : Schema)

theorem get?_of_mem_members (x : Record S.fields) {m : String × Json} (h : m ∈ x.members) :
    Object.get? m.1 (Object.ofMembers x.members) = some m.2 := by
  have hnodup := S.ruled.nodup
  rw [← EntityType.names_of_forall₂ (S.ruled.keeps x)] at hnodup
  rw [S.ruled.get?_members, Object.get?_of_mem hnodup h]

theorem decode_encode_iff (x : Record S.fields) :
    Record.decode S.fields x.encode = some x ↔ x.values.Exact S.fields := by
  have hget {name : String} {v : Json} (h : (name, v) ∈ x.members) :
      Object.get? name (Object.ofMembers x.members) = some v := S.get?_of_mem_members x h
  have htime {name : String} {t : Option Timestamp}
      (h : (name, Json.ofOption Timestamp.toJson t) ∈ x.members) :
      (slotOf (Object.get? name (Object.ofMembers x.members))).orDefault none
        (Json.option? Timestamp.ofJson?) = some t := by
    rw [hget h]
    exact Json.orDefault_of_read (Timestamp.option?_ofOption t) none
  have hvalues := Values.ofSlots_eq_some_iff x.values 4 fun m hm =>
    S.get?_of_mem_members x (List.mem_append_right _ hm)
  rw [← hvalues]
  refine Record.decode_eq_some.trans ⟨fun h => h.2.2.2.2, fun h => ⟨?_, htime ?_, htime ?_, htime ?_, h⟩⟩
  · exact Column.rewriteId_get? (hget (by simp [Record.members]))
  all_goals simp [Record.members]

theorem decode_encode_of_decode {j : Json} {x : Record S.fields}
    (h : Record.decode S.fields j = some x) : Record.decode S.fields x.encode = some x := by
  rw [S.decode_encode_iff]
  simp only [Record.decode, Option.bind_eq_bind, Option.bind_eq_some_iff, Option.pure_def,
    Option.some.injEq] at h
  obtain ⟨slot, -, id, -, created, -, updated, -, deleted, -, values, hvalues, rfl⟩ := h
  exact Values.exact_of_ofSlots hvalues

end Schema

def anon : Record Catalog.user.fields := .fresh ("", "", (0 : Int64), .finite .zero, true, ())

def memo : Schema where
  name := "memo"
  plural := "memos"
  fields := [⟨"note", .nullable .document⟩]
  distinct := by decide

end Recordkeeper
