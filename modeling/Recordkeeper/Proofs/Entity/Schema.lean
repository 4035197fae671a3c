import Recordkeeper.Entity.Catalog
import Recordkeeper.Proofs.Calendar
import Recordkeeper.Proofs.Entity.Columnar

set_option autoImplicit false

namespace Recordkeeper

namespace Json

theorem uint64?_ofId (n : UInt64) : uint64? (.ofId n) = some n := by
  have hlt := n.toNat_lt
  have hhigh : (n.toNat : Int) < (UInt64.size : Int) := by
    simp only [UInt64.size]
    omega
  simp only [uint64?, ofId, Number.ofId, Number.toUInt64?]
  rw [if_pos ⟨Int.natCast_nonneg _, hhigh⟩, Int.toNat_natCast, UInt64.ofNat_toNat]

theorem int64?_toInt (n : Int64) : int64? (.num (.int n.toInt)) = some n := by
  have hlow := n.le_toInt
  have hhigh := n.toInt_lt
  simp only [int64?, Number.toInt64?]
  rw [if_pos (by omega), Int64.ofInt_toInt]

theorem list?_ofStrings (xs : List String) : list? string? (ofStrings xs) = some xs := by
  have h : (xs.map Json.str).mapM string? = some xs := by
    induction xs with
    | nil => rfl
    | cons x xs ih => simp [string?, ih]
  exact h

def slotOf : Option Json → Slot
  | some j => .given j
  | none => .absent

theorem orDefault_some {α : Type} (default : α) (read : Json → Option α) (j : Json) :
    (slotOf (some j)).orDefault default read = read j := rfl

theorem fields?_obj (count : Nat) (d : Object) :
    (Json.obj d).fields? count = some fun _ name => slotOf (d.get? name) := by
  simp only [fields?, Option.some.injEq]
  funext _ name
  cases d.get? name <;> rfl

theorem option?_of_ne_null {α : Type} {read : Json → Option α} {j : Json} (h : j ≠ .null) :
    option? read j = (read j).map some := by
  cases j <;> first | rfl | exact absurd rfl h

end Json

namespace FieldType

/-- What is written back of what a document holds in a column of the type. -/
def rewrite (t : FieldType) (o : Option Json) : Option Json :=
  (t.ofSlot (Json.slotOf o)).map t.encode

theorem ofSlot_given (t : FieldType) (j : Json) : t.ofSlot (.given j) = t.decode j := by
  cases t <;> rfl

theorem encode_decode_encode (t : FieldType) {v w : t.Value} (h : t.decode (t.encode v) = some w) :
    t.encode w = t.encode v := by
  induction t with
  | text | flag => exact congrArg _ (Option.some.inj h).symm
  | document => exact (Option.some.inj h).symm
  | integer =>
    have hread : decode integer (encode integer v) = some v := Json.int64?_toInt v
    rw [hread, Option.some.injEq] at h
    rw [h]
  | natural =>
    have hread : decode natural (encode natural v) = some v := Json.uint64?_ofId v
    rw [hread, Option.some.injEq] at h
    rw [h]
  | textList =>
    have hread : decode textList (encode textList v) = some v := Json.list?_ofStrings v
    rw [hread, Option.some.injEq] at h
    rw [h]
  | real =>
    cases v with
    | finite x => exact congrArg (encode real) (Option.some.inj h).symm
    | infinite | nan => cases h
  | nullable t ih =>
    cases v with
    | none =>
      obtain rfl := Option.some.inj h
      rfl
    | some v =>
      have hread : Json.option? t.decode (t.encode v) = some w := h
      show encode (nullable t) w = t.encode v
      by_cases hnull : t.encode v = .null
      · rw [hnull] at hread ⊢
        obtain rfl := Option.some.inj hread
        rfl
      · rw [Json.option?_of_ne_null hnull] at hread
        obtain ⟨u, hu, rfl⟩ := Option.map_eq_some_iff.1 hread
        exact ih hu

theorem rewrite_encode (t : FieldType) (v : t.Value) {j : Json}
    (h : t.rewrite (some (t.encode v)) = some j) : j = t.encode v := by
  rw [rewrite, Json.slotOf, ofSlot_given, Option.map_eq_some_iff] at h
  obtain ⟨w, hw, rfl⟩ := h
  exact t.encode_decode_encode hw

end FieldType

namespace Timestamp

def rewrite (o : Option Json) : Option Json :=
  ((Json.slotOf o).orDefault none (Json.option? ofJson?)).map (Json.ofOption toJson)

theorem rewrite_ofOption (t : Option Timestamp) :
    rewrite (some (Json.ofOption toJson t)) = some (Json.ofOption toJson t) := by
  cases t with
  | none => rfl
  | some t =>
    have hread : ofJson? (toJson t) = some t := by
      simp [ofJson?, toJson, text, read_write]
    have hne : toJson t ≠ .null := by simp [toJson]
    simp [rewrite, Json.orDefault_some, Json.ofOption, Json.option?_of_ne_null hne, hread]

end Timestamp

def Column.rewriteId (o : Option Json) : Option Json :=
  ((Json.slotOf o).orDefault 0 Json.uint64?).map Json.ofId

theorem Column.rewriteId_ofId (id : Id) :
    Column.rewriteId (some (.ofId id)) = some (.ofId id) := by
  rw [rewriteId, Json.orDefault_some, Json.uint64?_ofId, Option.map_some]

theorem Column.rewriteId_get? {d : Object} {id : Id} (h : d.get? Column.id = some (.ofId id)) :
    (Json.slotOf (d.get? Column.id)).orDefault 0 Json.uint64? = some id := by
  rw [h, Json.orDefault_some, Json.uint64?_ofId]

namespace Values

def cons {f : Field} {fs : List Field} (v : f.type.Value) (vs : Values fs) : Values (f :: fs) :=
  (v, vs)

theorem ofSlots_cons (slot : Nat → String → Json.Slot) (place : Nat) (f : Field) (fs : List Field) :
    ofSlots slot place (f :: fs) =
      (f.type.ofSlot (slot place f.name)).bind fun v => (ofSlots slot (place + 1) fs).map (cons v) := by
  rw [ofSlots]
  cases f.type.ofSlot (slot place f.name) with
  | none => rfl
  | some v => cases ofSlots slot (place + 1) fs <;> rfl

theorem ofSlots_isSome_iff (d : Object) (place : Nat) (fs : List Field) :
    (ofSlots (fun _ name => Json.slotOf (d.get? name)) place fs).isSome ↔
      ∀ f ∈ fs, (f.type.rewrite (d.get? f.name)).isSome := by
  induction fs generalizing place with
  | nil => exact ⟨fun _ _ h => (List.not_mem_nil h).elim, fun _ => rfl⟩
  | cons f fs ih =>
    rw [List.forall_mem_cons, ← ih (place + 1), ofSlots_cons, FieldType.rewrite]
    cases f.type.ofSlot (Json.slotOf (d.get? f.name)) <;> simp

theorem encode_ofSlots {d : Object} {place : Nat} {fs : List Field} {vs : Values fs}
    (h : ofSlots (fun _ name => Json.slotOf (d.get? name)) place fs = some vs) :
    List.Forall₂ (fun f m => m.1 = f.name ∧ f.type.rewrite (d.get? f.name) = some m.2) fs
      (vs.encode fs) := by
  induction fs generalizing place with
  | nil => exact .nil
  | cons f fs ih =>
    rw [ofSlots_cons, Option.bind_eq_some_iff] at h
    obtain ⟨v, hv, h⟩ := h
    obtain ⟨vs', hvs, rfl⟩ := Option.map_eq_some_iff.1 h
    exact .cons ⟨rfl, by rw [FieldType.rewrite, hv]; rfl⟩ (ih hvs)

theorem encode_kept {fs : List Field} (vs : Values fs) :
    List.Forall₂ (fun f m => m.1 = f.name ∧ ∀ v, f.type.rewrite (some m.2) = some v → v = m.2) fs
      (vs.encode fs) := by
  induction fs with
  | nil => exact .nil
  | cons f fs ih =>
    obtain ⟨v, vs⟩ := vs
    exact .cons ⟨rfl, fun _ h => FieldType.rewrite_encode f.type v h⟩ (ih vs)

end Values

namespace Record

variable {fields : List Field}

def members (x : Record fields) : Object :=
  [(Column.id, .ofId x.id), (Column.createdAt, Json.ofOption Timestamp.toJson x.createdAt),
    (Column.updatedAt, Json.ofOption Timestamp.toJson x.updatedAt),
    (Column.deletedAt, Json.ofOption Timestamp.toJson x.deletedAt)] ++ x.values.encode fields

theorem decode_eq_some {d : Object} {x : Record fields} :
    decode fields (.obj d) = some x ↔
      (Json.slotOf (d.get? Column.id)).orDefault 0 Json.uint64? = some x.id ∧
        (Json.slotOf (d.get? Column.createdAt)).orDefault none (Json.option? Timestamp.ofJson?) =
          some x.createdAt ∧
        (Json.slotOf (d.get? Column.updatedAt)).orDefault none (Json.option? Timestamp.ofJson?) =
          some x.updatedAt ∧
        (Json.slotOf (d.get? Column.deletedAt)).orDefault none (Json.option? Timestamp.ofJson?) =
          some x.deletedAt ∧
        Values.ofSlots (fun _ name => Json.slotOf (d.get? name)) 4 fields = some x.values := by
  obtain ⟨id, created, updated, deleted, values⟩ := x
  simp [decode, Json.fields?_obj, Option.bind_eq_some_iff]

end Record

namespace Schema

variable (S : Schema)

def rules : List EntityType.ColumnRule :=
  [(Column.id, Column.rewriteId), (Column.createdAt, Timestamp.rewrite),
    (Column.updatedAt, Timestamp.rewrite), (Column.deletedAt, Timestamp.rewrite)] ++
    S.fields.map fun f => (f.name, f.type.rewrite)

theorem decode_isSome_iff (d : Object) :
    (S.entity.decode (.obj d)).isSome ↔ ∀ rule ∈ S.rules, (rule.2 (d.get? rule.1)).isSome := by
  have hrules : (∀ rule ∈ S.rules, (rule.2 (d.get? rule.1)).isSome) ↔
      (Column.rewriteId (d.get? Column.id)).isSome ∧
        (Timestamp.rewrite (d.get? Column.createdAt)).isSome ∧
        (Timestamp.rewrite (d.get? Column.updatedAt)).isSome ∧
        (Timestamp.rewrite (d.get? Column.deletedAt)).isSome ∧
        ∀ f ∈ S.fields, (f.type.rewrite (d.get? f.name)).isSome := by
    simp [rules]
  rw [hrules, ← Values.ofSlots_isSome_iff d 4]
  simp only [Column.rewriteId, Timestamp.rewrite, Option.isSome_map, Option.isSome_iff_exists]
  constructor
  · rintro ⟨x, hx⟩
    obtain ⟨hid, hcreated, hupdated, hdeleted, hvalues⟩ := Record.decode_eq_some.1 hx
    exact ⟨⟨_, hid⟩, ⟨_, hcreated⟩, ⟨_, hupdated⟩, ⟨_, hdeleted⟩, _, hvalues⟩
  · rintro ⟨⟨id, hid⟩, ⟨created, hcreated⟩, ⟨updated, hupdated⟩, ⟨deleted, hdeleted⟩, values, hvalues⟩
    exact ⟨⟨id, created, updated, deleted, values⟩,
      Record.decode_eq_some.2 ⟨hid, hcreated, hupdated, hdeleted, hvalues⟩⟩

theorem rule_standard {c : String} (hc : c ∈ Column.standard) {f : Option Json → Option Json}
    (hf : (c, f) ∈ S.rules) :
    c = Column.id ∧ f = Column.rewriteId ∨ c ≠ Column.id ∧ f = Timestamp.rewrite := by
  have hown : c ∉ S.fields.map (·.name) := fun hm =>
    (List.nodup_append.1 S.distinct).2.2 c hc c hm rfl
  rcases List.mem_append.1 hf with hf | hf
  · simp only [List.mem_cons, Prod.mk.injEq, List.not_mem_nil, or_false] at hf
    rcases hf with ⟨rfl, rfl⟩ | ⟨rfl, rfl⟩ | ⟨rfl, rfl⟩ | ⟨rfl, rfl⟩
    · exact .inl ⟨rfl, rfl⟩
    all_goals exact .inr ⟨by decide, rfl⟩
  · obtain ⟨field, hfield, he⟩ := List.mem_map.1 hf
    exact absurd (List.mem_map.2 ⟨field, hfield, congrArg Prod.fst he⟩) hown

theorem rule_time {c : String} (hc : c ∈ Column.times) {f : Option Json → Option Json}
    (hf : (c, f) ∈ S.rules) : f = Timestamp.rewrite :=
  ((S.rule_standard (List.mem_cons_of_mem _ hc) hf).resolve_left fun h =>
    absurd (h.1 ▸ hc) (by decide)).2

theorem rule_stamp {c : String} {v : Json} (hv : Stamp c v) {f : Option Json → Option Json}
    (hf : (c, f) ∈ S.rules) : f (some v) = some v := by
  cases hv with
  | identity id =>
    obtain ⟨-, rfl⟩ := (S.rule_standard (by decide) hf).resolve_right fun h => h.1 rfl
    exact Column.rewriteId_ofId id
  | blank =>
    rw [S.rule_time (by decide) hf]
    exact Timestamp.rewrite_ofOption none
  | time t hm =>
    rw [S.rule_time hm hf]
    exact Timestamp.rewrite_ofOption (some t)

theorem ruled : S.entity.Ruled S.rules Record.members where
  nodup := by
    have h := S.distinct
    simpa [rules, Column.standard, Function.comp_def] using h
  encode_eq x := rfl
  decodes_iff := S.decode_isSome_iff
  writes := by
    intro d x hx
    obtain ⟨hid, hcreated, hupdated, hdeleted, hvalues⟩ := Record.decode_eq_some.1 hx
    refine .cons ⟨rfl, ?_⟩ (.cons ⟨rfl, ?_⟩ (.cons ⟨rfl, ?_⟩ (.cons ⟨rfl, ?_⟩ ?_)))
    · simp [Column.rewriteId, hid]
    · simp [Timestamp.rewrite, hcreated]
    · simp [Timestamp.rewrite, hupdated]
    · simp [Timestamp.rewrite, hdeleted]
    · exact List.forall₂_map_left_iff.2 (Values.encode_ofSlots hvalues)
  keeps x := by
    refine .cons ⟨rfl, fun v hv => ?_⟩ (.cons ⟨rfl, ?_⟩ (.cons ⟨rfl, ?_⟩ (.cons ⟨rfl, ?_⟩
      (List.forall₂_map_left_iff.2 (Values.encode_kept x.values)))))
    · simpa only [Column.rewriteId_ofId, Option.some.injEq, eq_comm] using hv
    all_goals exact EntityType.kept_of_eq (f := Timestamp.rewrite) (Timestamp.rewrite_ofOption _)
  stamps hv f hf := S.rule_stamp hv hf
  blank f hf := by
    rw [S.rule_time (by decide) hf]
    exact .inl (Timestamp.rewrite_ofOption none)
  identifies := by
    intro d x id hx hid
    have h := (Record.decode_eq_some.1 hx).1
    rw [Column.rewriteId_get? hid] at h
    obtain rfl := Option.some.inj h
    rfl
  identity_withIdentity id x := rfl

end Schema

end Recordkeeper
