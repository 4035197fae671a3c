import Recordkeeper.Proofs.Entity.Schema

set_option autoImplicit false

namespace Recordkeeper.Catalog

namespace Item

variable {β : Type} {name column : String} {write : β → Json} {read : Json → Option β}

def members (column : String) (write : β → Json) (x : Item β) : Object :=
  [(Column.id, .ofId x.id), (column, write x.value)]

def rules (column : String) (write : β → Json) (read : Json → Option β) :
    List EntityType.ColumnRule :=
  [(Column.id, Column.rewriteId), (column, fun o => ((Json.slotOf o).required read).map write)]

theorem decode_eq_some {d : Object} {x : Item β} :
    decode column read (.obj d) = some x ↔
      (Json.slotOf (d.get? Column.id)).orDefault 0 Json.uint64? = some x.id ∧
        (Json.slotOf (d.get? column)).required read = some x.value := by
  obtain ⟨id, value⟩ := x
  simp [decode, Json.fields?_obj, Option.bind_eq_some_iff]

theorem decode_isSome_iff (d : Object) :
    (decode column read (.obj d)).isSome ↔
      ∀ rule ∈ rules column write read, (rule.2 (d.get? rule.1)).isSome := by
  simp only [rules, List.forall_mem_cons, Column.rewriteId, Option.isSome_map]
  simp only [Option.isSome_iff_exists]
  constructor
  · rintro ⟨x, hx⟩
    obtain ⟨hid, hvalue⟩ := decode_eq_some.1 hx
    exact ⟨⟨_, hid⟩, ⟨_, hvalue⟩, fun _ h => (List.not_mem_nil h).elim⟩
  · rintro ⟨⟨id, hid⟩, ⟨value, hvalue⟩, -⟩
    exact ⟨⟨id, value⟩, decode_eq_some.2 ⟨hid, hvalue⟩⟩

theorem ruled (hcolumn : column ∉ Column.standard)
    (hread : ∀ b, (read (write b)).map write = some (write b)) :
    (entity name column write read).Ruled (rules column write read) (members column write) where
  nodup := by
    have hid : Column.id ≠ column := fun h => hcolumn (h ▸ by decide)
    simp [rules, hid]
  encode_eq x := rfl
  decodes_iff := decode_isSome_iff
  writes := by
    intro d x hx
    obtain ⟨hid, hvalue⟩ := decode_eq_some.1 hx
    refine .cons ⟨rfl, ?_⟩ (.cons ⟨rfl, ?_⟩ .nil)
    · simp [Column.rewriteId, hid]
    · simp [hvalue]
  keeps x := by
    refine .cons ⟨rfl, fun v hv => ?_⟩ (.cons ⟨rfl, fun w hw => ?_⟩ .nil)
    · simpa only [Column.rewriteId_ofId, Option.some.injEq, eq_comm] using hv
    · exact Option.some.inj (hw.symm.trans (hread x.value))
  stamps := by
    intro c v hv f hf
    simp only [rules, List.mem_cons, Prod.mk.injEq, List.not_mem_nil, or_false] at hf
    have hstandard : c ∈ Column.standard := by
      cases hv with
      | identity id => decide
      | blank => decide
      | time t hm => exact List.mem_cons_of_mem _ hm
    rcases hf with ⟨rfl, rfl⟩ | ⟨rfl, -⟩
    · generalize hc : Column.id = c at hv
      cases hv with
      | identity id => exact Column.rewriteId_ofId id
      | blank => exact absurd hc (by decide)
      | time t hm => exact absurd (hc ▸ hm) (by decide)
    · exact absurd hstandard hcolumn
  blank f hf := by
    simp only [rules, List.mem_cons, Prod.mk.injEq, List.not_mem_nil, or_false] at hf
    rcases hf with ⟨hid, -⟩ | ⟨rfl, -⟩
    · exact absurd hid (by decide)
    · exact absurd (by decide) hcolumn
  identifies := by
    intro d x id hx hid
    have h := (decode_eq_some.1 hx).1
    rw [Column.rewriteId_get? hid] at h
    obtain rfl := Option.some.inj h
    rfl
  identity_withIdentity id x := rfl

theorem decode_encode (hcolumn : column ≠ Column.id) (hread : ∀ b, read (write b) = some b)
    (x : Item β) : decode column read (encode column write x) = some x := by
  have hget (c : String) : (Object.ofMembers (members column write x)).get? c =
      (members column write x).get? c :=
    Object.get?_ofMembers (by simp [members, Ne.symm hcolumn]) c
  refine decode_eq_some.2 ⟨?_, ?_⟩
  · exact Column.rewriteId_get? (by rw [← members, hget, members, Object.get?_cons, if_pos rfl])
  · rw [← members, hget, members, Object.get?_cons, if_neg hcolumn, Object.get?_cons, if_pos rfl]
    exact hread x.value

end Item

theorem plain_ruled : plain.Ruled (Item.rules "value" .str Json.string?) (Item.members "value" .str) :=
  Item.ruled (by decide) fun _ => rfl

theorem plain_reads (x : Item String) : plain.Reads x := by
  intro d hx
  have hcolumn : "value" ≠ Column.id := by decide
  have hread (s : String) : Json.string? (.str s) = some s := rfl
  rw [← Option.some.inj hx]
  exact Option.isSome_of_eq_some (Item.decode_encode hcolumn hread x)

theorem plain_storable : plain.Storable := ⟨plain_ruled.columnar.keepable, plain_reads⟩

theorem token_storable : token.Storable where
  takesIdentity := plain_storable.takesIdentity
  takesStamp := plain_storable.takesStamp
  takesCreation := plain_storable.takesCreation
  identifies := plain_storable.identifies
  reads x d h := by
    refine plain_reads x d ?_
    simp only [token] at h
    split at h
    · cases h
    · exact h

theorem scalar_storable : scalar.Storable where
  takesIdentity _ h := by cases h
  takesStamp h := by cases h
  takesCreation h := by cases h
  identifies h := by cases h
  reads x d h := by cases h

theorem keepable : ∀ e ∈ entries, e.entity.Keepable := by
  have hschema (S : Schema) : S.entity.Keepable := S.ruled.columnar.keepable
  simp only [entries, List.forall_mem_cons]
  exact ⟨hschema user, hschema audit, hschema doc, plain_storable.toKeepable,
    token_storable.toKeepable, scalar_storable.toKeepable, fun _ h => (List.not_mem_nil h).elim⟩

end Recordkeeper.Catalog
