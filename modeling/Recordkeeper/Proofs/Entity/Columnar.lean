import Mathlib.Data.List.Forall2
import Recordkeeper.Proofs.Entity.Storable

/-!
Types whose documents are read and written column by column. What the record of a document holds in
a column then depends on what the document holds in that column alone.
-/

set_option autoImplicit false

namespace Recordkeeper

namespace EntityType

/-- A type that reads and writes documents column by column. What a document holds in a column is
`none` if the document does not have the column; `rewrite` is what is written back of it, if it can
be read at all. -/
structure Columnwise {α : Type} (E : EntityType α) where
  rewrite : String → Option Json → Option (Option Json)
  decodes_iff (d : Object) : (E.decode (.obj d)).isSome ↔ ∀ c, (rewrite c (d.get? c)).isSome
  rewrites {d : Object} {x : α} : E.decode (.obj d) = some x →
    ∃ e : Object, E.encode x = some (.obj e) ∧ ∀ c, rewrite c (d.get? c) = some (e.get? c)
  keeps {x : α} {d : Object} : E.encode x = some (.obj d) →
    ∀ c o, rewrite c (d.get? c) = some o → o = d.get? c
  identifies {d : Object} {x : α} {id : Id} : E.decode (.obj d) = some x →
    d.get? Column.id = some (.ofId id) →
    E.identity (E.withIdentity id x) = id ∧ E.encode (E.withIdentity id x) = E.encode x

/-- One that takes the values of a store, too. -/
structure Columnar {α : Type} (E : EntityType α) extends E.Columnwise where
  stamps {c : String} {v : Json} : Stamp c v →
    rewrite c (some v) = some (some v) ∨ ∀ o, rewrite c o = some none
  /-- Where a time of creation may be missing it may be null. -/
  takesBlank : (rewrite Column.createdAt none).isSome →
    (rewrite Column.createdAt (some .null)).isSome
  keepsBlank {o : Option Json} : rewrite Column.createdAt (some .null) = some o →
    o.getD .null = .null

theorem Columnwise.rewrite_document {α : Type} {E : EntityType α} (C : E.Columnwise) {id : Id}
    {row : Row} {x : α} (h : Table.recordOf E id row = .ok x) :
    ∃ e : Object, E.encode x = some (.obj e) ∧
      ∀ c, C.rewrite c ((row.document id).get? c) = some (e.get? c) := by
  obtain ⟨y, hy, rfl⟩ := Table.recordOf_ok h
  rw [(C.identifies hy (row.get?_document_id id)).2]
  exact C.rewrites hy

namespace Columnar

variable {α : Type} {E : EntityType α} (C : E.Columnar)

include C in
theorem isSome_stamp {c : String} {v : Json} (h : Stamp c v) : (C.rewrite c (some v)).isSome := by
  rcases C.stamps h with h | h <;> simp [h]

include C in
theorem decode_replace {d : Object} (h : (E.decode (.obj d)).isSome) {c : String} {v : Json}
    (hv : (C.rewrite c (some v)).isSome) : (E.decode (.obj (d.replace c v))).isSome := by
  rw [C.decodes_iff] at h ⊢
  intro c'
  by_cases hc : c' = c
  · subst hc
    cases hg : d.get? c' with
    | none => simpa [Object.get?_replace, hg] using h c'
    | some w => simp [Object.get?_replace, hg, hv]
  · rw [Object.get?_replace_of_ne hc]
    exact h c'

include C in
theorem keepable : E.Keepable where
  takesIdentity id h := by
    rw [C.decodes_iff] at h ⊢
    intro c
    by_cases hc : c = Column.id
    · subst hc
      simp [Object.get?_put, C.isSome_stamp (.identity id)]
    · rw [Object.get?_put_of_ne hc]
      exact h c
  takesStamp h hv := C.decode_replace h (C.isSome_stamp hv)
  takesCreation {d other} h ho := by
    refine C.decode_replace h ?_
    have hcreated := (C.decodes_iff other).1 ho Column.createdAt
    cases hc : other.get? Column.createdAt with
    | none => exact C.takesBlank (hc ▸ hcreated)
    | some v => exact hc ▸ hcreated
  identifies hx hid := (C.identifies hx hid).1

end Columnar

abbrev ColumnRule := String × (Option Json → Option Json)

def rewriteBy (rules : List ColumnRule) (c : String) (o : Option Json) : Option (Option Json) :=
  match rules.lookup c with
  | some rule => (rule o).map some
  | none => some none

theorem rewriteBy_isSome_iff {rules : List ColumnRule} (hn : (rules.map (·.1)).Nodup) (d : Object) :
    (∀ c, (rewriteBy rules c (d.get? c)).isSome) ↔
      ∀ rule ∈ rules, (rule.2 (d.get? rule.1)).isSome := by
  unfold rewriteBy
  induction rules with
  | nil => simp
  | cons rule rules ih =>
    obtain ⟨name, f⟩ := rule
    obtain ⟨hname, hrest⟩ := List.nodup_cons.1 hn
    have hnone : rules.lookup name = none := by
      refine List.lookup_eq_none_iff.2 fun e he => ?_
      have hne : e.1 ≠ name := fun h => hname (List.mem_map.2 ⟨e, he, h⟩)
      simpa using Ne.symm hne
    rw [List.forall_mem_cons, ← ih hrest]
    constructor
    · refine fun h => ⟨by simpa using h name, fun c => ?_⟩
      by_cases hc : c = name
      · subst hc
        simp [hnone]
      · simpa [List.lookup_cons, beq_false_of_ne hc] using h c
    · rintro ⟨hf, h⟩ c
      by_cases hc : c = name
      · subst hc
        simpa using hf
      · simpa [List.lookup_cons, beq_false_of_ne hc] using h c

theorem rewriteBy_members {rules : List ColumnRule} {members : Object} {o : String → Option Json}
    (h : List.Forall₂ (fun rule m => m.1 = rule.1 ∧ rule.2 (o rule.1) = some m.2) rules members)
    (c : String) : rewriteBy rules c (o c) = some (members.get? c) := by
  unfold rewriteBy
  induction h with
  | nil => rfl
  | @cons rule m rules members hm _ ih =>
    obtain ⟨name, f⟩ := rule
    obtain ⟨key, v⟩ := m
    obtain ⟨rfl, hv⟩ := hm
    by_cases hc : c = key
    · subst hc
      have hf : f (o c) = some v := hv
      simp [Object.get?_cons, hf]
    · simpa [List.lookup_cons, beq_false_of_ne hc, Object.get?_cons, hc] using ih

theorem kept_of_eq {f : Option Json → Option Json} {j : Json} (h : f (some j) = some j) (v : Json)
    (hv : f (some j) = some v) : v = j := Option.some.inj (hv.symm.trans h)

theorem rewriteBy_kept {rules : List ColumnRule} {members : Object}
    (h : List.Forall₂ (fun rule m => m.1 = rule.1 ∧ ∀ v, rule.2 (some m.2) = some v → v = m.2) rules
      members)
    {c : String} {o : Option Json} (ho : rewriteBy rules c (members.get? c) = some o) :
    o = members.get? c := by
  unfold rewriteBy at ho
  induction h with
  | nil => exact (Option.some.inj ho).symm
  | @cons rule m rules members hm _ ih =>
    obtain ⟨name, f⟩ := rule
    obtain ⟨key, v⟩ := m
    obtain ⟨rfl, hv⟩ := hm
    by_cases hc : c = key
    · subst hc
      rw [Object.get?_cons, if_pos rfl] at ho ⊢
      simp only [List.lookup_cons, beq_self_eq_true, Option.map_eq_some_iff] at ho
      obtain ⟨w, hw, rfl⟩ := ho
      rw [hv w hw]
    · rw [Object.get?_cons, if_neg hc] at ho ⊢
      exact ih (by simpa [List.lookup_cons, beq_false_of_ne hc] using ho)

theorem names_of_forall₂ {rules : List ColumnRule} {members : Object}
    {P : ColumnRule → String × Json → Prop}
    (h : List.Forall₂ (fun rule m => m.1 = rule.1 ∧ P rule m) rules members) :
    members.map (·.1) = rules.map (·.1) := by
  induction h with
  | nil => rfl
  | cons hm _ ih => simp [hm.1, ih]

theorem mem_of_lookup {rules : List ColumnRule} {c : String} {f : Option Json → Option Json}
    (h : rules.lookup c = some f) : (c, f) ∈ rules := by
  obtain ⟨l, r, hl, -⟩ := List.lookup_eq_some_iff.1 h
  simp [hl]

structure Ruled {α : Type} (E : EntityType α) (rules : List ColumnRule) (members : α → Object) :
    Prop where
  nodup : (rules.map (·.1)).Nodup
  encode_eq (x : α) : E.encode x = some (.obj (Object.ofMembers (members x)))
  decodes_iff (d : Object) :
    (E.decode (.obj d)).isSome ↔ ∀ rule ∈ rules, (rule.2 (d.get? rule.1)).isSome
  writes {d : Object} {x : α} : E.decode (.obj d) = some x →
    List.Forall₂ (fun rule m => m.1 = rule.1 ∧ rule.2 (d.get? rule.1) = some m.2) rules (members x)
  keeps (x : α) :
    List.Forall₂ (fun rule m => m.1 = rule.1 ∧ ∀ v, rule.2 (some m.2) = some v → v = m.2) rules
      (members x)
  stamps {c : String} {v : Json} : Stamp c v → ∀ f, (c, f) ∈ rules → f (some v) = some v
  blank (f : Option Json → Option Json) : (Column.createdAt, f) ∈ rules →
    f (some .null) = some .null ∨ (f none = none ∧ f (some .null) = none)
  identifies {d : Object} {x : α} {id : Id} : E.decode (.obj d) = some x →
    d.get? Column.id = some (.ofId id) → E.withIdentity id x = x
  identity_withIdentity (id : Id) (x : α) : E.identity (E.withIdentity id x) = id

namespace Ruled

variable {α : Type} {E : EntityType α} {rules : List ColumnRule} {members : α → Object}

theorem get?_members (R : E.Ruled rules members) (x : α) (c : String) :
    (Object.ofMembers (members x)).get? c = (members x).get? c :=
  Object.get?_ofMembers (names_of_forall₂ (R.keeps x) ▸ R.nodup) c

def columnar (R : E.Ruled rules members) : E.Columnar where
  rewrite := rewriteBy rules
  decodes_iff d := by rw [R.decodes_iff, rewriteBy_isSome_iff R.nodup]
  rewrites := by
    intro d x hx
    refine ⟨_, R.encode_eq x, fun c => ?_⟩
    rw [R.get?_members]
    exact rewriteBy_members (o := fun c => Object.get? c d) (R.writes hx) c
  keeps := by
    intro x d hd c o ho
    rw [R.encode_eq, Option.some.injEq, Json.obj.injEq] at hd
    rw [← hd, R.get?_members] at ho ⊢
    exact rewriteBy_kept (R.keeps x) ho
  stamps := by
    intro c v hv
    unfold rewriteBy
    cases hc : rules.lookup c with
    | none => exact .inr fun _ => rfl
    | some f => exact .inl (by simp [R.stamps hv f (mem_of_lookup hc)])
  takesBlank := by
    unfold rewriteBy
    cases hc : rules.lookup Column.createdAt with
    | none => simp
    | some f => rcases R.blank f (mem_of_lookup hc) with hf | ⟨hf, -⟩ <;> simp [hf]
  keepsBlank := by
    intro o ho
    unfold rewriteBy at ho
    cases hc : rules.lookup Column.createdAt with
    | none =>
      rw [hc] at ho
      rw [← Option.some.inj ho]
      rfl
    | some f =>
      rw [hc] at ho
      rcases R.blank f (mem_of_lookup hc) with hf | ⟨-, hf⟩
      · simp only [hf, Option.map_some, Option.some.injEq] at ho
        simp [← ho]
      · simp [hf] at ho
  identifies hx hid := ⟨R.identity_withIdentity _ _, by rw [R.identifies hx hid]⟩

end Ruled

end EntityType

end Recordkeeper
