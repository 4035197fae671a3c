import Recordkeeper.Proofs.Table.Sorting

/-!
The order that a sort gives the values of a column. Values of one kind rank by what they hold, and
null before all of them. Across kinds a sort compares as a filter does, which takes its right side
to the kind of its left one; that is no order, whatever the two kinds are.
-/

set_option autoImplicit false

namespace Recordkeeper

namespace Json

inductive Kind where
  | whole
  | real
  | text
  | flag
  | compound
  deriving DecidableEq, Repr

def kind? : Json → Option Kind
  | .null => none
  | .bool _ => some .flag
  | .num (.int _) => some .whole
  | .num (.real _) => some .real
  | .str _ => some .text
  | .arr _ | .obj _ => some .compound

def Among (kinds : Kind → Prop) (v : Json) : Prop := ∀ k ∈ v.kind?, kinds k

/-- Where a value stands before its content counts: null first, then one kind after the other. -/
def rank (v : Json) : Nat :=
  match v.kind? with
  | none => 0
  | some .flag => 1
  | some .whole => 2
  | some .real => 3
  | some .text => 4
  | some .compound => 5

def measure : Json → Int
  | .bool true => 1
  | .num (.int n) => n
  | .num (.real x) => x.position
  | _ => 0

def wording : Json → String
  | .str s => s
  | _ => ""

def rankOrder : Json → Json → Ordering :=
  compareLex (compareOn rank) (compareLex (compareOn measure) (compareOn wording))

instance : Std.TransCmp rankOrder :=
  inferInstanceAs (Std.TransCmp
    (compareLex (compareOn rank) (compareLex (compareOn measure) (compareOn wording))))

variable {a b : Json}

theorem kind?_eq_none : a.kind? = none ↔ a = .null := by
  cases a with
  | num n => cases n <;> simp [kind?]
  | _ => simp [kind?]

theorem rankOrder_of_kind (h : a.kind? = b.kind?) :
    rankOrder a b = (compare a.measure b.measure).then (compare a.wording b.wording) := by
  have hrank : a.rank = b.rank := by rw [rank, rank, h]
  simp only [rankOrder, compareLex, compareOn, hrank, Std.ReflCmp.compare_self, Ordering.eq_then]

theorem rankOrder_swap (a b : Json) : rankOrder a b = (rankOrder b a).swap :=
  Std.OrientedCmp.eq_swap

theorem rankOrder_null_left (hb : b ≠ .null) : rankOrder .null b = .lt := by
  cases b with
  | null => exact absurd rfl hb
  | num n => cases n <;> rfl
  | _ => rfl

theorem rankOrder_null_right (ha : a ≠ .null) : rankOrder a .null = .gt := by
  rw [rankOrder_swap, rankOrder_null_left ha]
  rfl

def Kind.samples : Kind → List Json
  | whole => [.num (.int 0), .num (.int 1)]
  | real => [.num (.real .zero), .num (.real ⟨false, 1, by decide⟩)]
  | text => [.str "", .str "b"]
  | flag => [.bool false, .bool true]
  | compound => [.arr []]

theorem Kind.kind?_of_mem_samples {k : Kind} {v : Json} (h : v ∈ k.samples) : v.kind? = some k := by
  cases k <;> simp only [samples, List.mem_cons, List.not_mem_nil, or_false] at h <;>
    rcases h with rfl | rfl <;> rfl

end Json

/-- What a sort asks of a comparison: it says the same from either side, and not greater is
transitive. -/
structure PreorderOn {β : Type} (cmp : β → β → Ordering) (P : β → Prop) : Prop where
  oriented : ∀ a b, P a → P b → cmp a b = (cmp b a).swap
  transitive : ∀ a b c, P a → P b → P c → cmp a b ≠ .gt → cmp b c ≠ .gt → cmp a c ≠ .gt

theorem PreorderOn.of_eq {β : Type} {cmp cmp' : β → β → Ordering} [Std.TransCmp cmp'] {P : β → Prop}
    (h : ∀ a b, P a → P b → cmp a b = cmp' a b) : PreorderOn cmp P where
  oriented a b ha hb := by
    rw [h a b ha hb, h b a hb ha]
    exact Std.OrientedCmp.eq_swap
  transitive a b c ha hb hc hab hbc := by
    rw [h a b ha hb] at hab
    rw [h b c hb hc] at hbc
    rw [h a c ha hc]
    exact Ordering.isLE_iff_ne_gt.1 (Std.TransCmp.isLE_trans (Ordering.isLE_iff_ne_gt.2 hab)
      (Ordering.isLE_iff_ne_gt.2 hbc))

namespace Matching

open Json (Kind Among rankOrder)

theorem sortOrder_numbers (m n : Number) :
    sortOrder (.num m) (.num n) =
      if m.isInt && !n.isInt then .eq else (m.order? n).getD .eq := by
  cases h : m.isInt && !n.isInt with
  | true =>
    have herror : order? (.num m) (.num n) = .error (invalidNumber m (.num n)) := by
      simp only [order?, numberFor, h]
      rfl
    simp [sortOrder, Json.isNull, herror]
  | false =>
    have hok : order? (.num m) (.num n) = .ok (m.order? n) := by
      simp only [order?, numberFor, h]
      rfl
    simp only [sortOrder, Json.isNull, hok]
    cases m.order? n <;> rfl

theorem sortOrder_numbers_of_kind {m n : Number}
    (h : (Json.num m).kind? = (Json.num n).kind?) :
    sortOrder (.num m) (.num n) = compare (Json.num m).measure (Json.num n).measure := by
  rw [sortOrder_numbers]
  cases m with
  | int => cases n with
    | int => rfl
    | real => cases h
  | real => cases n with
    | int => cases h
    | real => rfl

variable {a b : Json}

theorem sortOrder_of_kind (h : a.kind? = b.kind?) :
    sortOrder a b = (compare a.measure b.measure).then (compare a.wording b.wording) := by
  cases a with
  | null => cases b with
    | null => rfl
    | num n => cases n <;> cases h
    | _ => cases h
  | bool x => cases b with
    | bool y => cases x <;> cases y <;> rfl
    | num n => cases n <;> cases h
    | _ => cases h
  | num m => cases b with
    | num n =>
      rw [sortOrder_numbers_of_kind h]
      exact (Ordering.then_eq (o := compare (Json.num m).measure (Json.num n).measure)).symm
    | _ => cases m <;> cases h
  | str s => cases b with
    | str t => rfl
    | num n => cases n <;> cases h
    | _ => cases h
  | arr | obj => cases b with
    | arr | obj => rfl
    | num n => cases n <;> cases h
    | _ => cases h

theorem sortOrder_null_left (hb : b ≠ .null) : sortOrder .null b = .lt := by
  cases b with
  | null => exact absurd rfl hb
  | _ => rfl

theorem sortOrder_null_right (ha : a ≠ .null) : sortOrder a .null = .gt := by
  cases a with
  | null => exact absurd rfl ha
  | _ => rfl

/-- Where no two kinds meet, a sort compares by rank. -/
theorem sortOrder_eq_rankOrder (h : ∀ k ∈ a.kind?, ∀ k' ∈ b.kind?, k = k') :
    sortOrder a b = rankOrder a b := by
  by_cases hsame : a.kind? = b.kind?
  · rw [sortOrder_of_kind hsame, Json.rankOrder_of_kind hsame]
  cases hka : a.kind? with
  | none =>
    obtain rfl := Json.kind?_eq_none.1 hka
    have hb : b ≠ .null := fun hb => hsame (by rw [hb])
    rw [sortOrder_null_left hb, Json.rankOrder_null_left hb]
  | some k => cases hkb : b.kind? with
    | none =>
      obtain rfl := Json.kind?_eq_none.1 hkb
      have ha : a ≠ .null := fun ha => hsame (by rw [ha])
      rw [sortOrder_null_right ha, Json.rankOrder_null_right ha]
    | some k' => exact absurd (by rw [hka, hkb, h k hka k' hkb]) hsame

theorem preorderOn_sortOrder {kinds : Kind → Prop} (hone : ∀ k k', kinds k → kinds k' → k = k') :
    PreorderOn sortOrder (Among kinds) :=
  .of_eq fun _ _ ha hb => sortOrder_eq_rankOrder fun k hk k' hk' => hone k k' (ha k hk) (hb k' hk')

/-- Any two kinds hold values that a sort does not put in an order. -/
theorem samples_clash (k k' : Kind) : k ≠ k' →
    ∃ a ∈ k.samples ++ k'.samples, ∃ b ∈ k.samples ++ k'.samples, ∃ c ∈ k.samples ++ k'.samples,
      sortOrder a b ≠ (sortOrder b a).swap ∨
        sortOrder a b ≠ .gt ∧ sortOrder b c ≠ .gt ∧ sortOrder a c = .gt := by
  cases k <;> cases k' <;> decide +kernel

theorem preorderOn_sortOrder_iff (kinds : Kind → Prop) :
    PreorderOn sortOrder (Among kinds) ↔ ∀ k k', kinds k → kinds k' → k = k' := by
  refine ⟨fun hpre k k' hk hk' => ?_, preorderOn_sortOrder⟩
  by_contra hne
  obtain ⟨a, ha, b, hb, c, hc, hclash⟩ := samples_clash k k' hne
  have hamong {v : Json} (hv : v ∈ k.samples ++ k'.samples) : v.Among kinds := by
    intro kind hkind
    rcases List.mem_append.1 hv with hv | hv
    · exact Option.some.inj ((Kind.kind?_of_mem_samples hv).symm.trans hkind) ▸ hk
    · exact Option.some.inj ((Kind.kind?_of_mem_samples hv).symm.trans hkind) ▸ hk'
  rcases hclash with hswap | ⟨hab, hbc, hac⟩
  · exact hswap (hpre.oriented a b (hamong ha) (hamong hb))
  · exact hpre.transitive a b c (hamong ha) (hamong hb) (hamong hc) hab hbc hac

end Matching

namespace SortKey

open Json (rankOrder)

def rankOrder (key : SortKey) : Matching.Columns → Matching.Columns → Ordering :=
  match key.direction with
  | .ascending => fun a b => (a key.field).rankOrder (b key.field)
  | .descending => fun a b => (b key.field).rankOrder (a key.field)

instance (key : SortKey) : Std.TransCmp key.rankOrder where
  eq_swap {a b} := by
    cases hd : key.direction <;> simp only [rankOrder, hd] <;>
      exact Std.OrientedCmp.eq_swap
  isLE_trans {a b c} hab hbc := by
    cases hd : key.direction <;> simp only [rankOrder, hd] at hab hbc ⊢
    · exact Std.TransCmp.isLE_trans hab hbc
    · exact Std.TransCmp.isLE_trans hbc hab

def rankAll : List SortKey → Matching.Columns → Matching.Columns → Ordering
  | [] => fun _ _ => .eq
  | key :: keys => compareLex key.rankOrder (rankAll keys)

instance (keys : List SortKey) : Std.TransCmp (rankAll keys) := by
  induction keys with
  | nil => exact { eq_swap := rfl, isLE_trans := fun _ _ => rfl }
  | cons key keys ih =>
    exact inferInstanceAs (Std.TransCmp (compareLex key.rankOrder (rankAll keys)))

end SortKey

namespace Matching

theorem rowOrder_eq_rankAll {keys : List SortKey} {a b : Columns}
    (h : ∀ key ∈ keys, ∀ k ∈ (a key.field).kind?, ∀ k' ∈ (b key.field).kind?, k = k') :
    rowOrder a b keys = SortKey.rankAll keys a b := by
  induction keys with
  | nil => rfl
  | cons key keys ih =>
    obtain ⟨hkey, hkeys⟩ := List.forall_mem_cons.1 h
    simp only [rowOrder, ih hkeys, sortOrder_eq_rankOrder hkey, SortKey.rankAll, compareLex,
      SortKey.rankOrder]
    cases key.direction with
    | ascending => rfl
    | descending => rw [← Json.rankOrder_swap]

end Matching

namespace Table

def HoldsKind (rows : List (Id × Row)) (field : String) (kind : Json.Kind) : Prop :=
  ∀ e ∈ rows, (e.2.column e.1 field).Among (· = kind)

def rankRows (keys : List SortKey) (a b : Id × Row) : Ordering :=
  SortKey.rankAll keys (a.2.column a.1) (b.2.column b.1)

instance (keys : List SortKey) : Std.TransCmp (rankRows keys) where
  eq_swap {a b} := by
    unfold rankRows
    exact Std.OrientedCmp.eq_swap
  isLE_trans {a b c} hab hbc := by
    unfold rankRows at *
    exact Std.TransCmp.isLE_trans hab hbc

theorem comparedBy_rankRows {keys : List SortKey} {rows : List (Id × Row)}
    (h : ∀ key ∈ keys, ∃ kind, HoldsKind rows key.field kind) :
    ComparedBy keys (rankRows keys) rows := by
  intro a ha b hb
  refine Matching.rowOrder_eq_rankAll fun key hkey k hk k' hk' => ?_
  obtain ⟨kind, hkind⟩ := h key hkey
  exact (hkind a ha k hk).trans (hkind b hb k' hk').symm

end Table

end Recordkeeper
