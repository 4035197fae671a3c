import Mathlib.Data.String.Basic
import Recordkeeper.Entity.Catalog
import Recordkeeper.Proofs.Run
import Recordkeeper.Proofs.Table.Ranking

set_option autoImplicit false

namespace Recordkeeper

namespace Json

/-- One value stands before another: null before all values, whole numbers by value, texts by code
points, false before true. -/
inductive Below : Json → Json → Prop where
  | null {v : Json} : v ≠ .null → Below .null v
  | whole {m n : Int} : m < n → Below (.num (.int m)) (.num (.int n))
  | text {s t : String} : s.toList < t.toList → Below (.str s) (.str t)
  | flag : Below (.bool false) (.bool true)

variable {a b : Json}

theorem among_whole : a.Among (· = .whole) ↔ a = .null ∨ ∃ n, a = .num (.int n) := by
  cases a with
  | num n => cases n <;> simp [Among, kind?]
  | _ => simp [Among, kind?]

theorem among_text : a.Among (· = .text) ↔ a = .null ∨ ∃ s, a = .str s := by
  cases a with
  | num n => cases n <;> simp [Among, kind?]
  | _ => simp [Among, kind?]

theorem among_flag : a.Among (· = .flag) ↔ a = .null ∨ ∃ b, a = .bool b := by
  cases a with
  | num n => cases n <;> simp [Among, kind?]
  | _ => simp [Among, kind?]

theorem rankOrder_whole (m n : Int) :
    rankOrder (.num (.int m)) (.num (.int n)) = compare m n := by
  have hkind : (num (.int m)).kind? = (num (.int n)).kind? := rfl
  rw [rankOrder_of_kind hkind]
  exact Ordering.then_eq

theorem rankOrder_text (s t : String) : rankOrder (.str s) (.str t) = compare s t := rfl

theorem rankOrder_flag (x y : Bool) : rankOrder (.bool x) (.bool y) = compare x y := by
  cases x <;> cases y <;> rfl

theorem below_or_eq_of_null (h : a = .null ∨ b = .null) :
    (rankOrder a b = .lt → Below a b) ∧ (rankOrder a b = .eq → a = b) := by
  by_cases ha : a = .null
  · subst ha
    by_cases hb : b = .null
    · subst hb
      exact ⟨nofun, fun _ => rfl⟩
    · rw [rankOrder_null_left hb]
      exact ⟨fun _ => .null hb, nofun⟩
  · obtain rfl := h.resolve_left ha
    rw [rankOrder_null_right ha]
    exact ⟨nofun, nofun⟩

/-- The kinds whose values are told apart by the order. -/
def Kind.exact : List Kind := [.whole, .text, .flag]

theorem below_or_eq {kind : Kind} (hkind : kind ∈ Kind.exact) (ha : a.Among (· = kind))
    (hb : b.Among (· = kind)) :
    (rankOrder a b = .lt → Below a b) ∧ (rankOrder a b = .eq → a = b) := by
  by_cases hnull : a = .null ∨ b = .null
  · exact below_or_eq_of_null hnull
  obtain ⟨hna, hnb⟩ := not_or.1 hnull
  simp only [Kind.exact, List.mem_cons, List.not_mem_nil, or_false] at hkind
  rcases hkind with rfl | rfl | rfl
  · obtain ⟨m, rfl⟩ := (among_whole.1 ha).resolve_left hna
    obtain ⟨n, rfl⟩ := (among_whole.1 hb).resolve_left hnb
    rw [rankOrder_whole, compare_lt_iff_lt, compare_eq_iff_eq]
    exact ⟨.whole, fun h => by rw [h]⟩
  · obtain ⟨s, rfl⟩ := (among_text.1 ha).resolve_left hna
    obtain ⟨t, rfl⟩ := (among_text.1 hb).resolve_left hnb
    rw [rankOrder_text, compare_lt_iff_lt, compare_eq_iff_eq]
    exact ⟨fun h => .text (String.lt_iff_toList_lt.1 h), fun h => by rw [h]⟩
  · obtain ⟨x, rfl⟩ := (among_flag.1 ha).resolve_left hna
    obtain ⟨y, rfl⟩ := (among_flag.1 hb).resolve_left hnb
    rw [rankOrder_flag]
    cases x <;> cases y <;> simp [Below.flag]

end Json

def SortKey.Puts (key : SortKey) (a b : Json) : Prop :=
  match key.direction with
  | .ascending => a.Below b
  | .descending => b.Below a

theorem SortKey.puts_or_eq {key : SortKey} {kind : Json.Kind} (hkind : kind ∈ Json.Kind.exact)
    {a b : Matching.Columns} (ha : (a key.field).Among (· = kind))
    (hb : (b key.field).Among (· = kind)) :
    (key.rankOrder a b = .lt → key.Puts (a key.field) (b key.field)) ∧
      (key.rankOrder a b = .eq → a key.field = b key.field) := by
  cases hd : key.direction with
  | ascending =>
    simp only [SortKey.rankOrder, SortKey.Puts, hd]
    exact Json.below_or_eq hkind ha hb
  | descending =>
    simp only [SortKey.rankOrder, SortKey.Puts, hd]
    exact (Json.below_or_eq hkind hb ha).imp_right fun h heq => (h heq).symm

namespace Table

/-- The order of a sorted query: the first key that tells two rows apart decides, and rows that no
key tells apart stand by identity. -/
inductive InOrder : List SortKey → Id × Row → Id × Row → Prop where
  | identity {a b : Id × Row} : a.1 < b.1 → InOrder [] a b
  | decided {key : SortKey} {keys : List SortKey} {a b : Id × Row} :
      key.Puts (a.2.column a.1 key.field) (b.2.column b.1 key.field) → InOrder (key :: keys) a b
  | tied {key : SortKey} {keys : List SortKey} {a b : Id × Row} :
      a.2.column a.1 key.field = b.2.column b.1 key.field → InOrder keys a b →
        InOrder (key :: keys) a b

theorem inOrder_of_precedes {keys : List SortKey} {rows : List (Id × Row)}
    (h : ∀ key ∈ keys, ∃ kind ∈ Json.Kind.exact, HoldsKind rows key.field kind) {a b : Id × Row}
    (ha : a ∈ rows) (hb : b ∈ rows) (hab : Precedes (rankRows keys) (fun a b => a.1 < b.1) a b) :
    InOrder keys a b := by
  induction keys with
  | nil =>
    rcases hab with hlt | ⟨-, hid⟩
    · cases hlt
    · exact .identity hid
  | cons key keys ih =>
    obtain ⟨⟨kind, hexact, hkind⟩, hkeys⟩ := List.forall_mem_cons.1 h
    obtain ⟨hputs, hsame⟩ := key.puts_or_eq hexact (hkind a ha) (hkind b hb)
    have hfirst : rankRows (key :: keys) a b =
        (key.rankOrder (a.2.column a.1) (b.2.column b.1)).then (rankRows keys a b) := rfl
    rw [Precedes, hfirst] at hab
    cases ho : key.rankOrder (a.2.column a.1) (b.2.column b.1) with
    | lt => exact .decided (hputs ho)
    | eq =>
      rw [ho] at hab
      exact .tied (hsame ho) (ih hkeys hab)
    | gt => simp [ho] at hab

/-- A sorted query gives the records that it gives without an order, in the order of its keys. -/
theorem sorted_and_stable {α : Type} {E : EntityType α} {t : Table} (ht : Ordered t.rows)
    {q : Query} {keys : List SortKey} (hq : q.order = some (.keys keys))
    (hkeys : ∀ key ∈ keys, ∃ kind ∈ Json.Kind.exact, HoldsKind t.rows key.field kind)
    {records : List α} (h : t.query E q none = .ok records) :
    ∃ rows unsorted,
      t.query E { q with order := none } none = .ok unsorted ∧ records.Perm unsorted ∧
      List.Forall₂ (fun e x => recordOf E e.1 e.2 = .ok x) rows records ∧
      (∀ e ∈ rows, t.get? e.1 = some e.2) ∧ rows.Pairwise (InOrder keys) := by
  obtain ⟨found, keys', hfound, hkeys', hrecords⟩ := query_eq_ok.1 h
  rw [hq] at hkeys'
  obtain rfl : keys = keys' := Except.ok.inj hkeys'
  have hsub := matching_sublist hfound
  obtain ⟨unsorted, hunsorted, hperm⟩ :=
    List.perm_comp_forall₂ (perm_sort keys found).symm hrecords
  have hmem {e : Id × Row} (he : e ∈ sort keys found) : e ∈ t.rows :=
    hsub.subset ((perm_sort keys found).subset he)
  refine ⟨sort keys found, unsorted, ?_, hperm.symm, hrecords, fun e he => ?_, ?_⟩
  · have hsame : matching { q with order := none } t.rows = matching q t.rows :=
      matching_verdicts fun _ _ => rfl
    refine query_eq_ok.2 ⟨found, [], hsame.trans hfound, rfl, ?_⟩
    rwa [sort_nil]
  · exact (ht.mem_iff e).1 (hmem he)
  · have hcompared : ComparedBy keys (rankRows keys) found := by
      refine comparedBy_rankRows fun key hkey => ?_
      obtain ⟨kind, -, hkind⟩ := hkeys key hkey
      exact ⟨kind, fun e he => hkind e (hsub.subset he)⟩
    have hsorted := pairwise_sort hcompared (ht.sublist hsub)
    exact hsorted.imp_of_mem fun ha hb hab => inOrder_of_precedes hkeys (hmem ha) (hmem hb) hab

def border : Table where
  rows := [(1, { data := [("v", .num (.int (-1)))] }),
    (2, { data := [("v", .num (.int 9223372036854775808))] }), (3, { data := [("v", .null)] }),
    (4, { data := [("v", .num (.int 9223372036854775808))] })]
  counter := 4

theorem border_whole : HoldsKind border.rows "v" .whole := by
  have hcolumns : ∀ e ∈ border.rows, ∀ kind ∈ (e.2.column e.1 "v").kind?, kind = .whole := by
    decide +kernel
  exact hcolumns

def largestFirst : Query := { order := some (.keys [⟨"v", .descending⟩]) }

theorem sorted_border :
    border.query Catalog.cell largestFirst none =
        .ok [⟨2, .num (.int 9223372036854775808)⟩, ⟨4, .num (.int 9223372036854775808)⟩,
          ⟨1, .num (.int (-1))⟩, ⟨3, .null⟩] ∧
      ∃ rows : List (Id × Row), rows.length = 4 ∧ rows.Pairwise (InOrder [⟨"v", .descending⟩]) := by
  have hrecords : border.query Catalog.cell largestFirst none =
      .ok [⟨2, .num (.int 9223372036854775808)⟩, ⟨4, .num (.int 9223372036854775808)⟩,
        ⟨1, .num (.int (-1))⟩, ⟨3, .null⟩] := by decide +kernel
  have hordered : Ordered border.rows := by
    unfold Ordered
    decide +kernel
  have hkeys : ∀ key ∈ [(⟨"v", .descending⟩ : SortKey)], ∃ kind ∈ Json.Kind.exact,
      HoldsKind border.rows key.field kind :=
    List.forall_mem_singleton.2 ⟨.whole, by decide, border_whole⟩
  obtain ⟨rows, -, -, -, hrows, -, hsorted⟩ := sorted_and_stable hordered rfl hkeys hrecords
  exact ⟨hrecords, rows, hrows.length_eq, hsorted⟩

end Table

/-- Values of the given kinds and null compare in an order if and only if all are of one kind; by any
keys whose columns hold one kind each, rows compare in an order. -/
theorem Matching.preorder_iff_oneKind (kinds : Json.Kind → Prop) (keys : List SortKey)
    (rows : List (Id × Row)) :
    (PreorderOn sortOrder (Json.Among kinds) ↔ ∀ k k', kinds k → kinds k' → k = k') ∧
      ((∀ key ∈ keys, ∃ kind, Table.HoldsKind rows key.field kind) →
        PreorderOn (fun a b => rowOrder (a.2.column a.1) (b.2.column b.1) keys) (· ∈ rows)) :=
  ⟨preorderOn_sortOrder_iff kinds, fun h => .of_eq fun a b ha hb =>
    Table.comparedBy_rankRows h a ha b hb⟩

theorem Matching.preorder_border :
    PreorderOn sortOrder (Json.Among (· = .whole)) ∧
    (∀ key ∈ [(⟨"v", .descending⟩ : SortKey)], ∃ kind,
      Table.HoldsKind Table.border.rows key.field kind) ∧
    PreorderOn (fun a b => rowOrder (a.2.column a.1) (b.2.column b.1) [⟨"v", .descending⟩])
      (· ∈ Table.border.rows) := by
  have hkeys : ∀ key ∈ [(⟨"v", .descending⟩ : SortKey)], ∃ kind,
      Table.HoldsKind Table.border.rows key.field kind :=
    List.forall_mem_singleton.2 ⟨.whole, Table.border_whole⟩
  obtain ⟨hvalues, hrows⟩ :=
    preorder_iff_oneKind (· = .whole) [⟨"v", .descending⟩] Table.border.rows
  exact ⟨hvalues.2 fun _ _ hk hk' => hk.trans hk'.symm, hkeys, hrows hkeys⟩

def Double.half : Double := ⟨false, 1022 * binade, by decide⟩

def docs : Repository (Record Catalog.doc.fields) where
  entity := Catalog.doc.entity

def halfBetween : Table :=
  docs.tableAfter .epoch ([.int 1, .real .half, .int 1].map fun n =>
    ⟨.create (.fresh (none, none, (1 : UInt64), [], .num n, ())), .epoch, []⟩)

/-- One compares with a half as equal, and a half with one as less. -/
theorem Matching.not_preorder :
    ¬ PreorderOn sortOrder fun v => ∃ e ∈ halfBetween.rows, e.2.column e.1 "v" = v := by
  intro h
  have hone : ∃ e ∈ halfBetween.rows, e.2.column e.1 "v" = .num (.int 1) := by decide +kernel
  have hhalf : ∃ e ∈ halfBetween.rows, e.2.column e.1 "v" = .num (.real .half) := by decide +kernel
  exact absurd (h.oriented _ _ hone hhalf) (by decide +kernel)

end Recordkeeper
