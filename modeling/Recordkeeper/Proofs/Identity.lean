import Recordkeeper.Proofs.Cache.Transparency
import Recordkeeper.Proofs.Calendar
import Recordkeeper.Proofs.Identifier
import Recordkeeper.Proofs.Paging
import Recordkeeper.Proofs.Query.Reordering

set_option autoImplicit false

namespace Recordkeeper

theorem Text.trim_eq_self {s : List Char} (h : ∀ c ∈ s, isBlank c = false) : trim s = s := by
  have hdrop {s : List Char} (h : ∀ c ∈ s, isBlank c = false) : s.dropWhile isBlank = s := by
    cases s with
    | nil => rfl
    | cons c s => simp [h c List.mem_cons_self]
  rw [trim, trimStart, hdrop h, trimEnd, hdrop fun c hc => h c (List.mem_reverse.1 hc),
    List.reverse_reverse]

def Json.IsId (id : Id) (v : Json) : Prop :=
  v = .ofId id ∨ v = .str (String.ofList (Text.numeral id.toNat))

namespace Matching

variable {id : Id} {v : Json}

theorem numberFor_ofId (hv : v.IsId id) (i : Id) : numberFor (.ofId i) v = .ok (.ofId id) := by
  rcases hv with rfl | rfl
  · rfl
  · have hblank : ∀ c ∈ Text.numeral id.toNat, Text.isBlank c = false := fun c hc =>
      Timestamp.isBlank_of_isDigit (Text.isDigit_of_mem_numeral hc)
    have hfits : Number.fits id.toNat = true := by
      have hlt := id.toNat_lt
      simp only [Number.fits, Bool.and_eq_true, decide_eq_true_eq]
      omega
    have hread : Number.ofText? (Text.trim (Text.numeral id.toNat)) = some (.ofId id) := by
      rw [Text.trim_eq_self hblank, Number.ofText?, Text.integer?_numeral]
      exact if_pos hfits
    simp only [numberFor, String.toList_ofList, hread]
    rfl

variable {field : String}

theorem fieldOrder?_id (hfield : Identifier.unqualified field = Column.id) (hv : v.IsId id) (i : Id)
    (row : Row) :
    fieldOrder? (row.column i) field v = .ok (some (compare (i.toNat : Int) id.toNat)) := by
  have hcolumn : row.column i field = .ofId i := if_pos hfield
  have horder : order? (.ofId i) v = .ok (some (compare (i.toNat : Int) id.toNat)) := by
    simp only [order?, Json.ofId, numberFor_ofId hv i]
    rfl
  rw [fieldOrder?, hcolumn, horder]
  rfl

theorem compare_id (i id : Id) : (compare (i.toNat : Int) id.toNat == .eq) = decide (i = id) := by
  rw [Bool.eq_iff_iff, beq_iff_eq, decide_eq_true_eq, compare_eq_iff_eq, Int.natCast_inj,
    UInt64.toNat_inj]

/-- What holds of the row of one identity and of no other. -/
def Singles (id : Id) (c : Constraint) : Prop :=
  ∀ i (row : Row), satisfies (row.column i) c = .ok (decide (i = id))

theorem singles_compare (hfield : Identifier.unqualified field = Column.id) (hv : v.IsId id) :
    Singles id (.compare field .equal v) := by
  intro i row
  simp only [satisfies, fieldOrder?_id hfield hv, ← compare_id]
  rfl

theorem singles_among (hfield : Identifier.unqualified field = Column.id) (hv : v.IsId id) :
    Singles id (.among field [v]) := by
  intro i row
  simp only [satisfies, List.mapM_cons, List.mapM_nil, fieldOrder?_id hfield hv, ← compare_id]
  simp [bind, Except.bind, pure, Except.pure]

theorem singles_range {w : Json} (hfield : Identifier.unqualified field = Column.id)
    (hv : v.IsId id) (hw : w.IsId id) : Singles id (.range field v w) := by
  have hboth : ∀ o : Ordering, (o != .lt && o != .gt) = (o == .eq) := by decide
  intro i row
  simp only [satisfies, fieldOrder?_id hfield hv, fieldOrder?_id hfield hw, ← compare_id, ← hboth]
  rfl

end Matching

namespace Json.IsId

variable {id : Id} {v : Json}

theorem isScalar (h : v.IsId id) : v.isScalar = true := by
  rcases h with rfl | rfl <;> rfl

theorem isNull (h : v.IsId id) : v.isNull = false := by
  rcases h with rfl | rfl <;> rfl

end Json.IsId

namespace Filter

inductive AsksFor (id : Id) : Filter → Prop where
  | equal {field operator : String} {v : Json} :
      Operator.ofWord? operator = some (.compare .equal) → v.IsId id →
        AsksFor id ⟨field, operator, v⟩
  | among {field operator : String} {v : Json} :
      Operator.ofWord? operator = some .among → v.IsId id → AsksFor id ⟨field, operator, .arr [v]⟩
  | between {field operator : String} {v w : Json} :
      Operator.ofWord? operator = some .between → v.IsId id → w.IsId id →
        AsksFor id ⟨field, operator, .arr [v, w]⟩

variable {id : Id} {f : Filter}

theorem AsksFor.isComplete (hf : f.AsksFor id) (hfield : f.field ≠ "") : f.isComplete = true := by
  cases hf with
  | equal hop hv => exact isComplete_of_operator hfield hop hv.isNull
  | among hop hv => exact isComplete_of_operator hfield hop rfl
  | between hop hv hw => exact isComplete_of_operator hfield hop rfl

theorem ne_of_unqualified {s : String} (hfield : Identifier.unqualified f.field = Column.id)
    (hs : Identifier.unqualified s ≠ Column.id) : f.field ≠ s := fun h => hs (h ▸ hfield)

theorem AsksFor.compile (hf : f.AsksFor id) (hfield : Identifier.unqualified f.field = Column.id) :
    ∃ c, Matching.Singles id c ∧
      f.compile = (do requireColumn f.field; return .constraint c) := by
  have hcomplete := hf.isComplete (ne_of_unqualified hfield (by decide))
  have hcolumn : f.isVisibility = false :=
    decide_eq_false (ne_of_unqualified hfield (by decide))
  unfold Filter.compile
  simp only [hcomplete, hcolumn, Bool.not_true, Bool.false_eq_true, ↓reduceIte]
  cases hf with
  | equal hop hv =>
    refine ⟨_, Matching.singles_compare hfield hv, ?_⟩
    simp only [hop, compileCompare, hv.isScalar, ↓reduceIte]
  | among hop hv =>
    refine ⟨_, Matching.singles_among hfield hv, ?_⟩
    simp only [hop, compileAmong, List.all_cons, List.all_nil, hv.isScalar, Bool.and_true, ↓reduceIte]
  | between hop hv hw =>
    refine ⟨_, Matching.singles_range hfield hv hw, ?_⟩
    simp only [hop, compileBetween, hv.isScalar, hw.isScalar, hv.isNull, hw.isNull]
    rfl

end Filter

namespace Table

variable {α : Type} {E : EntityType α} {t : Table} {id : Id} {c : Constraint}

theorem matching_single (ht : Ordered t.rows) (hc : Matching.Singles id c) :
    matching { constraints := [c] } t.rows = .ok ((t.live? id).toList.map (id, ·)) := by
  have hdecided : ∀ e ∈ t.rows, Matching.satisfiesAll (e.2.column e.1) [c] = .ok (decide (e.1 = id)) := by
    intro e _
    simp [Matching.satisfiesAll, hc e.1 e.2, bind, Except.bind, pure, Except.pure]
  rw [matching_decided hdecided]
  refine congrArg Except.ok ((ht.filter _).ext ?_ fun e => ?_)
  · cases t.live? id <;> simp [Ordered]
  · obtain ⟨i, row⟩ := e
    simp only [List.mem_filter, ht.mem_iff, Visibility.admits, Bool.and_eq_true, Bool.not_eq_true',
      decide_eq_true_eq, List.mem_map, Option.mem_toList, Prod.mk.injEq]
    constructor
    · rintro ⟨hget, hlive, rfl⟩
      exact ⟨row, live?_eq_some.2 ⟨hget, hlive⟩, rfl, rfl⟩
    · rintro ⟨row, hrow, rfl, rfl⟩
      obtain ⟨hget, hlive⟩ := live?_eq_some.1 hrow
      exact ⟨hget, hlive, rfl⟩

theorem query_single (ht : Ordered t.rows) (hc : Matching.Singles id c) :
    t.query E { constraints := [c] } none = (t.live? id).toList.mapM (recordOf E id) := by
  simp only [query, matching_single ht hc, sortKeys, bind, Except.bind, sort_nil, Window.cut,
    List.mapM_map, Function.comp_def]

end Table

namespace Repository

variable {α : Type} {r : Repository α} {m : Memory} {id : Id} {f : Filter}

theorem compile_single {c : Constraint} (hf : f.compile = .ok (.constraint c)) :
    r.compile { filters := [f] } = .ok { constraints := [c] } :=
  FilterRequest.compile_eq_ok.2 ⟨rfl, [.constraint c], none, .cons hf .nil,
    FilterRequest.compileOrder_none _, rfl⟩

theorem compile_refused {e : RequestError} (hf : f.compile = .error e) :
    r.compile { filters := [f] } = .error e := by
  simp [compile, FilterRequest.compile, Query.addFilter, hf, bind, Except.bind, pure, Except.pure]

theorem perform_list_single {c : Constraint} (hm : Table.Ordered m.table.rows)
    (hf : f.compile = .ok (.constraint c)) (hc : Matching.Singles id c) (now : Moment) :
    (r.perform ⟨.list { filters := [f] }, now, []⟩ m).1 =
      ((m.table.live? id).toList.mapM (Table.recordOf r.entity id)).mapError RequestError.store := by
  refine (congrArg Prod.fst (r.perform_list { m with now := now } _)).trans ?_
  rw [compile_single hf]
  exact congrArg (Except.mapError RequestError.store) (Table.query_single hm hc)

/-- A lookup of live rows, and the records of as many rows as there are of the identity. -/
theorem fetched_iff (t : Table) (id : Id) {records : Except RequestError (List α)}
    (hrecords : records =
      ((t.live? id).toList.mapM (Table.recordOf r.entity id)).mapError RequestError.store) :
    (∀ x, r.fetched t id .active = .ok x ↔ records = .ok [x]) ∧
      ((∃ i, r.fetched t id .active = .error (r.notFound i)) ↔ records = .ok []) := by
  subst hrecords
  unfold fetched
  rw [Table.find_live]
  cases t.live? id with
  | none => simp [pure, Except.pure, Except.mapError]
  | some row =>
    cases hx : Table.recordOf r.entity id row <;>
      simp [hx, bind, Except.bind, pure, Except.pure, Except.mapError, notFound]

def growing : Repository (Catalog.Item String) where
  entity := { Catalog.plain with
    cached := true
    encode := fun x => Catalog.plain.encode { x with value := x.value ++ "!" } }

def createdA : Step (Catalog.Item String) := ⟨.create ⟨0, "a"⟩, .epoch, []⟩

def idEquals (field : String) (id : Id) : FilterRequest := { filters := [⟨field, "=", .ofId id⟩] }

def secondRead : List (Step (Catalog.Item String)) :=
  [createdA, ⟨.create ⟨0, "b"⟩, .epoch, []⟩, ⟨.get 2, .epoch, []⟩]

def secondAlone : Filter := ⟨"tokens.id", "BETWEEN", .arr [.ofId 2, .str "2"]⟩

end Repository

end Recordkeeper
