import Recordkeeper.Entity.Catalog
import Recordkeeper.Proofs.Query.Compile
import Recordkeeper.Proofs.Table.Joining

/-!
Operators and their expansions. A range asks what its two bounds ask one after the other, a list of
one value what equality with it asks, and a longer list finds what its parts find. Each holds inside
any request, since all filters of a request are tried on every row.
-/

set_option autoImplicit false

namespace Recordkeeper

def Json.IsValue (v : Json) : Prop := v.isScalar = true ∧ v.isNull = false

/-- Exactly one of less, equal and greater holds, and the other comparisons are their unions. -/
structure Comparison.Trichotomy (holds : Comparison → Bool) : Prop where
  one : [holds .less, holds .equal, holds .greater].count true = 1
  notEqual : holds .notEqual = (holds .less || holds .greater)
  atMost : holds .atMost = (holds .less || holds .equal)
  atLeast : holds .atLeast = (holds .equal || holds .greater)

theorem Comparison.trichotomy (o : Ordering) : Trichotomy fun op => op.holds o := by
  cases o <;> exact ⟨rfl, rfl, rfl, rfl⟩

namespace Matching

variable (columns : Columns)

theorem satisfies_range (field : String) (low high : Json) :
    satisfies columns (.range field low high) =
      satisfiesAll columns [.compare field .atLeast low, .compare field .atMost high] := by
  simp only [satisfiesAll, satisfies]
  cases fieldOrder? columns field low with
  | error e => rfl
  | ok above => cases fieldOrder? columns field high with
    | error e => rfl
    | ok below => simp [bind, Except.bind, pure, Except.pure]

theorem satisfies_among_singleton (field : String) (v : Json) :
    satisfies columns (.among field [v]) = satisfies columns (.compare field .equal v) := by
  simp only [satisfies, List.mapM_cons, List.mapM_nil]
  cases fieldOrder? columns field v with
  | error e => rfl
  | ok o => cases o <;> simp [bind, Except.bind, pure, Except.pure, Comparison.holds]

theorem joins_among (field : String) (vs ws : List Json) :
    Joins (satisfies columns (.among field (vs ++ ws))) (satisfies columns (.among field vs))
      (satisfies columns (.among field ws)) := by
  intro b
  simp only [satisfies, List.mapM_append]
  cases vs.mapM (fieldOrder? columns field) with
  | error e => simp [bind, Except.bind]
  | ok os => cases ws.mapM (fieldOrder? columns field) with
    | error e => simp [bind, Except.bind]
    | ok os' => simp [bind, Except.bind, pure, Except.pure, eq_comm]

theorem compare_cases (field : String) (v : Json) :
    (∃ m, ∀ op, satisfies columns (.compare field op v) = .error m) ∨
      (∀ op, satisfies columns (.compare field op v) = .ok false) ∨
        ∃ holds, Comparison.Trichotomy holds ∧
          ∀ op, satisfies columns (.compare field op v) = .ok (holds op) := by
  simp only [satisfies]
  cases fieldOrder? columns field v with
  | error m => exact .inl ⟨m, fun _ => rfl⟩
  | ok o => cases o with
    | none => exact .inr (.inl fun _ => rfl)
    | some o => exact .inr (.inr ⟨_, Comparison.trichotomy o, fun _ => rfl⟩)

theorem satisfiesAll_congr {cs ds : List Constraint}
    (h : satisfiesAll columns cs = satisfiesAll columns ds) (before after : List Constraint) :
    satisfiesAll columns (before ++ cs ++ after) =
      satisfiesAll columns (before ++ ds ++ after) := by
  rw [satisfiesAll_append, satisfiesAll_append, h, ← satisfiesAll_append, ← satisfiesAll_append]

end Matching

namespace Filter

structure Says (field : String) (op : Operator) (v : Json) (f : Filter) : Prop where
  field : f.field = field
  operator : Operator.ofWord? f.operator = some op
  value : f.value = v

def Tells (f : Filter) (columns : Matching.Columns) (outcome : Except String Bool) : Prop :=
  ∃ c, f.compile = .ok (.constraint c) ∧ Matching.satisfies columns c = outcome

/-- A filter on a column beside filters that say the same without ranges and lists. -/
inductive Expands (field : String) : Filter → List Filter → Prop where
  | range {f above below : Filter} {low high : Json} : low.IsValue → high.IsValue →
      Says field .between (.arr [low, high]) f → Says field (.compare .atLeast) low above →
      Says field (.compare .atMost) high below → Expands field f [above, below]
  | above {f above : Filter} {low : Json} : low.IsValue →
      Says field .between (.arr [low, .null]) f → Says field (.compare .atLeast) low above →
      Expands field f [above]
  | below {f below : Filter} {high : Json} : high.IsValue →
      Says field .between (.arr [.null, high]) f → Says field (.compare .atMost) high below →
      Expands field f [below]
  | single {f equal : Filter} {v : Json} : v.IsValue →
      Says field .among (.arr [v]) f → Says field (.compare .equal) v equal →
      Expands field f [equal]

theorem compile_singletons {f g : Filter} {c d : Constraint} (hf : f.compile = .ok (.constraint c))
    (hg : g.compile = .ok (.constraint d))
    (h : ∀ columns, Matching.satisfies columns c = Matching.satisfies columns d) :
    ∃ c ds, f.compile = .ok (.constraint c) ∧ [g].mapM Filter.compile = .ok (ds.map .constraint) ∧
      ∀ columns, Matching.satisfies columns c = Matching.satisfiesAll columns ds := by
  refine ⟨c, [d], hf, ?_, fun columns => ?_⟩
  · rw [List.mapM_cons, hg]
    rfl
  · rw [h, Matching.satisfiesAll_singleton]

variable {field : String} (hcolumn : Identifier.isColumn field = true)
  (hfield : field ≠ visibilityField) {f : Filter} {op : Operator} {v : Json}

include hcolumn

theorem Says.isComplete (h : Says field op v f) (hv : v.isNull = false) : f.isComplete = true := by
  have hblank : f.field ≠ "" := by
    rw [h.field]
    rintro rfl
    exact absurd hcolumn (by decide)
  exact isComplete_of_operator hblank h.operator (by rw [h.value, hv])

include hfield

theorem Says.checked (h : Says field op v f) (hv : v.isNull = false) :
    f.isComplete = true ∧ f.isVisibility = false :=
  ⟨h.isComplete hcolumn hv, decide_eq_false (h.field ▸ hfield)⟩

theorem Says.compile_compare {op : Comparison} (h : Says field (.compare op) v f)
    (hv : v.IsValue) : f.compile = .ok (.constraint (.compare field op v)) := by
  obtain ⟨hcomplete, hseen⟩ := h.checked hcolumn hfield hv.2
  obtain ⟨rfl, hop, rfl⟩ := h
  simp [compile, hcomplete, hseen, hop, compileCompare, requireColumn, hcolumn, hv.1]

theorem Says.compile_among {vs : List Json} (h : Says field .among (.arr vs) f)
    (hvs : ∀ v ∈ vs, v.IsValue) : f.compile = .ok (.constraint (.among field vs)) := by
  obtain ⟨hcomplete, hseen⟩ := h.checked hcolumn hfield rfl
  have hscalars : vs.all Json.isScalar = true := List.all_eq_true.2 fun v hv => (hvs v hv).1
  obtain ⟨rfl, hop, hvalue⟩ := h
  simp [compile, hcomplete, hseen, hop, compileAmong, requireColumn, hcolumn, hvalue, hscalars]

theorem Says.compile_between {low high : Json} {clause : Clause}
    (h : Says field .between (.arr [low, high]) f)
    (hclause : compileBetween ⟨field, f.operator, .arr [low, high]⟩ = .ok clause) :
    f.compile = .ok clause := by
  obtain ⟨hcomplete, hseen⟩ := h.checked hcolumn hfield rfl
  obtain ⟨rfl, hop, hvalue⟩ := h
  rw [← hvalue] at hclause
  simpa [compile, hcomplete, hseen, hop] using hclause

theorem Expands.compile {gs : List Filter} (h : Expands field f gs) :
    ∃ c ds, f.compile = .ok (.constraint c) ∧ gs.mapM Filter.compile = .ok (ds.map .constraint) ∧
      ∀ columns, Matching.satisfies columns c = Matching.satisfiesAll columns ds := by
  have hnull : Json.null.isScalar = true ∧ Json.null.isNull = true := ⟨rfl, rfl⟩
  cases h with
  | @range above below low high hlow hhigh hf habove hbelow =>
    have hrange : f.compile = .ok (.constraint (.range field low high)) :=
      hf.compile_between hcolumn hfield <| by
        simp [compileBetween, requireColumn, hcolumn, hlow.1, hlow.2, hhigh.1, hhigh.2]
    have hbounds : [above, below].mapM Filter.compile =
        .ok [.constraint (.compare field .atLeast low),
          .constraint (.compare field .atMost high)] := by
      simp only [List.mapM_cons, List.mapM_nil, habove.compile_compare hcolumn hfield hlow,
        hbelow.compile_compare hcolumn hfield hhigh]
      rfl
    exact ⟨_, [_, _], hrange, hbounds, fun columns =>
      Matching.satisfies_range columns field low high⟩
  | @above above low hlow hf habove =>
    have hopen : f.compile = .ok (.constraint (.compare field .atLeast low)) :=
      hf.compile_between hcolumn hfield <| by
        simp [compileBetween, requireColumn, hcolumn, hlow.1, hlow.2, hnull.1, hnull.2]
    exact compile_singletons hopen (habove.compile_compare hcolumn hfield hlow) fun _ => rfl
  | @below below high hhigh hf hbelow =>
    have hopen : f.compile = .ok (.constraint (.compare field .atMost high)) :=
      hf.compile_between hcolumn hfield <| by
        simp [compileBetween, requireColumn, hcolumn, hhigh.1, hhigh.2, hnull.1, hnull.2]
    exact compile_singletons hopen (hbelow.compile_compare hcolumn hfield hhigh) fun _ => rfl
  | @single equal v hv hf hequal =>
    have hlist : f.compile = .ok (.constraint (.among field [v])) :=
      hf.compile_among hcolumn hfield (List.forall_mem_singleton.2 hv)
    exact compile_singletons hlist (hequal.compile_compare hcolumn hfield hv) fun columns =>
      Matching.satisfies_among_singleton columns field v

end Filter

namespace FilterRequest

open Recordkeeper.Filter (Clause Says Expands Tells)
open Recordkeeper.Matching (Joins satisfies satisfiesAll)

/-- A request with a gap among its filters. -/
structure Context where
  before : List Filter := []
  after : List Filter := []
  order : Option String := none
  preloads : List String := []

structure Frame where
  before : List Clause
  after : List Clause
  order : Option Order

namespace Context

def around (c : Context) (filters : List Filter) : FilterRequest where
  filters := c.before ++ filters ++ c.after
  order := c.order
  preloads := c.preloads

def compile (options : CompileOptions) (c : Context) : Except RequestError Frame := do
  c.preloads.forM requireRelation
  let before ← c.before.mapM Filter.compile
  let after ← c.after.mapM Filter.compile
  let order ← compileOrder options c.order
  return ⟨before, after, order⟩

def query (c : Context) (frame : Frame) (clauses : List Clause) : Query :=
  { (frame.before ++ clauses ++ frame.after).foldl Query.add { preloads := c.preloads } with
    order := frame.order }

theorem compile_around {options : CompileOptions} (c : Context) {filters : List Filter}
    {clauses : List Clause} (h : filters.mapM Filter.compile = .ok clauses) :
    (c.around filters).compile options =
      (c.compile options).map fun frame => c.query frame clauses := by
  unfold FilterRequest.compile Context.compile
  simp only [around, Query.foldlM_addFilter, List.mapM_append, h]
  cases c.preloads.forM requireRelation with
  | error e => rfl
  | ok u => cases c.before.mapM Filter.compile with
    | error e => rfl
    | ok before => cases c.after.mapM Filter.compile with
      | error e => rfl
      | ok after => cases compileOrder options c.order with
        | error e => rfl
        | ok order => rfl

variable (c : Context) (frame : Frame)

theorem query_constraints (cs : List Constraint) :
    (c.query frame (cs.map .constraint)).constraints =
      frame.before.filterMap Clause.constraint? ++ cs ++
        frame.after.filterMap Clause.constraint? := by
  have hcs : (cs.map Clause.constraint).filterMap Clause.constraint? = cs := by
    simp [List.filterMap_map, Function.comp_def, Clause.constraint?]
  simp [query, Query.foldl_add, hcs]

theorem query_visibility (cs : List Constraint) :
    (c.query frame (cs.map .constraint)).visibility =
      ((frame.before ++ frame.after).filterMap Clause.visibility?).getLast?.getD .active := by
  have hcs : (cs.map Clause.constraint).filterMap Clause.visibility? = [] := by
    simp [Clause.visibility?]
  simp [query, Query.foldl_add, hcs]

/-- Rows that the request sees are asked the constraints in the gap among the others. -/
theorem verdict_query (cs : List Constraint) (e : Id × Row) :
    Table.verdict (c.query frame (cs.map .constraint)) e =
      if (((frame.before ++ frame.after).filterMap Clause.visibility?).getLast?.getD
          .active).admits e.2.isDeleted then
        satisfiesAll (e.2.column e.1) (frame.before.filterMap Clause.constraint? ++ cs ++
          frame.after.filterMap Clause.constraint?)
      else .ok false := by
  rw [Table.verdict, query_constraints, query_visibility]

theorem verdict_congr {cs ds : List Constraint} {e : Id × Row}
    (h : satisfiesAll (e.2.column e.1) cs = satisfiesAll (e.2.column e.1) ds) :
    Table.verdict (c.query frame (cs.map .constraint)) e =
      Table.verdict (c.query frame (ds.map .constraint)) e := by
  rw [verdict_query, verdict_query, Matching.satisfiesAll_congr _ h]

theorem joins_query {x y z : Constraint} {e : Id × Row}
    (h : Joins (satisfies (e.2.column e.1) x) (satisfies (e.2.column e.1) y)
      (satisfies (e.2.column e.1) z)) :
    Joins (Table.verdict (c.query frame [.constraint x]) e)
      (Table.verdict (c.query frame [.constraint y]) e)
      (Table.verdict (c.query frame [.constraint z]) e) := by
  have hx := c.verdict_query frame [x] e
  have hy := c.verdict_query frame [y] e
  have hz := c.verdict_query frame [z] e
  simp only [List.map_cons, List.map_nil] at hx hy hz
  rw [hx, hy, hz]
  split
  · exact h.around _ _ _
  · simp [Joins]

end Context

def answers {α : Type} (options : CompileOptions) (E : EntityType α) (t : Table)
    (w : Option Window) (r : FilterRequest) :
    Except RequestError (Except StoreError (List α) × Except StoreError UInt64) :=
  (r.compile options).map fun q => (t.query E q w, t.count q)

def Unites (options : CompileOptions) (r r₁ r₂ : FilterRequest) : Prop :=
  (∃ e, r.compile options = .error e ∧ r₁.compile options = .error e ∧
    r₂.compile options = .error e) ∨
  ∃ q q₁ q₂, r.compile options = .ok q ∧ r₁.compile options = .ok q₁ ∧
    r₂.compile options = .ok q₂ ∧
    ∀ {α : Type} (E : EntityType α) (t : Table), t.Unites E q q₁ q₂

section

variable {field : String} (hcolumn : Identifier.isColumn field = true)
  (hfield : field ≠ Filter.visibilityField)

include hcolumn hfield

theorem answers_expanded (options : CompileOptions) (c : Context) {f : Filter} {gs : List Filter}
    (h : Expands field f gs) {α : Type} (E : EntityType α) (t : Table) (w : Option Window) :
    (c.around [f]).answers options E t w = (c.around gs).answers options E t w := by
  obtain ⟨x, ds, hf, hgs, hsame⟩ := h.compile hcolumn hfield
  have hfs : [f].mapM Filter.compile = .ok ([x].map .constraint) := by
    rw [List.mapM_cons, hf]
    rfl
  rw [answers, answers, c.compile_around hfs, c.compile_around hgs]
  cases c.compile options with
  | error e => rfl
  | ok frame =>
    have hverdicts : ∀ e ∈ t.rows, Table.verdict (c.query frame ([x].map .constraint)) e =
        Table.verdict (c.query frame (ds.map .constraint)) e := fun e _ =>
      c.verdict_congr frame ((Matching.satisfiesAll_singleton _ x).trans (hsame _))
    exact congrArg Except.ok (Prod.ext (Table.query_verdicts hverdicts rfl w)
      (Table.count_verdicts hverdicts))

theorem unites_among (options : CompileOptions) (c : Context) {f f₁ f₂ : Filter}
    {vs ws : List Json} (hvalues : ∀ v ∈ vs ++ ws, v.IsValue)
    (hf : Says field .among (.arr (vs ++ ws)) f) (hf₁ : Says field .among (.arr vs) f₁)
    (hf₂ : Says field .among (.arr ws) f₂) :
    Unites options (c.around [f]) (c.around [f₁]) (c.around [f₂]) := by
  have hone {g : Filter} {us : List Json} (hg : Says field .among (.arr us) g)
      (hus : ∀ v ∈ us, v.IsValue) :
      [g].mapM Filter.compile = .ok [.constraint (.among field us)] := by
    rw [List.mapM_cons, hg.compile_among hcolumn hfield hus]
    rfl
  have hleft : ∀ v ∈ vs, v.IsValue := fun v hv => hvalues v (List.mem_append_left ws hv)
  have hright : ∀ v ∈ ws, v.IsValue := fun v hv => hvalues v (List.mem_append_right vs hv)
  unfold Unites
  rw [c.compile_around (hone hf hvalues), c.compile_around (hone hf₁ hleft),
    c.compile_around (hone hf₂ hright)]
  cases c.compile options with
  | error e => exact .inl ⟨e, rfl, rfl, rfl⟩
  | ok frame =>
    refine .inr ⟨_, _, _, rfl, rfl, rfl, fun E t => Table.unites_of_joins (fun e _ => ?_) rfl rfl⟩
    exact c.joins_query frame (Matching.joins_among _ field vs ws)

end

/-- Inside any request, a filter on a column is answered as its expansion is, a list finds what its
parts find, and the six comparisons with a value fail together, all hold of nothing, or decide each
other. -/
theorem operators_expand {field : String} (hcolumn : Identifier.isColumn field = true)
    (hfield : field ≠ Filter.visibilityField) :
    (∀ (options : CompileOptions) (c : Context) (f : Filter) (gs : List Filter),
      Expands field f gs → ∀ {α : Type} (E : EntityType α) (t : Table) (w : Option Window),
        (c.around [f]).answers options E t w = (c.around gs).answers options E t w) ∧
    (∀ (options : CompileOptions) (c : Context) (f f₁ f₂ : Filter) (vs ws : List Json),
      (∀ v ∈ vs ++ ws, v.IsValue) → Says field .among (.arr (vs ++ ws)) f →
      Says field .among (.arr vs) f₁ → Says field .among (.arr ws) f₂ →
        Unites options (c.around [f]) (c.around [f₁]) (c.around [f₂])) ∧
    ∀ (v : Json) (fs : Comparison → Filter), v.IsValue →
      (∀ op, Says field (.compare op) v (fs op)) → ∀ columns : Matching.Columns,
        (∃ m, ∀ op, (fs op).Tells columns (.error m)) ∨
          (∀ op, (fs op).Tells columns (.ok false)) ∨
            ∃ holds, Comparison.Trichotomy holds ∧
              ∀ op, (fs op).Tells columns (.ok (holds op)) := by
  refine ⟨fun options c f gs h α E t w => answers_expanded hcolumn hfield options c h E t w,
    fun options c f f₁ f₂ vs ws hvalues hf hf₁ hf₂ =>
      unites_among hcolumn hfield options c hvalues hf hf₁ hf₂, fun v fs hv hfs columns => ?_⟩
  have htells (op : Comparison) {outcome : Except String Bool}
      (h : satisfies columns (.compare field op v) = outcome) : (fs op).Tells columns outcome :=
    ⟨_, (hfs op).compile_compare hcolumn hfield hv, h⟩
  rcases Matching.compare_cases columns field v with ⟨m, hm⟩ | hnone | ⟨holds, hholds, hsome⟩
  · exact .inl ⟨m, fun op => htells op (hm op)⟩
  · exact .inr (.inl fun op => htells op (hnone op))
  · exact .inr (.inr ⟨holds, hholds, fun op => htells op (hsome op)⟩)

def figures : Table where
  rows := [(1, { data := [("v", .ofId 1)] }), (2, { data := [("v", .str "2")] }),
    (3, { data := [("v", .null)] }), (4, { data := [("v", .ofId 3)] })]
  counter := 4

def butSevens : Context where
  before := [⟨Filter.visibilityField, "=", .str "all"⟩]
  after := [⟨"v", "<>", .ofId 7⟩]

theorem operators_expand_figures :
    (butSevens.around [⟨"v", "BETWEEN", .arr [.ofId 2, .ofId 3]⟩]).answers {} Catalog.cell figures
        none = .ok (.ok [⟨2, .str "2"⟩, ⟨4, .ofId 3⟩], .ok 2) ∧
      (butSevens.around [⟨"v", ">=", .ofId 2⟩, ⟨"v", "<=", .ofId 3⟩]).answers {} Catalog.cell
        figures none = .ok (.ok [⟨2, .str "2"⟩, ⟨4, .ofId 3⟩], .ok 2) ∧
      Unites {} (butSevens.around [⟨"v", "in", .arr [.ofId 1, .ofId 2]⟩])
        (butSevens.around [⟨"v", "in", .arr [.ofId 1]⟩])
        (butSevens.around [⟨"v", "in", .arr [.ofId 2]⟩]) := by
  have hcolumn : Identifier.isColumn "v" = true := by decide
  have hfield : "v" ≠ Filter.visibilityField := by decide
  have hvalue (n : UInt64) : (Json.ofId n).IsValue := ⟨rfl, rfl⟩
  have hexpands : Expands "v" ⟨"v", "BETWEEN", .arr [.ofId 2, .ofId 3]⟩
      [⟨"v", ">=", .ofId 2⟩, ⟨"v", "<=", .ofId 3⟩] :=
    .range (hvalue 2) (hvalue 3) ⟨rfl, by decide +kernel, rfl⟩ ⟨rfl, by decide +kernel, rfl⟩
      ⟨rfl, by decide +kernel, rfl⟩
  have hanswers : (butSevens.around [⟨"v", "BETWEEN", .arr [.ofId 2, .ofId 3]⟩]).answers {}
      Catalog.cell figures none = .ok (.ok [⟨2, .str "2"⟩, ⟨4, .ofId 3⟩], .ok 2) := by
    decide +kernel
  obtain ⟨hsame, hunites, -⟩ := operators_expand hcolumn hfield
  refine ⟨hanswers, (hsame {} butSevens _ _ hexpands Catalog.cell figures none).symm.trans hanswers,
    hunites {} butSevens _ _ _ [.ofId 1] [.ofId 2] ?_ ⟨rfl, by decide +kernel, rfl⟩
      ⟨rfl, by decide +kernel, rfl⟩ ⟨rfl, by decide +kernel, rfl⟩⟩
  exact List.forall_mem_cons.2 ⟨hvalue 1, List.forall_mem_singleton.2 (hvalue 2)⟩

end FilterRequest

end Recordkeeper
