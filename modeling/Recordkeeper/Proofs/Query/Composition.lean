import Recordkeeper.Proofs.Query.Draft
import Recordkeeper.Proofs.Query.Reordering
import Recordkeeper.Proofs.Table.Joining

/-!
Requests and their parts. A request compiles if its parts do, each in a request of its own, to what
these give put together; otherwise it is refused as its first bad part is. In place, a filter that is
refused leaves no trace in the query.
-/

set_option autoImplicit false

namespace Recordkeeper

/-- The first element on which a check fails, and how. -/
def FirstFails {ε α β : Type} (check : α → Except ε β) (xs : List α) (e : ε) : Prop :=
  ∃ before x after, xs = before ++ x :: after ∧ (∀ y ∈ before, ∃ b, check y = .ok b) ∧
    check x = .error e

namespace FirstFails

variable {ε α β γ : Type} {check : α → Except ε β} {xs : List α} {e : ε}

theorem not_nil : ¬ FirstFails check [] e := by
  rintro ⟨before, x, after, hxs, -⟩
  simp at hxs

theorem cons_of_error {x : α} {e' : ε} (h : check x = .error e') :
    FirstFails check (x :: xs) e ↔ e' = e := by
  constructor
  · rintro ⟨before, y, after, hxs, hbefore, hy⟩
    cases before with
    | nil =>
      obtain ⟨rfl, -⟩ := List.cons_eq_cons.1 hxs
      exact Except.error.inj (h.symm.trans hy)
    | cons z before =>
      obtain ⟨rfl, -⟩ := List.cons_eq_cons.1 hxs
      obtain ⟨b, hb⟩ := hbefore x List.mem_cons_self
      cases h.symm.trans hb
  · rintro rfl
    exact ⟨[], x, xs, rfl, by simp, h⟩

theorem cons_of_ok {x : α} {b : β} (h : check x = .ok b) :
    FirstFails check (x :: xs) e ↔ FirstFails check xs e := by
  constructor
  · rintro ⟨before, y, after, hxs, hbefore, hy⟩
    cases before with
    | nil =>
      obtain ⟨rfl, -⟩ := List.cons_eq_cons.1 hxs
      cases h.symm.trans hy
    | cons z before =>
      obtain ⟨rfl, rfl⟩ := List.cons_eq_cons.1 hxs
      exact ⟨before, y, after, rfl, (List.forall_mem_cons.1 hbefore).2, hy⟩
  · rintro ⟨before, y, after, rfl, hbefore, hy⟩
    exact ⟨x :: before, y, after, rfl, List.forall_mem_cons.2 ⟨⟨b, h⟩, hbefore⟩, hy⟩

theorem congr (check' : α → Except ε γ) (h : ∀ x e, check x = .error e ↔ check' x = .error e) :
    FirstFails check xs e ↔ FirstFails check' xs e := by
  induction xs with
  | nil => exact iff_of_false not_nil not_nil
  | cons x xs ih =>
    cases hx : check x with
    | error e' => rw [cons_of_error hx, cons_of_error ((h x e').1 hx)]
    | ok b =>
      cases hx' : check' x with
      | error e' => cases hx.symm.trans ((h x e').2 hx')
      | ok c => rw [cons_of_ok hx, cons_of_ok hx', ih]

theorem mapM_eq_error : xs.mapM check = .error e ↔ FirstFails check xs e := by
  induction xs with
  | nil => exact iff_of_false nofun not_nil
  | cons x xs ih =>
    rw [List.mapM_cons]
    cases hx : check x with
    | error e' => simp [cons_of_error hx, bind, Except.bind]
    | ok b =>
      rw [cons_of_ok hx, ← ih]
      cases xs.mapM check <;> simp [bind, Except.bind, pure, Except.pure]

theorem forM_eq_error {check : α → Except ε Unit} :
    xs.forM check = .error e ↔ FirstFails check xs e := by
  induction xs with
  | nil => exact iff_of_false nofun not_nil
  | cons x xs ih =>
    rw [List.forM_eq_forM, List.forM_cons]
    cases hx : check x with
    | error e' => simp [cons_of_error hx, bind, Except.bind]
    | ok b =>
      rw [cons_of_ok hx, ← ih]
      rfl

theorem forM_eq_ok {check : α → Except ε Unit} :
    xs.forM check = .ok () ↔ ∀ x ∈ xs, check x = .ok () := by
  induction xs with
  | nil => simp [pure, Except.pure]
  | cons x xs ih =>
    rw [List.forM_eq_forM, List.forM_cons, List.forall_mem_cons]
    cases hx : check x with
    | error e' => simp [bind, Except.bind]
    | ok b =>
      rw [← ih]
      simp [bind, Except.bind]

end FirstFails

def Filter.alone (f : Filter) : FilterRequest := { filters := [f] }

namespace FilterRequest

variable {options : CompileOptions} {r : FilterRequest} {f : Filter} {q : Query}

def orderAlone (r : FilterRequest) : FilterRequest := { order := r.order }

theorem compile_alone (options : CompileOptions) (f : Filter) :
    f.alone.compile options = Query.add {} <$> f.compile := by
  have hfold : [f].foldlM Query.addFilter {} = Query.add {} <$> f.compile := by
    simp only [List.foldlM_cons, List.foldlM_nil, Query.addFilter, bind_pure]
  unfold compile
  simp only [Filter.alone, hfold, compileOrder_none]
  cases f.compile with
  | error e => rfl
  | ok clause => cases clause <;> rfl

theorem compile_alone_eq_error {e : RequestError} :
    f.alone.compile options = .error e ↔ f.compile = .error e := by
  rw [compile_alone]
  cases f.compile <;> simp [Functor.map, Except.map]

theorem compile_alone_eq_ok {clause : Filter.Clause} (h : f.compile = .ok clause) :
    f.alone.compile options = .ok (Query.add {} clause) := by
  rw [compile_alone, h]
  rfl

theorem compile_orderAlone (options : CompileOptions) (r : FilterRequest) :
    r.orderAlone.compile options =
      (fun order => { order := order }) <$> compileOrder options r.order := by
  unfold compile
  simp only [orderAlone]
  cases compileOrder options r.order <;> rfl

/-- Every part of the request compiles in a request of its own. -/
structure PartsCompile (options : CompileOptions) (r : FilterRequest) : Prop where
  preloads : ∀ relation ∈ r.preloads, Identifier.isRelationPath relation = true
  filters : ∀ f ∈ r.filters, ∃ q, f.alone.compile options = .ok q
  order : ∃ q, r.orderAlone.compile options = .ok q

structure Composes (options : CompileOptions) (r : FilterRequest) (q : Query) : Prop where
  preloads : q.preloads = r.preloads
  constraints : ∃ singles,
    List.Forall₂ (fun f single => f.alone.compile options = .ok single) r.filters singles ∧
      (∀ single ∈ singles, single.constraints.length ≤ 1) ∧
      q.constraints = singles.flatMap (·.constraints)
  visibility : q.visibility = (r.filters.filterMap Filter.visibility?).getLast?.getD .active
  order : r.orderAlone.compile options = .ok { order := q.order }

/-- A request is refused as its first bad part is: preloads first, then filters, then the clause. -/
inductive FirstOffence (options : CompileOptions) (r : FilterRequest) : RequestError → Prop where
  | preload {e : RequestError} : FirstFails requireRelation r.preloads e → FirstOffence options r e
  | filter {e : RequestError} :
      (∀ relation ∈ r.preloads, Identifier.isRelationPath relation = true) →
      FirstFails (fun f => f.alone.compile options) r.filters e → FirstOffence options r e
  | order {e : RequestError} :
      (∀ relation ∈ r.preloads, Identifier.isRelationPath relation = true) →
      (∀ f ∈ r.filters, ∃ q, f.alone.compile options = .ok q) →
      r.orderAlone.compile options = .error e → FirstOffence options r e

theorem preloads_eq_ok :
    r.preloads.forM requireRelation = .ok () ↔
      ∀ relation ∈ r.preloads, Identifier.isRelationPath relation = true := by
  rw [FirstFails.forM_eq_ok]
  refine forall₂_congr fun relation _ => ?_
  unfold requireRelation
  split <;> simp_all

theorem filters_eq_error {e : RequestError} (q : Query) :
    r.filters.foldlM Query.addFilter q = .error e ↔
      FirstFails (fun f => f.alone.compile options) r.filters e := by
  rw [FirstFails.congr Filter.compile fun _ _ => compile_alone_eq_error,
    ← FirstFails.mapM_eq_error, Query.foldlM_addFilter]
  cases r.filters.mapM Filter.compile <;> simp [Except.map]

theorem filters_compile :
    (∃ clauses, List.Forall₂ Filter.CompilesTo r.filters clauses) ↔
      ∀ f ∈ r.filters, ∃ single, f.alone.compile options = .ok single := by
  constructor
  · rintro ⟨clauses, hclauses⟩ f hf
    obtain ⟨clause, hclause⟩ := Table.forall_of_mapM (Table.mapM_eq_ok.2 hclauses) f hf
    exact ⟨_, compile_alone_eq_ok hclause⟩
  · intro h
    have hcompile : ∀ f ∈ r.filters, ∃ clause, f.compile = .ok clause := by
      intro f hf
      obtain ⟨single, hsingle⟩ := h f hf
      cases hf : f.compile with
      | error e => cases hsingle.symm.trans (compile_alone_eq_error.2 hf)
      | ok clause => exact ⟨clause, rfl⟩
    obtain ⟨clauses, hclauses, -⟩ := Table.mapM_of_forall hcompile
    exact ⟨clauses, Table.mapM_eq_ok.1 hclauses⟩

theorem orderAlone_compiles :
    (∃ q, r.orderAlone.compile options = .ok q) ↔
      ∃ order, compileOrder options r.order = .ok order := by
  rw [compile_orderAlone]
  cases compileOrder options r.order <;> simp [Functor.map, Except.map]

theorem compiles_iff : (∃ q, r.compile options = .ok q) ↔ r.PartsCompile options := by
  constructor
  · rintro ⟨q, hq⟩
    obtain ⟨hpreloads, clauses, order, hclauses, horder, -⟩ := compile_eq_ok.1 hq
    exact ⟨preloads_eq_ok.1 hpreloads, filters_compile.1 ⟨clauses, hclauses⟩,
      orderAlone_compiles.2 ⟨order, horder⟩⟩
  · rintro ⟨hpreloads, hfilters, horder⟩
    obtain ⟨clauses, hclauses⟩ := filters_compile.2 hfilters
    obtain ⟨order, horder⟩ := orderAlone_compiles.1 horder
    exact ⟨_, compile_eq_ok.2 ⟨preloads_eq_ok.2 hpreloads, clauses, order, hclauses, horder, rfl⟩⟩

theorem constraints_of_clauses (clauses : List Filter.Clause) :
    clauses.filterMap Filter.Clause.constraint? =
      (clauses.map (Query.add {})).flatMap (·.constraints) := by
  induction clauses with
  | nil => rfl
  | cons clause clauses ih =>
    cases clause <;> simp [List.filterMap_cons, Filter.Clause.constraint?, Query.add, ih]

theorem composes_of_compile (h : r.compile options = .ok q) : r.Composes options q := by
  obtain ⟨-, clauses, order, hclauses, horder, rfl⟩ := compile_eq_ok.1 h
  refine ⟨rfl, ⟨clauses.map (Query.add {}), ?_, ?_, constraints_of_clauses clauses⟩, ?_, ?_⟩
  · exact List.forall₂_map_right_iff.2 (hclauses.imp fun _ _ => compile_alone_eq_ok)
  · intro single hsingle
    obtain ⟨clause, -, rfl⟩ := List.mem_map.1 hsingle
    cases clause <;> simp [Query.add]
  · have hseen : (r.filters.filter Filter.isVisibility).filterMap Filter.visibility? =
        r.filters.filterMap Filter.visibility? := by
      rw [List.filterMap_filter]
      refine List.filterMap_congr fun f _ => ?_
      unfold Filter.visibility?
      cases f.isVisibility <;> rfl
    simp only [visibility?_of_clauses hclauses, hseen]
  · rw [compile_orderAlone, horder]
    rfl

theorem singles_unique {filters : List Filter} {singles singles' : List Query}
    (h : List.Forall₂ (fun f single => f.alone.compile options = .ok single) filters singles)
    (h' : List.Forall₂ (fun f single => f.alone.compile options = .ok single) filters singles') :
    singles = singles' :=
  Except.ok.inj ((Table.mapM_eq_ok.2 h).symm.trans (Table.mapM_eq_ok.2 h'))

theorem Composes.unique {q' : Query} (h : r.Composes options q) (h' : r.Composes options q') :
    q = q' := by
  obtain ⟨singles, hsingles, -, hconstraints⟩ := h.constraints
  obtain ⟨singles', hsingles', -, hconstraints'⟩ := h'.constraints
  obtain rfl := singles_unique hsingles hsingles'
  have horder := Except.ok.inj (h.order.symm.trans h'.order)
  cases q
  cases q'
  simp only [Query.mk.injEq]
  exact ⟨h.preloads.trans h'.preloads.symm, hconstraints.trans hconstraints'.symm,
    h.visibility.trans h'.visibility.symm, congrArg Query.order horder⟩

theorem compile_eq_ok_iff_composes :
    r.compile options = .ok q ↔
      (∀ relation ∈ r.preloads, Identifier.isRelationPath relation = true) ∧
        r.Composes options q := by
  constructor
  · intro h
    exact ⟨(compiles_iff.1 ⟨q, h⟩).preloads, composes_of_compile h⟩
  · rintro ⟨hpaths, h⟩
    obtain ⟨singles, hsingles, -, -⟩ := h.constraints
    obtain ⟨q', hq'⟩ := compiles_iff.2
      ⟨hpaths, Table.forall_of_mapM (Table.mapM_eq_ok.2 hsingles), ⟨_, h.order⟩⟩
    rw [hq', h.unique (composes_of_compile hq')]

theorem FirstOffence.of_compile {e : RequestError} (h : r.compile options = .error e) :
    r.FirstOffence options e := by
  unfold compile at h
  cases hpreloads : r.preloads.forM requireRelation with
  | error e' =>
    rw [hpreloads] at h
    obtain rfl := Except.error.inj h
    exact .preload (FirstFails.forM_eq_error.1 hpreloads)
  | ok u =>
    have hpaths := preloads_eq_ok.1 hpreloads
    rw [hpreloads] at h
    cases hfilters : r.filters.foldlM Query.addFilter { preloads := r.preloads } with
    | error e' =>
      simp only [hfilters] at h
      obtain rfl := Except.error.inj h
      exact .filter hpaths ((filters_eq_error _).1 hfilters)
    | ok q =>
      obtain ⟨clauses, hclauses, -⟩ := Query.foldlM_addFilter_eq_ok.1 hfilters
      cases horder : compileOrder options r.order with
      | error e' =>
        simp only [hfilters, horder] at h
        obtain rfl := Except.error.inj h
        refine .order hpaths (filters_compile.1 ⟨clauses, hclauses⟩) ?_
        rw [compile_orderAlone, horder]
        rfl
      | ok order =>
        simp only [hfilters, horder] at h
        cases h

theorem FirstOffence.compile {e : RequestError} (h : r.FirstOffence options e) :
    r.compile options = .error e := by
  unfold FilterRequest.compile
  cases h with
  | preload hfirst =>
    rw [FirstFails.forM_eq_error.2 hfirst]
    rfl
  | filter hpaths hfirst =>
    simp only [preloads_eq_ok.2 hpaths, (filters_eq_error _).2 hfirst]
    rfl
  | order hpaths hfilters horder =>
    obtain ⟨clauses, hclauses⟩ := filters_compile.2 hfilters
    have hfilters := Query.foldlM_addFilter_eq_ok.2
      ⟨clauses, hclauses, (rfl : _ = clauses.foldl Query.add { preloads := r.preloads })⟩
    rw [compile_orderAlone] at horder
    cases hclause : compileOrder options r.order with
    | error e' =>
      rw [hclause] at horder
      obtain rfl := Except.error.inj horder
      simp only [preloads_eq_ok.2 hpaths, hfilters]
      rfl
    | ok order =>
      rw [hclause] at horder
      cases horder

/-- A request compiles if and only if all its parts do, to what these give put together, and is
otherwise refused as its first bad part is. Compiled in place it comes to the same, and a filter that
is refused leaves the query as it was. -/
theorem compile_in_parts (options : CompileOptions) (r : FilterRequest) :
    ((∃ q, r.compile options = .ok q) ↔ r.PartsCompile options) ∧
    (∀ q, r.compile options = .ok q ↔
      (∀ relation ∈ r.preloads, Identifier.isRelationPath relation = true) ∧
        r.Composes options q) ∧
    (∀ e, r.compile options = .error e ↔ r.FirstOffence options e) ∧
    Drafting.Follows ((r.draft options).on {}) (r.compile options) ∧
    ∀ (f : Filter) (q q' : Query) (e : RequestError), f.draft.on q = (.error e, q') → q' = q :=
  ⟨compiles_iff, fun _ => compile_eq_ok_iff_composes, fun _ => ⟨.of_compile, FirstOffence.compile⟩,
    draft_follows options r, fun _ _ _ _ => Filter.draft_refused⟩

end FilterRequest

end Recordkeeper
