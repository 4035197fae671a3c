import Recordkeeper.Query.Draft

set_option autoImplicit false

namespace Recordkeeper

namespace Drafting

open Recordkeeper.Filter (Clause)

/-- Either the whole clause is written, or the query is left as it was. -/
def Writes (d : Drafting Unit) (x : Except RequestError Clause) : Prop :=
  ∀ q, d.on q = match x with
    | .ok clause => (.ok (), q.add clause)
    | .error e => (.error e, q)

theorem writes_push (c : Constraint) : (push c).Writes (.ok (.constraint c)) := fun _ => rfl

theorem writes_see (v : Visibility) : (see v).Writes (.ok (.visibility v)) := fun _ => rfl

theorem writes_pure : Writes (pure ()) (.ok .nothing) := fun _ => rfl

theorem writes_throw (e : RequestError) : Writes (throw e) (.error e) := fun _ => rfl

theorem Writes.demand {d : Drafting Unit} {x : Except RequestError Clause} (h : d.Writes x)
    (check : Except RequestError Unit) :
    Writes (do Drafting.demand check; d) (do check; x) := by
  intro q
  cases check with
  | error e => rfl
  | ok u => exact h q

theorem Writes.demandAll {α : Type} {d : Drafting Unit} {x : Except RequestError Clause}
    (h : d.Writes x) (check : α → Except RequestError Unit) (xs : List α) :
    Writes (do xs.forM fun a => Drafting.demand (check a); d) (do xs.forM check; x) := by
  induction xs with
  | nil => exact h
  | cons a xs ih =>
    intro q
    simp only [List.forM_eq_forM, List.forM_cons, bind_assoc]
    exact ih.demand (check a) q

/-- An outcome of writing, and the query that it leaves, are those of a step on queries. What a step
that fails leaves is not told. -/
def Follows (left : Except RequestError Unit × Query) : Except RequestError Query → Prop
  | .ok q => left = (.ok (), q)
  | .error e => left.1 = .error e

def Carries (d : Drafting Unit) (step : Query → Except RequestError Query) : Prop :=
  ∀ q, Follows (d.on q) (step q)

variable {d d' : Drafting Unit} {step step' : Query → Except RequestError Query}

theorem Writes.carries {x : Except RequestError Clause} (h : d.Writes x) :
    d.Carries fun q => q.add <$> x := by
  intro q
  rw [h q]
  cases x <;> rfl

theorem on_bind (d d' : Drafting Unit) (q : Query) :
    on (do d; d') q = ExceptT.bindCont (fun _ => d') (d.on q).1 (d.on q).2 := rfl

theorem Carries.bind (h : d.Carries step) (h' : d'.Carries step') :
    Carries (do d; d') fun q => step q >>= step' := by
  intro q
  have hfirst := h q
  simp only [on_bind]
  cases hstep : step q with
  | error e =>
    rw [hstep] at hfirst
    rw [show (d.on q).1 = .error e from hfirst]
    rfl
  | ok q' =>
    rw [hstep] at hfirst
    rw [show d.on q = (.ok (), q') from hfirst]
    exact h' q'

theorem Carries.forM {α : Type} {write : α → Drafting Unit}
    {step : Query → α → Except RequestError Query} (h : ∀ a, (write a).Carries fun q => step q a)
    (xs : List α) : Carries (xs.forM write) fun q => xs.foldlM step q := by
  induction xs with
  | nil => exact fun _ => rfl
  | cons a xs ih =>
    simp only [List.forM_eq_forM, List.forM_cons, List.foldlM_cons]
    exact (h a).bind ih

end Drafting

namespace Filter

open Drafting

theorem draftCompare_writes (f : Filter) (op : Comparison) :
    (f.draftCompare op).Writes (f.compileCompare op) := by
  refine Writes.demand ?_ _
  split
  · exact writes_push _
  · exact writes_throw _

theorem draftAmong_writes (f : Filter) : f.draftAmong.Writes f.compileAmong := by
  obtain ⟨field, operator, value⟩ := f
  refine Writes.demand ?_ _
  cases value with
  | arr values =>
    dsimp only
    split
    · exact writes_push _
    · exact writes_throw _
  | _ => exact writes_throw _

theorem draftBetween_writes (f : Filter) : f.draftBetween.Writes f.compileBetween := by
  obtain ⟨field, operator, value⟩ := f
  refine Writes.demand ?_ _
  cases value with
  | arr values =>
    match values with
    | [low, high] =>
      dsimp only
      split
      · exact writes_throw _
      · cases low.isNull <;> cases high.isNull
        · exact writes_push _
        · exact writes_push _
        · exact writes_push _
        · exact writes_pure
    | [] | [_] | _ :: _ :: _ :: _ => exact writes_throw _
  | _ => exact writes_throw _

theorem draftLike_writes (f : Filter) : f.draftLike.Writes f.compileLike := by
  obtain ⟨field, operator, value⟩ := f
  cases value with
  | str value =>
    unfold draftLike compileLike
    dsimp only
    split
    · exact writes_throw _
    · exact (writes_push _).demandAll _ _
  | _ => exact writes_throw _

theorem draft_writes (f : Filter) : f.draft.Writes f.compile := by
  unfold draft compile
  split
  · exact writes_throw _
  · split
    · unfold compileVisibility
      split
      · exact writes_see _
      · split
        · exact writes_see _
        · exact writes_pure
    · cases Operator.ofWord? f.operator with
      | none => exact writes_throw _
      | some op =>
        cases op with
        | compare op => exact f.draftCompare_writes op
        | among => exact f.draftAmong_writes
        | between => exact f.draftBetween_writes
        | like => exact f.draftLike_writes

theorem draft_refused {f : Filter} {q q' : Query} {e : RequestError}
    (h : f.draft.on q = (.error e, q')) : q' = q := by
  rw [f.draft_writes q] at h
  cases hf : f.compile with
  | error e' =>
    simp only [hf] at h
    exact (Prod.ext_iff.1 h).2.symm
  | ok clause =>
    simp only [hf] at h
    cases (Prod.ext_iff.1 h).1

end Filter

namespace FilterRequest

open Drafting

def takeRelation (q : Query) (relation : String) : Except RequestError Query := do
  requireRelation relation
  return { q with preloads := q.preloads ++ [relation] }

theorem carries_takeRelation (relation : String) :
    Carries (do demand (requireRelation relation); load relation)
      fun q => takeRelation q relation := by
  intro q
  unfold takeRelation
  cases requireRelation relation <;> rfl

theorem foldlM_takeRelation (relations : List String) (q : Query) :
    relations.foldlM takeRelation q =
      (fun _ => { q with preloads := q.preloads ++ relations }) <$>
        relations.forM requireRelation := by
  induction relations generalizing q with
  | nil => simp [pure, Except.pure, Functor.map, Except.map]
  | cons relation relations ih =>
    rw [List.foldlM_cons, List.forM_eq_forM, List.forM_cons, takeRelation]
    cases requireRelation relation with
    | error e => rfl
    | ok u =>
      refine (ih _).trans ?_
      rw [List.append_assoc]
      rfl

theorem carries_order (order : Except RequestError (Option Order)) :
    Carries
      (do
        let order ← ExceptT.mk (pure order)
        modify fun q => { q with order := order })
      fun q => do
        let order ← order
        return { q with order := order } := by
  intro q
  cases order <;> rfl

theorem carries_draft (options : CompileOptions) (r : FilterRequest) :
    (r.draft options).Carries fun q => do
      let q ← r.preloads.foldlM takeRelation q
      let q ← r.filters.foldlM Query.addFilter q
      let order ← compileOrder options r.order
      return { q with order := order } :=
  (Carries.forM carries_takeRelation r.preloads).bind
    ((Carries.forM (fun f => f.draft_writes.carries) r.filters).bind (carries_order _))

/-- What a request writes into the empty query is what it compiles to; if it is refused, it is with
the same error. -/
theorem draft_follows (options : CompileOptions) (r : FilterRequest) :
    Follows ((r.draft options).on {}) (r.compile options) := by
  have hcompile : r.compile options = (do
      let q ← r.preloads.foldlM takeRelation {}
      let q ← r.filters.foldlM Query.addFilter q
      let order ← compileOrder options r.order
      return { q with order := order }) := by
    rw [foldlM_takeRelation]
    unfold compile
    cases r.preloads.forM requireRelation <;> rfl
  rw [hcompile]
  exact carries_draft options r {}

end FilterRequest

end Recordkeeper
