import Mathlib.Data.List.Basic
import Recordkeeper.Store.Table

set_option autoImplicit false

namespace Recordkeeper

/-- The same result, or a failure on either side. -/
inductive Agree {ε β : Type} : Except ε β → Except ε β → Prop where
  | ok (b : β) : Agree (.ok b) (.ok b)
  | error (e e' : ε) : Agree (.error e) (.error e')

namespace Agree

variable {ε ε' β γ : Type} {x y z : Except ε β}

theorem refl (x : Except ε β) : Agree x x := by
  cases x with
  | ok b => exact .ok b
  | error e => exact .error e e

theorem trans (h : Agree x y) (h' : Agree y z) : Agree x z := by
  cases h with
  | ok b => exact h'
  | error e e' => cases h' with | error _ e'' => exact .error e e''

theorem bind {f g : β → Except ε γ} (h : Agree x y) (hf : ∀ b, Agree (f b) (g b)) :
    Agree (x >>= f) (y >>= g) := by
  cases h with
  | ok b => exact hf b
  | error e e' => exact .error e e'

theorem comm (x : Except ε β) (y : Except ε γ) {δ : Type} (f : β → γ → Except ε δ) :
    Agree (do f (← x) (← y)) (do let c ← y; f (← x) c) := by
  cases x with
  | ok b =>
    cases y with
    | ok c => exact refl (f b c)
    | error e => exact .error e e
  | error e =>
    cases y with
    | ok c => exact .error e e
    | error e' => exact .error e e'

theorem mapError (h : Agree x y) (f : ε → ε') : Agree (x.mapError f) (y.mapError f) := by
  cases h with
  | ok b => exact .ok b
  | error e e' => exact .error (f e) (f e')

end Agree

theorem Matching.satisfiesAll_perm (columns : Columns) {cs ds : List Constraint} (h : cs.Perm ds) :
    Agree (satisfiesAll columns cs) (satisfiesAll columns ds) := by
  induction h with
  | nil => exact .refl _
  | cons c _ ih => exact Agree.bind (.refl _) fun _ => ih.bind fun _ => .refl _
  | swap c d cs =>
    have hswap := Agree.comm (satisfies columns d) (satisfies columns c) fun b a => do
      let rest ← satisfiesAll columns cs
      return b && (a && rest)
    simp only [satisfiesAll, bind_assoc, pure_bind]
    refine hswap.trans (Agree.bind (.refl _) fun _ => Agree.bind (.refl _) fun _ => ?_)
    simp only [Bool.and_left_comm]
    exact .refl _
  | trans _ _ ih ih' => exact ih.trans ih'

namespace Table

variable {α : Type} {q q' : Query}

theorem matching_agree (hv : q.visibility = q'.visibility) (hc : q.constraints.Perm q'.constraints)
    (rows : List (Id × Row)) : Agree (matching q rows) (matching q' rows) := by
  induction rows with
  | nil => exact .ok []
  | cons e rows ih =>
    obtain ⟨id, row⟩ := e
    simp only [matching, hv]
    split
    · have hrow := (Matching.satisfiesAll_perm (row.column id) hc).mapError queryError
      exact hrow.bind fun _ => ih.bind fun _ => .refl _
    · exact ih

theorem query_agree (E : EntityType α) (t : Table) (hv : q.visibility = q'.visibility)
    (hc : q.constraints.Perm q'.constraints) (ho : q.order = q'.order) (w : Option Window) :
    Agree (t.query E q w) (t.query E q' w) := by
  simp only [query, ho]
  exact (matching_agree hv hc t.rows).bind fun _ => .refl _

theorem count_agree (t : Table) (hv : q.visibility = q'.visibility)
    (hc : q.constraints.Perm q'.constraints) : Agree (t.count q) (t.count q') :=
  (matching_agree hv hc t.rows).bind fun _ => .refl _

end Table

end Recordkeeper
