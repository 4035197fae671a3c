import Recordkeeper.Proofs.Query.Expansion

set_option autoImplicit false

namespace Recordkeeper

theorem Json.isNull_iff {v : Json} : v.isNull = true ↔ v = .null := by
  cases v <;> simp [isNull]

namespace Filter

structure Asks (f : Filter) (op : Operator) : Prop where
  seen : f.isVisibility = false
  operator : Operator.ofWord? f.operator = some op

/-- The clauses that a filter can stand for, by its operator and its value. -/
inductive Means (f : Filter) : Clause → Prop where
  | reserved : f.isVisibility = true → Means f f.compileVisibility
  | compare {op : Comparison} : f.Asks (.compare op) → f.value.IsValue →
      Means f (.constraint (.compare f.field op f.value))
  | among {values : List Json} : f.Asks .among → f.value = .arr values →
      (∀ v ∈ values, v.isScalar = true) → Means f (.constraint (.among f.field values))
  | range {low high : Json} : f.Asks .between → f.value = .arr [low, high] → low.IsValue →
      high.IsValue → Means f (.constraint (.range f.field low high))
  | above {low : Json} : f.Asks .between → f.value = .arr [low, .null] → low.IsValue →
      Means f (.constraint (.compare f.field .atLeast low))
  | below {high : Json} : f.Asks .between → f.value = .arr [.null, high] → high.IsValue →
      Means f (.constraint (.compare f.field .atMost high))
  | unbounded : f.Asks .between → f.value = .arr [.null, .null] → Means f .nothing
  | like {value : String} : f.Asks .like → f.value = .str value →
      Means f (.constraint (.anyLike (likeTerms f.likeFields (likeNeedles value))))

variable {f : Filter} {clause : Clause}

theorem isNull_of_compile (h : f.compile = .ok clause) : f.value.isNull = false := by
  unfold compile at h
  split at h
  · cases h
  · next hcomplete =>
    simp only [Bool.not_eq_true', Bool.not_eq_false, isComplete, Bool.and_eq_true] at hcomplete
    exact hcomplete.2

theorem means_of_compare {op : Comparison} (hop : f.Asks (.compare op))
    (hvalue : f.value.isNull = false) (h : f.compileCompare op = .ok clause) : f.Means clause := by
  have hdone := requireColumn_bind h
  split at hdone
  · next hscalar =>
    obtain rfl := Except.ok.inj hdone
    exact .compare hop ⟨hscalar, hvalue⟩
  · cases hdone

theorem means_of_among (hop : f.Asks .among) (h : f.compileAmong = .ok clause) : f.Means clause := by
  have hdone := requireColumn_bind h
  split at hdone
  · next values hvalues =>
    split at hdone
    · next hscalars =>
      obtain rfl := Except.ok.inj hdone
      exact .among hop hvalues (List.all_eq_true.1 hscalars)
    · cases hdone
  · cases hdone

theorem means_of_between (hop : f.Asks .between) (h : f.compileBetween = .ok clause) :
    f.Means clause := by
  have hdone := requireColumn_bind h
  split at hdone
  · next low high hvalues =>
    split at hdone
    · cases hdone
    · next hscalars =>
      simp only [Bool.or_eq_true, Bool.not_eq_true', not_or, Bool.not_eq_false] at hscalars
      split at hdone
      · next hlow hhigh =>
        obtain rfl := Except.ok.inj hdone
        exact .range hop hvalues ⟨hscalars.1, hlow⟩ ⟨hscalars.2, hhigh⟩
      · next hlow hhigh =>
        obtain rfl := Except.ok.inj hdone
        obtain rfl := Json.isNull_iff.1 hhigh
        exact .above hop hvalues ⟨hscalars.1, hlow⟩
      · next hlow hhigh =>
        obtain rfl := Except.ok.inj hdone
        obtain rfl := Json.isNull_iff.1 hlow
        exact .below hop hvalues ⟨hscalars.2, hhigh⟩
      · next hlow hhigh =>
        obtain rfl := Except.ok.inj hdone
        obtain rfl := Json.isNull_iff.1 hlow
        obtain rfl := Json.isNull_iff.1 hhigh
        exact .unbounded hop hvalues
  · cases hdone
  · cases hdone

theorem means_of_like (hop : f.Asks .like) (h : f.compileLike = .ok clause) : f.Means clause := by
  unfold compileLike at h
  split at h
  · next value hvalue =>
    simp only at h
    split at h
    · cases h
    · cases hfields : f.likeFields.forM requireColumn with
      | error e =>
        rw [hfields] at h
        cases h
      | ok u =>
        rw [hfields] at h
        obtain rfl := Except.ok.inj h
        exact .like hop hvalue
  · cases h

theorem means_of_compile (h : f.compile = .ok clause) : f.Means clause := by
  have hvalue := isNull_of_compile h
  unfold compile at h
  split at h
  · cases h
  · split at h
    · next hseen =>
      obtain rfl := Except.ok.inj h
      exact .reserved hseen
    · next hseen =>
      have hseen := Bool.eq_false_iff.2 hseen
      split at h
      · cases h
      · next op hop => exact means_of_compare ⟨hseen, hop⟩ hvalue h
      · next hop => exact means_of_among ⟨hseen, hop⟩ h
      · next hop => exact means_of_between ⟨hseen, hop⟩ h
      · next hop => exact means_of_like ⟨hseen, hop⟩ h

end Filter

end Recordkeeper
