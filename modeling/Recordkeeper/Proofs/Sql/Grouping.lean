import Recordkeeper.Proofs.Query.Nulls
import Recordkeeper.Proofs.Sql.Condition
import Recordkeeper.Proofs.Sql.Places

/-!
How the WHERE clause of a query groups. It reads as one conjunction: a member for each constraint, in
order, and then the tombstone's. Alternatives stand in parentheses only, and only where a constraint is a
choice of patterns; so a row that the clause lets through satisfies every constraint by itself.
-/

set_option autoImplicit false

namespace Recordkeeper

namespace Sql

/-- The expression is the place of a value, which Postgres reads with the type of the field. -/
def ValueOf (d : Dialect) (table field : String) (e : Expression) : Prop :=
  match d with
  | .postgres => ∃ n, e = .field (partsOf (recordAndColumn table field).1) n
      (partsOf (Identifier.unqualified field))
  | .mysql => e = .place 0

/-- The member of a condition that says what a constraint says. -/
inductive ReadsAs (d : Dialect) (table : String) : Constraint → Member → Prop where
  | compare {field : String} {op : Comparison} {value : Json} {e : Expression} :
      ValueOf d table field e →
      ReadsAs d table (.compare field op value) (.test (.compare (.column (partsOf field)) op e))
  | never {field : String} : ReadsAs d table (.among field []) (.test .never)
  | among {field : String} {values : List Json} {es : List Expression} : values ≠ [] →
      es.length = values.length → (∀ e ∈ es, ValueOf d table field e) →
      ReadsAs d table (.among field values) (.test (.among (.column (partsOf field)) es))
  | range {field : String} {low high : Json} {e e' : Expression} : ValueOf d table field e →
      ValueOf d table field e' →
      ReadsAs d table (.range field low high) (.test (.between (.column (partsOf field)) e e'))
  | anyLike {terms : List LikeTerm} {alternatives : Condition} :
      List.Forall₂ (fun term alternative => ∃ n, alternative = [.test (likeTest d (term.field, n))])
        terms alternatives →
      ReadsAs d table (.anyLike terms) (.group alternatives)

def tombstone : Visibility → List Member
  | .active => [.test (.isNull (.column (partsOf Column.deletedAt)))]
  | .onlyDeleted => [.test (.isNotNull (.column (partsOf Column.deletedAt)))]
  | .all => []

mutual

def Member.Holds (truth : Test → Prop) : Member → Prop
  | .test t => truth t
  | .group alternatives => SomeHolds truth alternatives

def SomeHolds (truth : Test → Prop) : List (List Member) → Prop
  | [] => False
  | ms :: alternatives => AllHold truth ms ∨ SomeHolds truth alternatives

def AllHold (truth : Test → Prop) : List Member → Prop
  | [] => True
  | m :: ms => m.Holds truth ∧ AllHold truth ms

end

theorem allHold_iff {truth : Test → Prop} {ms : List Member} :
    AllHold truth ms ↔ ∀ m ∈ ms, m.Holds truth := by
  induction ms with
  | nil => simp [AllHold]
  | cons m ms ih => simp [AllHold, ih]

theorem someHolds_singleton {truth : Test → Prop} {ms more : List Member} :
    SomeHolds truth [ms ++ more] ↔ (∀ m ∈ ms, m.Holds truth) ∧ ∀ m ∈ more, m.Holds truth := by
  simp only [SomeHolds, or_false, allHold_iff, List.forall_mem_append]

section

variable {d : Dialect} {table field : String} {c : Constraint}

theorem valueOf_operand (n : Nat) :
    ValueOf d table field ((operand d table field n).expression d) := by
  cases d with
  | postgres => exact ⟨n, by rw [← recordAndColumn_snd table field]; rfl⟩
  | mysql => rfl

theorem readsAs_predicate (d : Dialect) (table : String) (bound : Nat) (c : Constraint) :
    ReadsAs d table c ((predicate d table bound c).member d) := by
  cases c with
  | compare field op value => exact .compare (valueOf_operand _)
  | among field values =>
    cases values with
    | nil => exact .never
    | cons v vs =>
      refine .among (by simp) (by simp) fun e he => ?_
      obtain ⟨o, ho, rfl⟩ := List.mem_map.1 he
      obtain ⟨i, -, rfl⟩ := List.mem_mapIdx.1 ho
      exact valueOf_operand _
  | range field low high => exact .range (valueOf_operand _) (valueOf_operand _)
  | anyLike terms =>
    refine .anyLike (List.forall₂_iff_get.2 ⟨by simp, fun i _ _ => ⟨bound + 1 + i, ?_⟩⟩)
    simp

theorem filled_predicate (bound : Nat) (hc : ∀ terms, c = .anyLike terms → terms ≠ []) :
    (predicate d table bound c).Filled := by
  cases c with
  | among field values =>
    cases values with
    | nil => trivial
    | cons v vs => exact List.ne_nil_of_length_pos (by simp)
  | anyLike terms =>
    have hne := hc terms rfl
    simpa [predicate, Predicate.Filled] using hne
  | compare | range => trivial

theorem readsAs_predicates (d : Dialect) (table : String) (bound : Nat) (cs : List Constraint) :
    List.Forall₂ (ReadsAs d table) cs ((predicates d table bound cs).map (Predicate.member d)) := by
  induction cs generalizing bound with
  | nil => exact .nil
  | cons c cs ih => exact .cons (readsAs_predicate d table bound c) (ih _)

theorem filled_predicates {cs : List Constraint} (hcs : ∀ terms, .anyLike terms ∈ cs → terms ≠ [])
    (bound : Nat) : ∀ p ∈ predicates d table bound cs, p.Filled := by
  induction cs generalizing bound with
  | nil => exact fun _ h => by cases h
  | cons c cs ih =>
    refine List.forall_mem_cons.2 ⟨filled_predicate bound ?_, ih ?_ _⟩
    · rintro terms rfl
      exact hcs terms List.mem_cons_self
    · exact fun terms hmem => hcs terms (List.mem_cons_of_mem _ hmem)

theorem member_visibilityPredicate (d : Dialect) (v : Visibility) :
    (visibilityPredicate v).toList.map (Predicate.member d) = tombstone v := by
  cases v <;> rfl

theorem filled_visibilityPredicate (v : Visibility) :
    ∀ p ∈ (visibilityPredicate v).toList, p.Filled := by
  cases v <;> simp [visibilityPredicate, Predicate.Filled]

end

end Sql

namespace Filter

variable {f : Filter} {terms : List LikeTerm}

theorem likeTerms_eq_nil {fields needles : List String} :
    likeTerms fields needles = [] ↔ fields = [] ∨ needles = [] := by
  cases fields <;> cases needles <;> simp [likeTerms]

/-- A choice of patterns is between one column and one needle at least. -/
theorem ne_nil_of_compile (h : f.compile = .ok (.constraint (.anyLike terms))) : terms ≠ [] := by
  have hmeans := means_of_compile h
  generalize hclause : Clause.constraint (.anyLike terms) = clause at hmeans
  cases hmeans with
  | reserved => exact absurd hclause.symm (f.compileVisibility_ne _)
  | @like value hop hvalue =>
    obtain rfl := Constraint.anyLike.inj (Clause.constraint.inj hclause)
    intro hnone
    have hempty : (f.likeFields.isEmpty || (likeNeedles value).isEmpty) = true := by
      simpa using likeTerms_eq_nil.1 hnone
    unfold compile at h
    split at h
    · cases h
    · simp only [hop.seen, hop.operator, compileLike, hvalue, hempty] at h
      cases h
  | _ => cases hclause

end Filter

theorem FilterRequest.ne_nil_of_compile {r : FilterRequest} {options : CompileOptions} {q : Query}
    (h : r.compile options = .ok q) : ∀ terms, .anyLike terms ∈ q.constraints → terms ≠ [] := by
  intro terms hterms
  obtain ⟨f, -, hf⟩ := (mem_constraints h _).1 hterms
  exact Filter.ne_nil_of_compile hf

namespace Sql

/-- The WHERE clause of a query reads as one conjunction, of a member for each constraint and then the
tombstone's, so that no row gets through which one of them refuses. Requests compile to queries whose
choices of patterns are not empty. -/
theorem where_conjoins (d : Dialect) (table : String) :
    (∀ (q : Query) (bound : List Bind), (∀ terms, .anyLike terms ∈ q.constraints → terms ≠ []) →
      ∃ members, List.Forall₂ (ReadsAs d table) q.constraints members ∧
        whereClause? d (text d (renderWhere d table q bound).1) =
          some [members ++ tombstone q.visibility] ∧
        ∀ truth : Test → Prop, SomeHolds truth [members ++ tombstone q.visibility] ↔
          (∀ m ∈ members, m.Holds truth) ∧ ∀ m ∈ tombstone q.visibility, m.Holds truth) ∧
    ∀ (r : FilterRequest) (options : CompileOptions) (q : Query), r.compile options = .ok q →
      ∀ terms, .anyLike terms ∈ q.constraints → terms ≠ [] := by
  refine ⟨fun q bound hq => ?_, fun r options q h => FilterRequest.ne_nil_of_compile h⟩
  refine ⟨_, readsAs_predicates d table bound.length q.constraints, ?_,
    fun truth => someHolds_singleton⟩
  rw [← member_visibilityPredicate d, ← List.map_append]
  exact whereClause?_whereTokens d (List.forall_mem_append.2
    ⟨filled_predicates hq bound.length, filled_visibilityPredicate q.visibility⟩)

def mixedSearch : FilterRequest where
  filters := [⟨"age", "between", .arr [.num (.int 18), .num (.int 30)]⟩,
    ⟨"people.name|email", "like", .str "ann|bob"⟩, ⟨"id", "in", .arr []⟩,
    ⟨"people.age", "<>", .num (.int 20)⟩]

def mixedQuery : Query where
  constraints := [.range "age" (.num (.int 18)) (.num (.int 30)),
    .anyLike [⟨"people.name", "%ann%"⟩, ⟨"people.name", "%bob%"⟩, ⟨"email", "%ann%"⟩,
      ⟨"email", "%bob%"⟩],
    .among "id" [], .compare "people.age" .notEqual (.num (.int 20))]

theorem where_conjoins_mixedSearch :
    mixedSearch.compile {} = .ok mixedQuery ∧
      (∀ terms, .anyLike terms ∈ mixedQuery.constraints → terms ≠ []) ∧
      ∃ members, members.length = 4 ∧
        whereClause? .postgres
            (text .postgres (renderWhere .postgres "o\"people" mixedQuery [.pattern "%"]).1) =
          some [members ++ [.test (.isNull (.column (partsOf Column.deletedAt)))]] := by
  have hcompile : mixedSearch.compile {} = .ok mixedQuery := by decide +kernel
  obtain ⟨hread, hcompiled⟩ := where_conjoins .postgres "o\"people"
  have hfilled := hcompiled mixedSearch {} mixedQuery hcompile
  obtain ⟨members, hmembers, hclause, -⟩ := hread mixedQuery [.pattern "%"] hfilled
  exact ⟨hcompile, hfilled, members, hmembers.length_eq.symm, hclause⟩

end Sql

end Recordkeeper
