import Recordkeeper.Proofs.Query.Compile
import Recordkeeper.Proofs.Run
import Recordkeeper.Entity.Catalog

set_option autoImplicit false

namespace Recordkeeper

structure Query.SameOrder (q q' : Query) : Prop where
  preloads : q.preloads = q'.preloads
  constraints : q.constraints = q'.constraints
  visibility : q.visibility = q'.visibility
  keys : Table.sortKeys q.order = Table.sortKeys q'.order

namespace Table

variable {α : Type} {q q' : Query}

theorem matching_sameOrder (h : q.SameOrder q') (rows : List (Id × Row)) :
    matching q rows = matching q' rows := by
  refine matching_verdicts fun e _ => ?_
  rw [verdict, verdict, h.constraints, h.visibility]

theorem query_sameOrder (h : q.SameOrder q') (E : EntityType α) (t : Table) (w : Option Window) :
    t.query E q w = t.query E q' w := by
  rw [query, query, matching_sameOrder h, h.keys]

theorem count_sameOrder (h : q.SameOrder q') (t : Table) : t.count q = t.count q' := by
  rw [count, count, matching_sameOrder h]

end Table

namespace FilterRequest

variable {r : FilterRequest} {sortable : List String} {q : Query}

theorem compileOrder_passthrough {clause : Option String} {o : Option Order}
    (h : compileOrder { policy := .strict, sortable := sortable } clause = .ok o) :
    ∃ o', compileOrder { policy := .passthrough, sortable := sortable } clause = .ok o' ∧
      Table.sortKeys o = Table.sortKeys o' := by
  simp only [compileOrder] at h ⊢
  split at h
  · next hblank =>
    cases h
    exact ⟨none, if_pos hblank, rfl⟩
  · next hclause =>
    refine ⟨_, if_neg hclause, ?_⟩
    split at h
    · cases h
    · next keys hkeys =>
      split at h
      · cases h
      · cases h
        rw [Table.sortKeys, Table.sortKeys, hkeys]
        rfl

theorem compile_passthrough (h : r.compile { policy := .strict, sortable := sortable } = .ok q) :
    ∃ q', r.compile { policy := .passthrough, sortable := sortable } = .ok q' ∧ q.SameOrder q' := by
  obtain ⟨hpreloads, clauses, o, hclauses, ho, rfl⟩ := compile_eq_ok.1 h
  obtain ⟨o', ho', hkeys⟩ := compileOrder_passthrough ho
  exact ⟨_, compile_eq_ok.2 ⟨hpreloads, clauses, o', hclauses, ho', rfl⟩, rfl, rfl, rfl, hkeys⟩

end FilterRequest

namespace Action

variable {σ α β γ : Type} {h : Handler σ α} {x y : Action α β} {f g : β → Action α γ}

/-- Actions that end alike from every state. -/
def Same (h : Handler σ α) (x y : Action α β) : Prop := ∀ s, perform h x s = perform h y s

theorem same_self (x : Action α β) : Same h x x := fun _ => rfl

theorem Same.bind (hx : Same h x y) (hf : ∀ b, Same h (f b) (g b)) :
    Same h (x >>= f) (y >>= g) := by
  intro s
  rw [perform_bind, perform_bind, hx s]
  rcases perform h y s with ⟨a, s'⟩
  cases a with
  | ok b => exact hf b s'
  | error e => rfl

theorem same_check {e e' : Except RequestError β} {b b' : β} (he : e = .ok b) (he' : e' = .ok b')
    (hf : Same h (f b) (g b')) : Same h (liftExcept e >>= f) (liftExcept e' >>= g) := by
  intro s
  rw [perform_check_ok he, perform_check_ok he']
  exact hf s

theorem same_ite {c : Prop} [Decidable c] {x' y' : Action α β} (hx : Same h x x')
    (hy : Same h y y') : Same h (if c then x else y) (if c then x' else y') := by
  split
  · exact hx
  · exact hy

end Action

def FaultScript.over {β : Type} (script : FaultScript) (call : String) (nothing : β)
    (answer : Except StoreError β) : Except StoreError β :=
  match script.find? "store" call with
  | some .empty => .ok nothing
  | some (.failure e) => .error e
  | none => answer

namespace Repository

variable {α : Type} {E : EntityType α} {script : FaultScript} {q q' : Query}

theorem perform_query_faulty (E : EntityType α) (script : FaultScript) (q : Query)
    (w : Option Window) (m : Memory) :
    Action.perform (Memory.faulty E script) (ask (.query q w) : Action α (List α)) m =
      ((script.over "query" [] (m.table.query E q w)).mapError RequestError.store, m) := by
  refine (Action.perform_ask (.query q w) m).trans ?_
  simp only [Memory.faulty, Handler.withFaults, StoreCall.name, FaultScript.over]
  cases script.find? "store" "query" with
  | none => rfl
  | some fault => cases fault <;> rfl

theorem perform_count_faulty (E : EntityType α) (script : FaultScript) (q : Query) (m : Memory) :
    Action.perform (Memory.faulty E script) (ask (.count q) : Action α UInt64) m =
      ((script.over "count" 0 (m.table.count q)).mapError RequestError.store, m) := by
  refine (Action.perform_ask (.count q) m).trans ?_
  simp only [Memory.faulty, Handler.withFaults, StoreCall.name, FaultScript.over]
  cases script.find? "store" "count" with
  | none => rfl
  | some fault => cases fault <;> rfl

theorem same_query (h : q.SameOrder q') (w : Option Window) :
    Action.Same (Memory.faulty E script) (ask (.query q w) : Action α (List α))
      (ask (.query q' w)) := by
  intro m
  rw [perform_query_faulty, Table.query_sameOrder h]
  exact (perform_query_faulty E script q' w m).symm

theorem same_count (h : q.SameOrder q') :
    Action.Same (Memory.faulty E script) (ask (.count q) : Action α UInt64) (ask (.count q')) := by
  intro m
  rw [perform_count_faulty, Table.count_sameOrder h]
  exact (perform_count_faulty E script q' m).symm

def under (rep : Repository α) (p : OrderPolicy) : Repository α :=
  { rep with config := { rep.config with orderPolicy := p } }

end Repository

def Operation.filter? {α : Type} : Operation α → Option FilterRequest
  | .first q | .list q => some q
  | .page q => some q.filter
  | _ => none

namespace Repository

variable {α : Type} {rep : Repository α} {r : FilterRequest} {q q' : Query}

/-- A search runs alike under both policies if its request compiles under both, to the same order. -/
theorem same_action (h : q.SameOrder q')
    (hstrict : (rep.under .strict).compile r = .ok q)
    (hpass : (rep.under .passthrough).compile r = .ok q') {op : Operation α}
    (hop : op.filter? = some r) (script : FaultScript) :
    Action.Same (Memory.faulty rep.entity script) (op.action (rep.under .strict))
      (op.action (rep.under .passthrough)) := by
  cases op with
  | first f =>
    cases hop
    refine Action.same_check hstrict hpass ((same_query h (some .first)).bind fun records => ?_)
    cases records <;> exact Action.same_self _
  | list f =>
    cases hop
    exact Action.same_check hstrict hpass (same_query h none)
  | page f =>
    cases hop
    refine Action.same_check hstrict hpass ((same_count h).bind fun total : UInt64 => ?_)
    exact Action.same_ite ((same_query h _).bind fun records => Action.same_self _)
      (Action.same_self _)
  | _ => cases hop

end Repository

namespace FilterRequest

/-- A request that compiles strictly compiles also when its clause is passed through. A table then
answers both queries alike, in every window and for every type of record, and whatever fails in the
store, every search of a repository answers the same under both policies. -/
theorem policies_agree {r : FilterRequest} {sortable : List String} {q : Query}
    (h : r.compile { policy := .strict, sortable := sortable } = .ok q) :
    ∃ q', r.compile { policy := .passthrough, sortable := sortable } = .ok q' ∧
      (∀ t : Table, t.count q = t.count q') ∧
      ∀ {α : Type},
        (∀ (E : EntityType α) (t : Table) (w : Option Window), t.query E q w = t.query E q' w) ∧
        ∀ rep : Repository α, rep.entity.sortable = sortable → ∀ op : Operation α,
          op.filter? = some r → ∀ (now : Moment) (faults : FaultScript) (m : Memory),
            (rep.under .strict).perform ⟨op, now, faults⟩ m =
              (rep.under .passthrough).perform ⟨op, now, faults⟩ m := by
  obtain ⟨q', hpass, hsame⟩ := compile_passthrough h
  refine ⟨q', hpass, Table.count_sameOrder hsame, fun {α} => ⟨Table.query_sameOrder hsame, ?_⟩⟩
  rintro rep rfl op hop now faults m
  exact Repository.same_action hsame h hpass hop faults { m with now := now }

def loudest : FilterRequest where
  filters := [⟨"id", ">", .num (.int 1)⟩]
  order := some "\n action DESC\t, id "

def loudestQuery : Query where
  constraints := [.compare "id" .greater (.num (.int 1))]
  order := some (.keys [⟨"action", .descending⟩, ⟨"id", .ascending⟩])

def audits : Repository (Record Catalog.audit.fields) := { entity := Catalog.audit.entity }

theorem policies_agree_loudest :
    loudest.compile { policy := .strict, sortable := ["action", "id"] } = .ok loudestQuery ∧
      (∃ q', loudest.compile { policy := .passthrough, sortable := ["action", "id"] } = .ok q' ∧
        q'.order = some (.raw "action DESC\t, id") ∧
        ∀ t : Table, t.query audits.entity loudestQuery (some ⟨1, 2⟩) =
          t.query audits.entity q' (some ⟨1, 2⟩)) ∧
      ∀ m : Memory, (audits.under .strict).perform ⟨.list loudest, .epoch, []⟩ m =
        (audits.under .passthrough).perform ⟨.list loudest, .epoch, []⟩ m := by
  have hstrict : loudest.compile { policy := .strict, sortable := ["action", "id"] } =
      .ok loudestQuery := by decide +kernel
  obtain ⟨q', hpass, -, hsearch⟩ := policies_agree hstrict
  obtain ⟨hquery, hoperations⟩ := hsearch
  refine ⟨hstrict, ⟨q', hpass, ?_, fun t => hquery audits.entity t _⟩, fun m =>
    hoperations audits rfl (.list loudest) rfl .epoch [] m⟩
  have horder : (loudest.compile { policy := .passthrough, sortable := ["action", "id"] }).map
      Query.order = .ok (some (.raw "action DESC\t, id")) := by decide +kernel
  rw [hpass] at horder
  exact Except.ok.inj horder

end FilterRequest

end Recordkeeper
