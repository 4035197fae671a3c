import Recordkeeper.Proofs.Memory

set_option autoImplicit false

namespace Recordkeeper

variable {α : Type}

def Moment.epoch : Moment where
  wall := ⟨⟨1970, 1, 1, by decide, by decide, by decide⟩, 0, 0, 0, 0, by decide, by decide⟩
  ticks := 0

structure Step (α : Type) where
  operation : Operation α
  moment : Moment
  faults : FaultScript := []

namespace Memory

def fresh (start : Moment) : Memory := { now := start }

end Memory

namespace Repository

def perform (r : Repository α) (s : Step α) (m : Memory) :
    Except RequestError s.operation.Result × Memory :=
  Action.perform ((Memory.handler r.entity).withFaults s.faults) (s.operation.action r)
    { m with now := s.moment }

/-- What a step answers, unless it is broken off: the call in which the lock of the cache is lost
does not come back. -/
def answer? (r : Repository α) (s : Step α) (m : Memory) :
    Option (Except RequestError s.operation.Result) :=
  if m.cache ≠ .poisoned ∧ (r.perform s m).2.cache = .poisoned then none
  else some (r.perform s m).1

def after (r : Repository α) (steps : List (Step α)) (m : Memory) : Memory :=
  steps.foldl (fun m s => (r.perform s m).2) m

theorem after_append (r : Repository α) (steps more : List (Step α)) (m : Memory) :
    r.after (steps ++ more) m = r.after more (r.after steps m) := List.foldl_append

theorem after_keeps {P : Memory → Prop} {r : Repository α} {steps : List (Step α)}
    (hP : ∀ s ∈ steps, ∀ m, P m → P (r.perform s m).2) {m : Memory} (hm : P m) :
    P (r.after steps m) := by
  induction steps generalizing m with
  | nil => exact hm
  | cons s steps ih =>
    exact ih (fun s' hs' => hP s' (List.mem_cons_of_mem _ hs')) (hP s List.mem_cons_self m hm)

def tableAfter (r : Repository α) (start : Moment) (steps : List (Step α)) : Table :=
  (r.after steps (.fresh start)).table

def answerAfter (r : Repository α) (start : Moment) (steps : List (Step α)) (op : Operation α)
    (now : Moment) : Except RequestError op.Result :=
  (r.perform ⟨op, now, []⟩ (r.after steps (.fresh start))).1

theorem tableAfter_append {r : Repository α} (start : Moment) (steps more : List (Step α)) :
    r.tableAfter start (steps ++ more) = (r.after more (r.after steps (.fresh start))).table := by
  rw [tableAfter, after_append]

theorem tableAfter_concat {r : Repository α} (start : Moment) (steps : List (Step α)) (s : Step α) :
    r.tableAfter start (steps ++ [s]) = (r.perform s (r.after steps (.fresh start))).2.table :=
  tableAfter_append start steps [s]

end Repository

/-- The rows after a call under faults come from the call, or nothing happened. -/
theorem Memory.table_faulty (E : EntityType α) (script : FaultScript) (c : Call α) (m : Memory) :
    ((faulty E script).answer c m).2.table = m.table ∨
      ∃ call, c = .store call ∧
        ((faulty E script).answer c m).2.table = (m.table.answer E m.now.wall call).2 := by
  cases c with
  | store call =>
    simp only [Handler.answer]
    rcases store_faulty E script call m with ⟨fault, hf⟩ | hrun
    · rw [hf]
      exact .inl rfl
    · rw [hrun]
      exact .inr ⟨call, rfl, rfl⟩
  | cache call => exact .inl (cache_alike E script call m).table

theorem Repository.perform_keeps_table {P : Table → Prop} {r : Repository α}
    (hP : ∀ now t (c : StoreCall α), P t → P (t.answer r.entity now c).2) (s : Step α) {m : Memory}
    (hm : P m.table) : P (r.perform s m).2.table := by
  refine Program.run_keeps (P := fun m : Memory => P m.table) (fun c m h => ?_) _ hm
  rcases Memory.table_faulty r.entity s.faults c m with ht | ⟨call, -, ht⟩
  · rwa [ht]
  · rw [ht]
    exact hP _ _ _ h

namespace Repository

variable {r : Repository α} {m : Memory}

theorem perform_rows_keyed (s : Step α) (hm : Table.Keyed m.table.rows) :
    Table.Keyed (r.perform s m).2.table.rows :=
  perform_keeps_table (P := fun t => Table.Keyed t.rows)
    (fun now t c h => (Table.answer_outcome r.entity now t c).keyed h) s hm

theorem perform_cache_keyed (s : Step α) (hm : m.cache.Keyed) : (r.perform s m).2.cache.Keyed :=
  Program.run_keeps (P := fun m : Memory => m.cache.Keyed)
    (fun c _ h => Memory.answer_cache_keyed r.entity s.faults c h) _ hm

end Repository

/-- The tables that operations of repositories for one type can reach, whatever their settings are
and whatever a cache beside the table holds. -/
inductive Table.Reachable (E : EntityType α) : Table → Prop where
  | empty : Reachable E {}
  | step {m : Memory} (config : RepositoryConfig) (hasCache : Bool) (s : Step α) :
      Reachable E m.table → Reachable E ((Repository.mk E config hasCache).perform s m).2.table

namespace Table.Reachable

variable {E : EntityType α} {t : Table}

theorem induct {P : Table → Prop} (hempty : P {})
    (hP : ∀ now t (c : StoreCall α), P t → P (t.answer E now c).2) (ht : Reachable E t) : P t := by
  induction ht with
  | empty => exact hempty
  | step config hasCache s _ ih => exact Repository.perform_keeps_table hP s ih

theorem keyed (ht : Reachable E t) : Table.Keyed t.rows :=
  ht.induct (P := fun t => Table.Keyed t.rows) Table.keyed_nil
    fun now t c h => (Table.answer_outcome E now t c).keyed h

theorem after {r : Repository α} (steps : List (Step α)) {m : Memory}
    (hm : Reachable r.entity m.table) : Reachable r.entity (r.after steps m).table :=
  Repository.after_keeps (P := fun m => Reachable r.entity m.table)
    (fun s _ _ h => .step r.config r.hasCache s h) hm

end Table.Reachable

end Recordkeeper
