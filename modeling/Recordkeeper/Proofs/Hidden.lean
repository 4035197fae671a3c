import Recordkeeper.Proofs.Paging
import Recordkeeper.Proofs.Query.Reordering

/-!
Tombstoned rows are hidden. A read that asks for live rows looks at no other, so that tables which
hold the same live rows answer it alike, whatever else they hold: no total, no window and no error
tells them apart.
-/

set_option autoImplicit false

namespace Recordkeeper

variable {α : Type}

namespace Table

def SameLive (t t' : Table) : Prop := ∀ id, t.live? id = t'.live? id

def isLive (e : Id × Row) : Bool := !e.2.isDeleted

variable {E : EntityType α} {t t' : Table} {q : Query}

/-- Tables in order hold the same live rows just if the rows left without the tombstoned ones are
equal. -/
theorem sameLive_iff (ht : Ordered t.rows) (ht' : Ordered t'.rows) :
    t.SameLive t' ↔ t.rows.filter isLive = t'.rows.filter isLive := by
  have hmem {t : Table} (ht : Ordered t.rows) (id : Id) (row : Row) :
      (id, row) ∈ t.rows.filter isLive ↔ t.live? id = some row := by
    rw [List.mem_filter, ht.mem_iff, live?_eq_some, get?, isLive, Bool.not_eq_true']
  constructor
  · intro h
    exact (ht.filter isLive).ext (ht'.filter isLive) fun e => by rw [hmem ht, hmem ht', h e.1]
  · intro h id
    exact Option.ext fun row => by rw [← hmem ht, ← hmem ht', h]

/-- Rows that the visibility hides are not looked at. -/
theorem matching_visible (q : Query) (rows : List (Id × Row)) :
    matching q rows = matching q (rows.filter fun e => q.visibility.admits e.2.isDeleted) := by
  induction rows with
  | nil => rfl
  | cons e rows ih =>
    obtain ⟨id, row⟩ := e
    rw [matching, List.filter_cons]
    split
    · next hv => rw [matching, if_pos hv, ih]
    · exact ih

theorem matching_sameLive (h : t.SameLive t') (ht : Ordered t.rows) (ht' : Ordered t'.rows)
    (hq : q.visibility = .active) : matching q t.rows = matching q t'.rows := by
  have hlive : (fun e : Id × Row => q.visibility.admits e.2.isDeleted) = isLive := by
    rw [hq]
    rfl
  rw [matching_visible q t.rows, matching_visible q t'.rows, hlive, (sameLive_iff ht ht').1 h]

end Table

def StoreCall.AsksLive : StoreCall α → Prop
  | .find _ _ v => v = .active
  | .query q _ | .count q => q.visibility = .active
  | _ => False

theorem Table.answer_sameLive (E : EntityType α) {t t' : Table} (h : t.SameLive t')
    (ht : Ordered t.rows) (ht' : Ordered t'.rows) {c : StoreCall α} (hc : c.AsksLive)
    (now now' : Timestamp) :
    (t.answer E now c).1 = (t'.answer E now' c).1 ∧ (t.answer E now c).2 = t ∧
      (t'.answer E now' c).2 = t' := by
  cases c with
  | find id preloads v =>
    obtain rfl : v = .active := hc
    refine ⟨?_, rfl, rfl⟩
    change t.find E id .active = t'.find E id .active
    rw [find_live, find_live, h id]
  | query q w =>
    refine ⟨?_, rfl, rfl⟩
    change t.query E q w = t'.query E q w
    unfold query
    rw [matching_sameLive h ht ht' hc]
  | count q =>
    refine ⟨?_, rfl, rfl⟩
    change t.count q = t'.count q
    unfold count
    rw [matching_sameLive h ht ht' hc]
  | insert | save | updateFields | softDelete | clearTombstone | hardDelete => cases hc

def FilterRequest.AsksLive (r : FilterRequest) : Prop :=
  ∀ f ∈ r.filters, f.isVisibility = true → f.value ≠ .str "all" ∧ f.value ≠ .str "deleted"

theorem FilterRequest.AsksLive.visibility_eq {r : FilterRequest} (hr : r.AsksLive)
    {options : CompileOptions} {q : Query} (hq : r.compile options = .ok q) :
    q.visibility = .active := by
  obtain ⟨-, clauses, order, hclauses, -, rfl⟩ := compile_eq_ok.1 hq
  have hnone : clauses.filterMap Filter.Clause.visibility? = [] := by
    rw [visibility?_of_clauses hclauses, List.filterMap_eq_nil_iff]
    intro f hf
    obtain ⟨hmem, hv⟩ := List.mem_filter.1 hf
    obtain ⟨hall, hdeleted⟩ := hr f hmem hv
    simp [Filter.visibility?, hv, Filter.compileVisibility, hall, hdeleted,
      Filter.Clause.visibility?]
  simp [hnone]

def Call.AsksLive : Call α → Prop
  | .store c => c.AsksLive
  | .cache _ => False

/-- A list, a first record or a page of a request for live rows, or a lookup without a cache. -/
def Operation.ReadsLive (r : Repository α) : Operation α → Prop
  | .list q | .first q => q.AsksLive
  | .page q => q.filter.AsksLive
  | .get _ | .getById _ => r.usesCache = false
  | _ => False

namespace Repository

variable {r : Repository α}

theorem makes_query_live {q : FilterRequest} (hq : q.AsksLive) {query : Query}
    (hc : r.compile q = .ok query) (w : Option Window) :
    Action.Makes Call.AsksLive (ask (StoreCall.query query w : StoreCall α)) :=
  Action.makes_ask (hq.visibility_eq hc)

theorem makes_getById_live (hr : r.usesCache = false) (q : IdRequest) :
    Action.Makes Call.AsksLive (r.getById q) := by
  unfold getById fetch
  refine Action.makes_check fun _ _ => ?_
  simp only [hr, Bool.false_eq_true, ↓reduceIte]
  have hfind : Call.AsksLive (.store (.find q.id q.preloads .active) : Call α) := rfl
  refine (Action.makes_ask hfind).bind fun found => ?_
  cases found with
  | none => exact Action.makes_throw _
  | some x => exact Action.makes_pure x

theorem makes_action_live {op : Operation α} (hop : op.ReadsLive r) :
    Action.Makes Call.AsksLive (op.action r) := by
  cases op with
  | list q => exact Action.makes_check fun query hc => makes_query_live hop hc none
  | first q =>
    refine Action.makes_check fun query hc => (makes_query_live hop hc _).bind fun found => ?_
    cases found with
    | nil => exact Action.makes_throw _
    | cons x rest => exact Action.makes_pure x
  | page q =>
    refine Action.makes_check fun query hc => ?_
    have hcount : Call.AsksLive (.store (.count query) : Call α) := hop.visibility_eq hc
    refine (Action.makes_ask hcount).bind fun (total : UInt64) => ?_
    exact Action.makes_ite (fun _ =>
      (makes_query_live hop hc _).bind fun records => Action.makes_pure _)
      fun _ => Action.makes_pure _
  | get id => exact makes_getById_live hop ⟨id, []⟩
  | getById q => exact makes_getById_live hop q
  | create | update | updateFields | remove | restore | destroy => cases hop

structure SameLive (m n : Memory) : Prop where
  live : m.table.SameLive n.table
  ordered : Table.Ordered m.table.rows
  ordered' : Table.Ordered n.table.rows

theorem answer_sameLive (script : FaultScript) {c : Call α} (hc : c.AsksLive) {m n : Memory}
    (h : SameLive m n) :
    ((Memory.faulty r.entity script).answer c m).1 = ((Memory.faulty r.entity script).answer c n).1 ∧
      SameLive ((Memory.faulty r.entity script).answer c m).2
        ((Memory.faulty r.entity script).answer c n).2 := by
  cases c with
  | cache c => cases hc
  | store c =>
    simp only [Handler.answer, Memory.faulty, Handler.withFaults]
    split
    · exact ⟨rfl, h⟩
    · obtain ⟨hanswer, hm, hn⟩ := Table.answer_sameLive r.entity h.live h.ordered h.ordered' hc
        m.now.wall n.now.wall
      simp only [Memory.handler, hm, hn]
      exact ⟨hanswer, h⟩

/-- What a read of live rows answers does not depend on tombstoned rows. -/
theorem tombstones_unobservable {m n : Memory} (h : m.table.SameLive n.table)
    (hm : Table.Ordered m.table.rows) (hn : Table.Ordered n.table.rows) {op : Operation α}
    (hop : op.ReadsLive r) (now later : Moment) (script : FaultScript) :
    (r.perform ⟨op, now, script⟩ m).1 = (r.perform ⟨op, later, script⟩ n).1 :=
  Program.Makes.run_same (R := SameLive) (makes_action_live hop)
    (fun _ _ _ hc hs => answer_sameLive script hc hs) ⟨h, hm, hn⟩

def cells : Repository (Catalog.Item Json) where
  entity := Catalog.cell

def textOverList : Memory :=
  cells.after
    [⟨.create ⟨0, .str "a"⟩, .epoch, []⟩, ⟨.create ⟨0, .arr []⟩, .epoch, []⟩, ⟨.remove 2, .epoch, []⟩]
    (.fresh .epoch)

def textAlone : Memory := cells.after [⟨.create ⟨0, .str "a"⟩, .epoch, []⟩] (.fresh .epoch)

def pageOfA : PageRequest := { filter := { filters := [⟨"v", "=", .str "a"⟩] } }

def everyA : FilterRequest where
  filters := [⟨"v", "=", .str "a"⟩, ⟨Filter.visibilityField, "=", .str "all"⟩]

/-- No text compares with a list, and those who ask for all rows are told so. -/
theorem list_unobservable :
    (cells.perform ⟨.page pageOfA, .epoch, []⟩ textOverList).1 =
        (cells.perform ⟨.page pageOfA, .epoch, []⟩ textAlone).1 ∧
      (cells.perform ⟨.page pageOfA, .epoch, []⟩ textAlone).1.isOk = true ∧
      (cells.perform ⟨.list everyA, .epoch, []⟩ textOverList).1.isOk = false := by
  have hover : Table.Ordered textOverList.table.rows := by
    unfold Table.Ordered
    decide +kernel
  have halone : Table.Ordered textAlone.table.rows := by
    unfold Table.Ordered
    decide +kernel
  have hlive : textOverList.table.SameLive textAlone.table := (Table.sameLive_iff hover halone).2 rfl
  refine ⟨tombstones_unobservable hlive hover halone ?_ .epoch .epoch [], ?_, ?_⟩
  · intro f hf hv
    obtain rfl := List.mem_singleton.1 hf
    cases hv
  · decide +kernel
  · decide +kernel

end Repository

end Recordkeeper
