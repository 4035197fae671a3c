import Recordkeeper.Proofs.Shown
import Recordkeeper.Proofs.Write

/-!
The columns that a store keeps for itself. A record shows its identity, the time of the last write
that succeeded on it and whether it is tombstoned, whatever callers send; the time of its creation
it shows as long as no update of columns sets that column to another.
-/

set_option autoImplicit false

namespace Recordkeeper

variable {α : Type}

def EntityType.HasStandard (E : EntityType α) : Prop :=
  ∀ x d, E.encode x = some (.obj d) → ∀ c ∈ Column.standard, Object.has c d

structure Dates where
  created : Timestamp
  updated : Timestamp

def Dates.record (E : EntityType α) (now : Timestamp) (dates : Id → Option Dates) :
    (op : Operation α) → Except RequestError op.Result → Id → Option Dates
  | .create _, .ok y => fun i => if i = E.identity y then some ⟨now, now⟩ else dates i
  | .update _ id, .ok _ => fun i =>
    if i = id then (dates i).map fun d => { d with updated := now } else dates i
  | .updateFields x _, .ok _ => fun i =>
    if i = E.identity x then (dates i).map fun d => { d with updated := now } else dates i
  | _, _ => dates

/-- A row holds a value in a column: queries see it there, and the record that the row shows has
it. -/
def Row.Holds (E : EntityType α) (id : Id) (row : Row) (c : String) (v : Json) : Prop :=
  row.column id c = v ∧
    ∃ x e, Table.recordOf E id row = .ok x ∧ E.encode x = some (.obj e) ∧ Object.get? c e = some v

namespace Operation

def stores : Operation α → Bool
  | create _ | update .. | updateFields .. => true
  | _ => false

end Operation

namespace Table

def Dated (c : String) (time : Dates → Timestamp) (dates : Id → Option Dates) (t : Table) : Prop :=
  t.All fun id row => ∃ d, dates id = some d ∧ row.data.get? c = some (.str (time d).text)

inductive Effect (E : EntityType α) (now : Timestamp) (t t' : Table) :
    (op : Operation α) → Except RequestError op.Result → Prop where
  | failed {op : Operation α} {e : RequestError} : t'.rows = t.rows →
      Effect E now t t' op (.error e)
  | aside {op : Operation α} {answer : Except RequestError op.Result} : op.stores = false →
      (∀ i row, t'.get? i = some row → ∃ old, t.get? i = some old ∧ row.data = old.data) →
      Effect E now t t' op answer
  | created {x y : α} {data : Object} : E.encode x = some (.obj data) →
      (∀ i, t'.get? i =
        if i = E.identity y then some { data := stampNew now data } else t.get? i) →
      Effect E now t t' (.create x) (.ok y)
  | saved {x y : α} {id : Id} {data : Object} {row : Row} : E.encode x = some (.obj data) →
      t.get? id = some row →
      (∀ i, t'.get? i =
        if i = id then some { row with data := overwritten now row data } else t.get? i) →
      Effect E now t t' (.update x id) (.ok y)
  | fieldsSet {x y : α} {fields data : Object} {row : Row} : t.get? (E.identity x) = some row →
      setColumns fields row.data = .ok data →
      (∀ i, t'.get? i =
        if i = E.identity x then
          some { row with data := data.replace Column.updatedAt (.str now.text) }
        else t.get? i) →
      Effect E now t t' (.updateFields x fields) (.ok y)

section

variable {E : EntityType α} {now : Timestamp} {t t' : Table} {dates dates' : Id → Option Dates}
  {c : String} {time : Dates → Timestamp} {op : Operation α}
  {answer : Except RequestError op.Result}

theorem Dates.record_aside (hop : op.stores = false) (answer : Except RequestError op.Result) :
    Dates.record E now dates op answer = dates := by
  cases op <;> first | rfl | cases hop

theorem Dates.record_error (e : RequestError) : Dates.record E now dates op (.error e) = dates := by
  cases op <;> rfl

theorem get?_replace_self {d : Object} (h : d.has c) (v : Json) :
    (d.replace c v).get? c = some v := by
  obtain ⟨w, hw⟩ := Option.isSome_iff_exists.1 h
  simp [Object.get?_replace, hw]

theorem Dated.write {id : Id} {row : Row} {d : Dates} (h : Dated c time dates t)
    (hrows : ∀ i, t'.get? i = if i = id then some row else t.get? i)
    (hdates : ∀ i, dates' i = if i = id then some d else dates i)
    (hrow : row.data.get? c = some (.str (time d).text)) : Dated c time dates' t' := by
  intro i row' hi
  rw [hrows] at hi
  rw [hdates]
  split at hi
  · next he =>
    obtain rfl := Option.some.inj hi
    exact ⟨d, if_pos he, hrow⟩
  · next hne =>
    rw [if_neg hne]
    exact h i row' hi

theorem Dated.kept (h : Dated c time dates t)
    (hrows : ∀ i row, t'.get? i = some row → ∃ old, t.get? i = some old ∧ row.data = old.data) :
    Dated c time dates t' := by
  intro i row hi
  obtain ⟨old, hold, hdata⟩ := hrows i row hi
  rw [hdata]
  exact h i old hold

theorem Dated.overwrite {id : Id} {row : Row} {d : Dates} (h : Dated c time dates t)
    (hd : dates id = some d)
    (hrows : ∀ i, t'.get? i = if i = id then some row else t.get? i)
    (hrow : row.data.get? c = some (.str (time { d with updated := now }).text)) :
    Dated c time
      (fun i => if i = id then (dates i).map fun d => { d with updated := now } else dates i) t' := by
  refine h.write hrows (fun i => ?_) hrow
  split
  · next hi => rw [hi, hd, Option.map_some]
  · rfl

theorem Effect.dated_updated (h : Effect E now t t' op answer) (hE : E.HasStandard)
    (ht : Dated Column.updatedAt Dates.updated dates t) :
    Dated Column.updatedAt Dates.updated (Dates.record E now dates op answer) t' := by
  cases h with
  | failed hrows =>
    rw [Dates.record_error]
    exact ht.congr hrows
  | aside hop hrows =>
    rw [Dates.record_aside hop]
    exact ht.kept hrows
  | created hx hrows =>
    refine ht.write hrows (fun _ => rfl) ?_
    have hhas := hE _ _ hx Column.updatedAt (by decide)
    simp only [stampNew]
    rw [Object.get?_replace_of_ne (by decide), get?_replace_self (by simpa using hhas)]
  | saved hx hrow hrows =>
    obtain ⟨d, hd, -⟩ := ht _ _ hrow
    have hhas := hE _ _ hx Column.updatedAt (by decide)
    exact ht.overwrite hd hrows (get?_replace_self (by simpa using hhas) _)
  | fieldsSet hrow hset hrows =>
    obtain ⟨d, hd, hold⟩ := ht _ _ hrow
    refine ht.overwrite hd hrows (get?_replace_self ?_ _)
    rw [(setColumns_ok hset _).2.1, Object.has, hold]
    rfl

/-- An update of columns gives the time of the record's creation again, where it gives one. -/
def GivesCreation (E : EntityType α) (dates : Id → Option Dates) :
    (op : Operation α) → Except RequestError op.Result → Prop
  | .updateFields x fields, .ok _ => ∀ v, (Object.ofMembers fields).get? Column.createdAt = some v →
      ∃ d, dates (E.identity x) = some d ∧ v = .str d.created.text
  | _, _ => True

theorem Effect.dated_created (h : Effect E now t t' op answer) (hE : E.HasStandard)
    (ht : Dated Column.createdAt Dates.created dates t) :
    Dated Column.createdAt Dates.created (Dates.record E now dates op answer) t' ↔
      GivesCreation E dates op answer := by
  cases h with
  | failed hrows =>
    rw [Dates.record_error]
    refine iff_of_true (ht.congr hrows) ?_
    cases op <;> trivial
  | aside hop hrows =>
    rw [Dates.record_aside hop]
    refine iff_of_true (ht.kept hrows) ?_
    cases op <;> trivial
  | created hx hrows =>
    refine iff_of_true (ht.write hrows (fun _ => rfl) ?_) trivial
    have hhas := hE _ _ hx Column.createdAt (by decide)
    simp only [stampNew]
    rw [Object.get?_replace_of_ne (by decide), Object.get?_replace_of_ne (by decide),
      get?_replace_self hhas]
  | saved hx hrow hrows =>
    obtain ⟨d, hd, hold⟩ := ht _ _ hrow
    refine iff_of_true (ht.overwrite hd hrows ?_) trivial
    have hhas := hE _ _ hx Column.createdAt (by decide)
    simp only [overwritten]
    rw [Object.get?_replace_of_ne (by decide), get?_replace_self hhas, hold]
    rfl
  | @fieldsSet x y fields data row hrow hset hrows =>
    obtain ⟨d, hd, hold⟩ := ht _ _ hrow
    have hwritten := (setColumns_ok hset Column.createdAt).1
    have hkept : (data.replace Column.updatedAt (.str now.text)).get? Column.createdAt =
        data.get? Column.createdAt := Object.get?_replace_of_ne (by decide) _ _
    constructor
    · intro h v hv
      obtain ⟨d', hd', hrow'⟩ := h (E.identity x) _ ((hrows _).trans (if_pos rfl))
      have hdates : Dates.record E now dates (.updateFields x fields) (.ok y) (E.identity x) =
          some { d with updated := now } := by simp only [Dates.record, if_pos, hd, Option.map_some]
      rw [hdates] at hd'
      obtain rfl := Option.some.inj hd'
      have hset := hkept.symm.trans hrow'
      rw [hwritten, hv, Option.some_or] at hset
      exact ⟨d, hd, Option.some.inj hset⟩
    · intro h
      refine ht.overwrite hd hrows ?_
      rw [hkept, hwritten, hold]
      cases hv : (Object.ofMembers fields).get? Column.createdAt with
      | none => rfl
      | some v =>
        obtain ⟨d', hd', rfl⟩ := h v hv
        rw [hd] at hd'
        obtain rfl := Option.some.inj hd'
        rfl

end

end Table

namespace Repository

def datesFrom (r : Repository α) : List (Step α) → Memory → (Id → Option Dates) → Id → Option Dates
  | [], _, dates => dates
  | s :: steps, m, dates => r.datesFrom steps (r.perform s m).2
    (Dates.record r.entity s.moment.wall dates s.operation (r.perform s m).1)

def datesAfter (r : Repository α) (start : Moment) (steps : List (Step α)) : Id → Option Dates :=
  r.datesFrom steps (.fresh start) fun _ => none

section

variable {r : Repository α} {m₀ m : Memory} {now : Moment}

theorem ends_update (x : α) (id : Id) :
    Action.Ends (Memory.faulty r.entity []) (· = m₀) (r.update x id)
      (fun y m => (∃ data row, r.entity.encode x = some (.obj data) ∧
        m₀.table.live? id = some row ∧
        m.table = m₀.table.put id { row with data := Table.overwritten m₀.now.wall row data }) ∧
        m.table.find r.entity id .active = .ok (some y))
      fun _ => True := by
  unfold update
  let P (t : Table) : Prop := ∃ data row, r.entity.encode x = some (.obj data) ∧
    m₀.table.live? id = some row ∧
    t = m₀.table.put id { row with data := Table.overwritten m₀.now.wall row data }
  have hsave : Action.Ends (Memory.faulty r.entity [])
      (fun m => m = m₀ ∧ r.checkUpdate x id = .ok ()) (ask (.save x))
      (fun (n : UInt64) m => n ≠ 0 → P m.table) fun _ => True := by
    refine Memory.ends_call (fun _ _ _ _ => trivial) ?_
    rintro m n t ⟨rfl, hcheck⟩ hout hn
    obtain rfl := identity_of_checkUpdate hcheck
    cases hout with
    | read h => cases h
    | saveMissed => exact absurd rfl hn
    | saved hdata hlive => exact ⟨_, _, Table.dataOf_ok hdata, hlive, rfl⟩
  have hcheck : Action.Ends (Memory.faulty r.entity []) (· = m₀)
      (liftExcept (r.checkUpdate x id)) (fun _ m => m = m₀ ∧ r.checkUpdate x id = .ok ())
      fun _ => True :=
    ends_check trivial
  exact hcheck.bind fun _ => hsave.bind fun (n : UInt64) =>
    ends_settle_reached.mono (fun _ h => h) (fun _ _ h => h) fun _ _ => trivial

end

end Repository

theorem Row.Change.data {r : Repository α} {op : Operation α} {now : Timestamp} {id : Id}
    {o : Option Row} {row : Row} (h : Row.Change r op now id o (some row))
    (hop : op.stores = false) : ∃ old, o = some old ∧ row.data = old.data := by
  cases h with
  | kept => exact ⟨row, rfl, rfl⟩
  | created h | saved h | fieldsSet h =>
    subst h
    cases hop
  | tombstoned | restored => exact ⟨_, rfl, rfl⟩

namespace Repository

variable {r : Repository α} {m : Memory} {now : Moment}

theorem perform_effect (K : r.entity.Keepable) (hm : r.Sound m) (hkeyed : Table.Keyed m.table.rows)
    (hread : m.table.All (Table.Readable r.entity)) (op : Operation α) (hop : op.Reads r.entity)
    (now : Moment) :
    Table.Effect r.entity now.wall m.table (r.perform ⟨op, now, []⟩ m).2.table op
      (r.perform ⟨op, now, []⟩ m).1 := by
  cases hanswer : (r.perform ⟨op, now, []⟩ m).1 with
  | error e => exact .failed (unchanged_of_reads K hm hkeyed hread hop hanswer).rows
  | ok y =>
    cases hstores : op.stores with
    | false =>
      refine .aside hstores fun i row hi => ?_
      have hchange := r.perform_change ⟨op, now, []⟩ m i
      rw [hi] at hchange
      exact hchange.data hstores
    | true =>
      cases op with
      | create x =>
        obtain ⟨data, hx, -, hrows, -⟩ := (ends_create K x { m with now := now } rfl).of_ok hanswer
        exact .created hx fun i => (congrArg (List.lookup i) hrows).trans (Table.lookup_putRow ..)
      | update x id =>
        obtain ⟨⟨data, row, hx, hlive, htable⟩, -⟩ :=
          (ends_update x id { m with now := now } rfl).of_ok hanswer
        exact .saved hx (Table.get?_of_live? hlive) fun i =>
          (congrArg (·.get? i) htable).trans (Table.get?_put ..)
      | updateFields x fields =>
        obtain ⟨row, data, hset, -⟩ := perform_updateFields_ok hanswer
        exact .fieldsSet (Table.get?_of_live? hset.live) hset.set fun i =>
          (congrArg (·.get? i) hset.table).trans (Table.get?_put ..)
      | _ => cases hstores

section

variable {start : Moment} {steps : List (Step α)}

theorem datesFrom_concat (steps : List (Step α)) (s : Step α) (m : Memory)
    (dates : Id → Option Dates) :
    r.datesFrom (steps ++ [s]) m dates =
      Dates.record r.entity s.moment.wall (r.datesFrom steps m dates) s.operation
        (r.perform s (r.after steps m)).1 := by
  induction steps generalizing m dates with
  | nil => rfl
  | cons s' steps ih => exact ih _ _

structure Calm (E : EntityType α) (s : Step α) : Prop where
  faultless : s.faults = []
  reads : s.operation.Reads E

theorem effect_concat (K : r.entity.Keepable) (start : Moment) {s : Step α}
    (hcalm : ∀ s' ∈ steps ++ [s], Calm r.entity s') :
    Table.Effect r.entity s.moment.wall (r.tableAfter start steps)
      (r.tableAfter start (steps ++ [s])) s.operation
      (r.perform s (r.after steps (.fresh start))).1 := by
  have hbefore : ∀ s' ∈ steps, Calm r.entity s' := fun s' hs' =>
    hcalm s' (List.mem_append_left _ hs')
  have hsound : r.Sound (r.after steps (.fresh start)) :=
    after_sound (fun s' hs' => by
      rw [(hbefore s' hs').faultless]
      exact FaultScript.sparesPurge_nil) start
  have ht : Table.Reachable r.entity (r.after steps (.fresh start)).table :=
    .after steps (m := .fresh start) .empty
  obtain ⟨hfaultless, hreads⟩ := hcalm s (List.mem_append_right _ List.mem_cons_self)
  obtain ⟨op, now, script⟩ := s
  obtain rfl : script = [] := hfaultless
  rw [tableAfter_concat]
  exact perform_effect K hsound ht.keyed
    (after_readable K (fun s' hs' => (hbefore s' hs').reads) start) op hreads now

theorem dated_updated_tableAfter (K : r.entity.Keepable) (hE : r.entity.HasStandard)
    (hcalm : ∀ s ∈ steps, Calm r.entity s) :
    (r.tableAfter start steps).Dated Column.updatedAt Dates.updated (r.datesAfter start steps) := by
  induction steps using List.reverseRecOn with
  | nil => exact Table.all_empty
  | append_singleton steps s ih =>
    rw [datesAfter, datesFrom_concat]
    exact (effect_concat K start hcalm).dated_updated hE
      (ih fun s' hs' => hcalm s' (List.mem_append_left _ hs'))

theorem dated_created_iff (K : r.entity.Keepable) (hE : r.entity.HasStandard)
    (hcalm : ∀ s ∈ steps, Calm r.entity s) (start : Moment) :
    (∀ p, p <+: steps → (r.tableAfter start p).Dated Column.createdAt Dates.created
        (r.datesAfter start p)) ↔
      ∀ p s, p ++ [s] <+: steps → Table.GivesCreation r.entity (r.datesAfter start p) s.operation
        (r.perform s (r.after p (.fresh start))).1 := by
  have hstep {p : List (Step α)} {s : Step α} (hp : p ++ [s] <+: steps) :=
    effect_concat K start fun s' hs' => hcalm s' (hp.subset hs')
  constructor
  · intro h p s hp
    have hafter := h _ hp
    rw [datesAfter, datesFrom_concat] at hafter
    exact ((hstep hp).dated_created hE (h p (List.IsPrefix.trans (List.prefix_append _ _) hp))).1 hafter
  · intro h p hp
    -- a step keeps the times only if they were kept up to it, so each beginning of the run is taken
    induction p using List.reverseRecOn with
    | nil => exact Table.all_empty
    | append_singleton p s ih =>
      rw [datesAfter, datesFrom_concat]
      exact ((hstep hp).dated_created hE
        (ih (List.IsPrefix.trans (List.prefix_append _ _) hp))).2 (h p s hp)

end

end Repository

structure Row.Kept (E : EntityType α) (id : Id) (row : Row) (d : Dates) : Prop where
  identity : row.Holds E id Column.id (.ofId id)
  updated : row.Holds E id Column.updatedAt (.str d.updated.text)
  deleted : row.Holds E id Column.deletedAt .null ↔ row.isDeleted = false

namespace Row

variable {E : EntityType α} {C : E.Columnar} {id : Id} {row : Row} {c : String} {v : Json}

theorem holds_stamp (hread : Table.Readable E id row) (hs : C.Shaped row.data)
    (hc : row.data.has c) (hv : Stamp c v) (hdocument : (row.document id).get? c = some v)
    (hcolumn : row.column id c = v) : row.Holds E id c v := by
  obtain ⟨x, hx⟩ := hread
  obtain ⟨e, he, hrewrite⟩ := C.rewrite_document hx
  have hwritten := hrewrite c
  rw [hdocument, hs.rewrite_stamp hc hv] at hwritten
  exact ⟨hcolumn, x, e, hx, he, (Option.some.inj hwritten).symm⟩

theorem holds_id (hread : Table.Readable E id row) (hs : C.Shaped row.data)
    (hc : row.data.has Column.id) : row.Holds E id Column.id (.ofId id) := by
  have hname : Identifier.unqualified Column.id = Column.id := by decide
  exact holds_stamp hread hs hc (.identity id) (row.get?_document_id id) (by simp [column, hname])

theorem holds_deletedAt (hread : Table.Readable E id row) (hs : C.Shaped row.data)
    (hc : row.data.has Column.deletedAt) : row.Holds E id Column.deletedAt row.tombstone := by
  have hname : Identifier.unqualified Column.deletedAt = Column.deletedAt := by decide
  have hne : Column.deletedAt ≠ Column.id := by decide
  refine holds_stamp hread hs hc row.stamp_tombstone ?_ (by simp [column, hname, hne])
  obtain ⟨w, hw⟩ := Option.isSome_iff_exists.1 hc
  rw [get?_document_deletedAt, hw]
  rfl

theorem holds_time (hread : Table.Readable E id row) (hs : C.Shaped row.data) {t : Timestamp}
    (hc : c = Column.createdAt ∨ c = Column.updatedAt)
    (h : row.data.get? c = some (.str t.text)) : row.Holds E id c (.str t.text) := by
  have hname : Identifier.unqualified c = c ∧ c ≠ Column.id ∧ c ≠ Column.deletedAt ∧
      c ∈ Column.times := by
    rcases hc with rfl | rfl <;> decide
  obtain ⟨hname, hid, hdel, htime⟩ := hname
  refine holds_stamp hread hs (by simp [Object.has, h]) (.time t htime) ?_ ?_
  · rw [get?_document hid hdel, h]
  · rw [column_of_ne (hname.symm ▸ hid) (hname.symm ▸ hdel), hname, h]
    rfl

theorem holds_createdAt_iff (hread : Table.Readable E id row) (hs : C.Shaped row.data)
    (hc : row.data.has Column.createdAt) {t : Timestamp} :
    row.Holds E id Column.createdAt (.str t.text) ↔
      row.data.get? Column.createdAt = some (.str t.text) := by
  refine ⟨fun h => ?_, holds_time hread hs (.inl rfl)⟩
  obtain ⟨v, hv⟩ := Option.isSome_iff_exists.1 hc
  have hname : Identifier.unqualified Column.createdAt = Column.createdAt := by decide
  have hcolumn := h.1
  rw [column_of_ne (by decide) (by decide), hname, hv] at hcolumn
  rw [hv]
  exact congrArg some hcolumn

theorem Holds.unique {w : Json} (h : row.Holds E id c v) (h' : row.Holds E id c w) : v = w :=
  h.1.symm.trans h'.1

theorem tombstone_eq_null (row : Row) : row.tombstone = .null ↔ row.isDeleted = false := by
  unfold tombstone isDeleted
  cases row.deletedAt <;> simp [Json.ofOption]

theorem Kept.of_updated {d : Dates} (hread : Table.Readable E id row) (hs : C.Shaped row.data)
    (hhas : ∀ c ∈ Column.standard, row.data.has c)
    (h : row.data.get? Column.updatedAt = some (.str d.updated.text)) : row.Kept E id d where
  identity := holds_id hread hs (hhas _ (by decide))
  updated := holds_time hread hs (.inr rfl) h
  deleted := by
    have hshown := holds_deletedAt hread hs (hhas _ (by decide))
    rw [← row.tombstone_eq_null]
    exact ⟨fun hnull => hshown.unique hnull, fun hnull => hnull ▸ hshown⟩

end Row

theorem Schema.hasStandard (S : Schema) : S.entity.HasStandard := by
  intro x d hx c hc
  have hd : Object.ofMembers (Record.members x) = d := Json.obj.inj (Option.some.inj hx)
  rw [← hd, Object.has, S.ruled.get?_members]
  simp only [Column.standard, List.mem_cons, List.not_mem_nil, or_false] at hc
  rcases hc with rfl | rfl | rfl | rfl <;> rfl

theorem Table.Reachable.has_eq {E : EntityType α} {t : Table} (ht : Table.Reachable E t)
    {c : String} {b : Bool} (hE : ∀ x d, E.encode x = some (.obj d) → Object.has c d = b) :
    t.All fun _ row => row.data.has c = b := by
  refine ht.induct (P := fun t => t.All fun _ row => row.data.has c = b) Table.all_empty
    fun now t call h => (Table.answer_outcome E now t call).all h ?_ ?_ ?_ ?_
  · intro _ x _ data hx _
    simpa [Table.stampNew] using hE x data hx
  · intro _ x data row _ hx _
    simpa [Table.overwritten] using hE x data hx
  · intro _ fields data row _ _ _ hrow hset _
    rw [Object.has_replace, (Table.setColumns_ok hset c).2.1, hrow]
  · exact fun _ _ _ hrow => hrow

theorem Table.Reachable.allHave {E : EntityType α} {t : Table} (ht : Table.Reachable E t)
    (hE : E.HasStandard) : t.All fun _ row => ∀ c ∈ Column.standard, row.data.has c :=
  fun id row hrow c hc => ht.has_eq (fun x d hx => hE x d hx c hc) id row hrow

namespace Repository

variable {r : Repository α}

/-- Along a run without failing calls every row keeps its identity, the time of its last write and
its tombstone as the store gave them. It keeps the time of its creation, too, if and only if each
update of columns that succeeds leaves that time out or gives it again. Records that are written
whole are taken to be such as can be read back. -/
theorem kept_iff_givesCreation (C : r.entity.Columnar) (hE : r.entity.HasStandard)
    (steps : List (Step α)) (hcalm : ∀ s ∈ steps, s.faults = [])
    (hreads : ∀ s ∈ steps, s.operation.Reads r.entity) (start : Moment) :
    (∀ p, p <+: steps → (r.tableAfter start p).All fun id row =>
        ∃ d, r.datesAfter start p id = some d ∧ row.Kept r.entity id d) ∧
      ((∀ p, p <+: steps → (r.tableAfter start p).All fun id row =>
          ∃ d, r.datesAfter start p id = some d ∧
            row.Holds r.entity id Column.createdAt (.str d.created.text)) ↔
        ∀ p x fields now y v, p ++ [⟨.updateFields x fields, now, []⟩] <+: steps →
          r.answerAfter start p (.updateFields x fields) now = .ok y →
          (Object.ofMembers fields).get? Column.createdAt = some v →
          ∃ d, r.datesAfter start p (r.entity.identity x) = some d ∧ v = .str d.created.text) := by
  have hreach (p : List (Step α)) : Table.Reachable r.entity (r.tableAfter start p) :=
    .after p (m := .fresh start) .empty
  have hcalm : ∀ s ∈ steps, Calm r.entity s := fun s hs => ⟨hcalm s hs, hreads s hs⟩
  have hread {p : List (Step α)} (hp : p <+: steps) :
      (r.tableAfter start p).All (Table.Readable r.entity) :=
    after_readable C.keepable (fun s hs => hreads s (hp.subset hs)) start
  have hshaped (p : List (Step α)) := (hreach p).allShaped (C := C)
  refine ⟨fun p hp id row hrow => ?_, ?_⟩
  · obtain ⟨d, hd, hcolumn⟩ := dated_updated_tableAfter C.keepable hE
      (fun s hs => hcalm s (hp.subset hs)) id row hrow
    exact ⟨d, hd, .of_updated (hread hp id row hrow) (hshaped p id row hrow)
      ((hreach p).allHave hE id row hrow) hcolumn⟩
  · have hholds (p : List (Step α)) (hp : p <+: steps) :
        ((r.tableAfter start p).All fun id row => ∃ d, r.datesAfter start p id = some d ∧
          row.Holds r.entity id Column.createdAt (.str d.created.text)) ↔
        (r.tableAfter start p).Dated Column.createdAt Dates.created (r.datesAfter start p) := by
      refine forall₃_congr fun id row hrow => exists_congr fun d => and_congr_right fun _ => ?_
      have hhas := (hreach p).allHave hE id row hrow Column.createdAt (by decide)
      exact Row.holds_createdAt_iff (hread hp id row hrow) (hshaped p id row hrow) hhas
    rw [forall₂_congr hholds, dated_created_iff C.keepable hE hcalm start]
    constructor
    · intro h p x fields now y v hp hanswer hv
      have hgive := h p ⟨.updateFields x fields, now, []⟩ hp
      rw [show (r.perform ⟨.updateFields x fields, now, []⟩ (r.after p (.fresh start))).1 = .ok y from
        hanswer] at hgive
      exact hgive v hv
    · intro h p s hp
      obtain ⟨op, now, script⟩ := s
      obtain rfl : script = [] := (hcalm ⟨op, now, script⟩ (hp.subset (by simp))).faultless
      cases hanswer : (r.perform ⟨op, now, []⟩ (r.after p (.fresh start))).1 with
      | error e => cases op <;> trivial
      | ok y =>
        cases op with
        | updateFields x fields => exact fun v hv => h p x fields now y v hp hanswer hv
        | _ => trivial

def annRedated : List (Step (Record Catalog.user.fields)) :=
  [⟨.create ann, .epoch, []⟩,
    ⟨.updateFields { ann with id := 1 } [("age", .num (.int 31))], .epoch, []⟩,
    ⟨.updateFields { ann with id := 1 } [(Column.createdAt, .str "2000-01-01T00:00:00Z")], .epoch, []⟩]

theorem kept_annRedated :
    (∀ s ∈ annRedated, s.faults = []) ∧ (∀ s ∈ annRedated, s.operation.Reads users.entity) ∧
      users.entity.HasStandard ∧
      ∃ row d, (users.tableAfter .epoch annRedated).get? 1 = some row ∧
        users.datesAfter .epoch annRedated 1 = some d ∧ row.Kept users.entity 1 d := by
  have hcalm : ∀ s ∈ annRedated, s.faults = [] := by simp [annRedated]
  have hreads : ∀ s ∈ annRedated, s.operation.Reads users.entity := by
    simp [annRedated, Operation.Reads]
  have hrow : ((users.tableAfter .epoch annRedated).get? 1).isSome := by decide +kernel
  obtain ⟨row, hrow⟩ := Option.isSome_iff_exists.1 hrow
  obtain ⟨hkept, -⟩ := kept_iff_givesCreation (r := users) Catalog.user.ruled.columnar
    Catalog.user.hasStandard annRedated hcalm hreads .epoch
  obtain ⟨d, hd, hrow'⟩ := hkept annRedated List.prefix_rfl 1 row hrow
  exact ⟨hcalm, hreads, Catalog.user.hasStandard, row, d, hrow, hd, hrow'⟩

/-- The time of a creation can be set like any other column. -/
theorem not_kept_annRedated :
    ¬∀ id row, (users.tableAfter .epoch annRedated).get? id = some row →
      ∃ d, users.datesAfter .epoch annRedated id = some d ∧
        row.Holds users.entity id Column.createdAt (.str d.created.text) := by
  intro h
  have hcolumn : ((users.tableAfter .epoch annRedated).get? 1).map
      (fun row => row.column 1 Column.createdAt) = some (.str "2000-01-01T00:00:00Z") := by
    decide +kernel
  have hcreated : (users.datesAfter .epoch annRedated 1).map (·.created.text) =
      some "1970-01-01T00:00:00Z" := by decide +kernel
  obtain ⟨row, hrow, hvalue⟩ := Option.map_eq_some_iff.1 hcolumn
  obtain ⟨d, hd, hholds⟩ := h 1 row hrow
  have htext := hvalue.symm.trans hholds.1
  rw [hd, Option.map_some] at hcreated
  rw [Option.some.inj hcreated] at htext
  exact absurd (Json.str.inj htext) (by decide)

end Repository

end Recordkeeper
