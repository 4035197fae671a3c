import Recordkeeper.Proofs.Calendar.Order
import Recordkeeper.Proofs.Dates
import Recordkeeper.Proofs.Table.Sorting

/-!
Columns of times against the instants that they name. Queries compare the texts of a column, and so
filters and sorts see instants exactly where texts compare as the instants do. Among the times that
a store writes itself, texts and instants differ where one time is another with digits of its
fraction cut off.
-/

set_option autoImplicit false

namespace Recordkeeper

variable {α : Type}

def EntityType.HasTimes (E : EntityType α) : Prop :=
  ∀ d : Object, (E.decode (.obj d)).isSome → ∀ c ∈ Column.times, ∀ v, d.get? c = some v →
    v = .null ∨ ∃ text t, v = .str text ∧ Timestamp.read? text.toList = some t

theorem Timestamp.of_rewrite {v : Json} (h : (rewrite (some v)).isSome) :
    v = .null ∨ ∃ text t, v = .str text ∧ read? text.toList = some t := by
  rw [rewrite, Option.isSome_map, Json.orDefault_some] at h
  by_cases hnull : v = .null
  · exact .inl hnull
  · rw [Json.option?_of_ne_null hnull, Option.isSome_map] at h
    obtain ⟨t, ht⟩ := Option.isSome_iff_exists.1 h
    cases v with
    | str text => exact .inr ⟨text, t, rfl, ht⟩
    | null | bool | num | arr | obj => cases ht

theorem Schema.hasTimes (S : Schema) : S.entity.HasTimes := by
  intro d hd c hc v hv
  have hrule : (c, Timestamp.rewrite) ∈ S.rules := by
    simp only [Column.times, List.mem_cons, List.not_mem_nil, or_false] at hc
    rcases hc with rfl | rfl | rfl <;> simp [rules]
  have hwritten := (S.decode_isSome_iff d).1 hd _ hrule
  rw [hv] at hwritten
  exact Timestamp.of_rewrite hwritten

structure Row.Tells (id : Id) (row : Row) (field text : String) (t : Timestamp) : Prop where
  column : row.column id field = .str text
  reads : Timestamp.read? text.toList = some t

namespace Matching

def text? : Json → Option String
  | .str s => some s
  | _ => none

theorem sortOrder_texts {a b : Json} (ha : a = .null ∨ ∃ s, a = .str s)
    (hb : b = .null ∨ ∃ s, b = .str s) : sortOrder a b = compare (text? a) (text? b) := by
  rcases ha with rfl | ⟨s, rfl⟩ <;> rcases hb with rfl | ⟨s', rfl⟩ <;> rfl

theorem satisfies_compare_text {columns : Columns} {field text : String}
    (h : columns field = .str text) (op : Comparison) (value : String) :
    satisfies columns (.compare field op (.str value)) = .ok (op.holds (compare text value)) := by
  simp [satisfies, fieldOrder?, h, order?, textFor, scalarText?, bind, Except.bind, pure,
    Except.pure, Except.mapError]

end Matching

theorem Comparison.holds_injective {o o' : Ordering}
    (h : ∀ op : Comparison, op.holds o = op.holds o') : o = o' := by
  have hless := h .less
  have hequal := h .equal
  revert hless hequal
  cases o <;> cases o' <;> decide

theorem Column.ne_id_of_mem_times {c : String} (h : c ∈ Column.times) : c ≠ Column.id := by
  rintro rfl
  exact absurd h (by decide)

namespace Row

variable {id : Id} {row : Row} {field text : String} {t u : Timestamp}

/-- All comparisons with a time hold as between the instants if and only if the texts compare as the
instants do. -/
theorem Tells.satisfies_iff (h : row.Tells id field text t) (value : String) :
    (∀ op : Comparison, Matching.satisfies (row.column id) (.compare field op (.str value)) =
      .ok (op.holds (t.order u))) ↔ compare text value = t.order u := by
  simp only [Matching.satisfies_compare_text h.column, Except.ok.injEq]
  exact ⟨Comparison.holds_injective, fun hsame _ => by rw [hsame]⟩

theorem tombstone_text (row : Row) :
    row.tombstone = .null ∨ ∃ deleted : Timestamp, row.tombstone = .str deleted.text := by
  unfold tombstone
  cases row.deletedAt with
  | none => exact .inl rfl
  | some deleted => exact .inr ⟨deleted, rfl⟩

theorem column_cases (id : Id) (row : Row)
    (hfield : Identifier.unqualified field ∈ Column.times) :
    row.column id field = .null ∨
      (∃ deleted : Timestamp, row.column id field = .str deleted.text) ∨
      (Identifier.unqualified field = Column.createdAt ∨
        Identifier.unqualified field = Column.updatedAt) ∧
      row.data.get? (Identifier.unqualified field) = some (row.column id field) := by
  have hid := Column.ne_id_of_mem_times hfield
  by_cases hdel : Identifier.unqualified field = Column.deletedAt
  · have hcolumn : row.column id field = row.tombstone := by rw [column, if_neg hid, if_pos hdel]
    rw [hcolumn]
    exact row.tombstone_text.imp_right .inl
  · rw [column_of_ne hid hdel]
    cases row.data.get? (Identifier.unqualified field) with
    | none => exact .inl rfl
    | some v => exact .inr (.inr ⟨by simpa [Column.times, hdel] using hfield, rfl⟩)

theorem Tells.source (h : row.Tells id field text t)
    (hfield : Identifier.unqualified field ∈ Column.times) :
    (∃ deleted : Timestamp, text = deleted.text) ∨
      (Identifier.unqualified field = Column.createdAt ∨
        Identifier.unqualified field = Column.updatedAt) ∧
      row.data.get? (Identifier.unqualified field) = some (.str text) := by
  have hcases := column_cases id row hfield
  rw [h.column] at hcases
  rcases hcases with hnull | ⟨deleted, hdeleted⟩ | hdata
  · cases hnull
  · exact .inl ⟨deleted, Json.str.inj hdeleted⟩
  · exact .inr hdata

theorem column_times {E : EntityType α} (hE : E.HasTimes) (hread : Table.Readable E id row)
    (hfield : Identifier.unqualified field ∈ Column.times) :
    row.column id field = .null ∨ ∃ s, row.column id field = .str s := by
  rcases column_cases id row hfield with hnull | ⟨deleted, hdeleted⟩ | ⟨hname, hdata⟩
  · exact .inl hnull
  · exact .inr ⟨deleted.text, hdeleted⟩
  · have hdel : Identifier.unqualified field ≠ Column.deletedAt := by
      rcases hname with h | h <;> rw [h] <;> decide
    rw [← get?_document (Column.ne_id_of_mem_times hfield) hdel id] at hdata
    exact (hE _ (Table.exists_recordOf_iff.1 hread) _ hfield _ hdata).imp_right
      fun ⟨s, _, hs, _⟩ => ⟨s, hs⟩

end Row

theorem Timestamp.order_self (t : Timestamp) : t.order t = .eq := by
  simp [order]

namespace Table

variable {E : EntityType α} {t : Table} {field : String}

def textOf (t : Table) (field : String) (id : Id) : Option String :=
  (t.get? id).bind fun row => Matching.text? (row.column id field)

theorem textOf_eq {id : Id} {row : Row} {text : String} {time : Timestamp}
    (h : row.Tells id field text time) (hrow : t.get? id = some row) :
    t.textOf field id = some text := by
  rw [textOf, hrow, Option.bind_some, h.column]
  rfl

theorem identities_of_records (K : E.Keepable) {rows : List (Id × Row)} {records : List α}
    (h : List.Forall₂ (fun e x => recordOf E e.1 e.2 = .ok x) rows records) :
    records.map E.identity = rows.map (·.1) := by
  induction h with
  | nil => rfl
  | cons hrec _ ih => rw [List.map_cons, List.map_cons, K.identity_recordOf hrec, ih]

theorem cut_sublist {β : Type} (w : Option Window) (xs : List β) :
    (Window.cut w xs).Sublist xs := by
  cases w with
  | none => exact .refl xs
  | some w => exact (List.take_sublist _ _).trans (List.drop_sublist _ _)

/-- A query that is sorted by a column of times has its records in the order of the texts. -/
theorem Reachable.query_sorted (K : E.Keepable) (hE : E.HasTimes) (ht : Reachable E t)
    (hread : t.All (Readable E)) (hfield : Identifier.unqualified field ∈ Column.times) {q : Query}
    {w : Option Window} {records : List α} (hq : sortKeys q.order = .ok [⟨field, .ascending⟩])
    (h : t.query E q w = .ok records) :
    records.Pairwise fun x y =>
      (compare (t.textOf field (E.identity x)) (t.textOf field (E.identity y))).isLE := by
  obtain ⟨found, keys, hfound, hkeys, hrecords⟩ := query_eq_ok.1 h
  obtain rfl : [⟨field, .ascending⟩] = keys := Except.ok.inj (hq.symm.trans hkeys)
  have hget {e : Id × Row} (he : e ∈ found) : t.get? e.1 = some e.2 :=
    ht.keyed.get?_of_mem ((matching_sublist hfound).subset he)
  have hcompared :
      ComparedBy [⟨field, .ascending⟩] (compareOn fun e => t.textOf field e.1) found := by
    intro a ha b hb
    have htexts {e : Id × Row} (he : e ∈ found) :
        e.2.column e.1 field = .null ∨ ∃ s, e.2.column e.1 field = .str s :=
      Row.column_times hE (hread e.1 e.2 (hget he)) hfield
    have htext {e : Id × Row} (he : e ∈ found) :
        t.textOf field e.1 = Matching.text? (e.2.column e.1 field) := by rw [textOf, hget he]; rfl
    show (Matching.sortOrder _ _).then .eq = compare _ _
    rw [Ordering.then_eq, Matching.sortOrder_texts (htexts ha) (htexts hb), ← htext ha, ← htext hb]
  have hsorted := pairwise_sort hcompared (List.pairwise_of_forall fun _ _ => trivial)
  have hrows : ((Window.cut w (sort [⟨field, .ascending⟩] found)).map (·.1)).Pairwise fun i j =>
      (compare (t.textOf field i) (t.textOf field j)).isLE := by
    refine List.pairwise_map.2 ((hsorted.sublist (cut_sublist w _)).imp fun hab => ?_)
    exact Ordering.isLE_iff_eq_lt_or_eq_eq.2 (hab.imp_right And.left)
  rw [← identities_of_records K hrecords] at hrows
  exact List.pairwise_map.1 hrows

theorem pair_sublist {β : Type} {xs : List β} {x y : β} (hx : x ∈ xs) (hy : y ∈ xs) (hne : x ≠ y) :
    [x, y].Sublist xs ∨ [y, x].Sublist xs := by
  induction xs with
  | nil => cases hx
  | cons z xs ih =>
    rcases List.mem_cons.1 hx with rfl | hx'
    · have hy' := (List.mem_cons.1 hy).resolve_left hne.symm
      exact .inl ((List.singleton_sublist.2 hy').cons_cons x)
    · rcases List.mem_cons.1 hy with rfl | hy'
      · exact .inr ((List.singleton_sublist.2 hx').cons_cons y)
      · exact (ih hx' hy').imp (.cons z) (.cons z)

theorem Reachable.first_iff (K : E.Keepable) (hE : E.HasTimes) (ht : Reachable E t)
    (hread : t.All (Readable E)) (hfield : Identifier.unqualified field ∈ Column.times) {q : Query}
    {w : Option Window} {records : List α} (hq : sortKeys q.order = .ok [⟨field, .ascending⟩])
    (h : t.query E q w = .ok records) {x y : α} (hx : x ∈ records) (hy : y ∈ records)
    {text text' : String} (htext : t.textOf field (E.identity x) = some text)
    (htext' : t.textOf field (E.identity y) = some text') (hne : text ≠ text') :
    [x, y].Sublist records ↔ compare text text' = .lt := by
  have hsorted {a b : α} (hab : [a, b].Sublist records) :
      (compare (t.textOf field (E.identity a)) (t.textOf field (E.identity b))).isLE :=
    List.pairwise_iff_forall_sublist.1 (ht.query_sorted K hE hread hfield hq h) hab
  constructor
  · intro hxy
    have hle := hsorted hxy
    rw [htext, htext'] at hle
    exact (Ordering.isLE_iff_eq_lt_or_eq_eq.1 hle).resolve_right fun heq =>
      hne (Option.some.inj (Std.LawfulEqCmp.compare_eq_iff_eq.1 heq))
  · intro hlt
    have hxy : x ≠ y := by
      rintro rfl
      exact hne (Option.some.inj (htext.symm.trans htext'))
    refine (pair_sublist hx hy hxy).resolve_right fun hyx => ?_
    have hle := hsorted hyx
    rw [htext, htext'] at hle
    exact Std.OrientedCmp.not_isLE_of_lt hlt hle

def Stamped (c : String) (t : Table) : Prop :=
  t.All fun _ row => ∀ text, row.data.get? c = some (.str text) →
    ∃ time : Timestamp, text = time.text

theorem Outcome.stamped {now : Timestamp} {t' : Table} {call : StoreCall α} {a : call.Answer}
    {c : String} (h : Outcome E now t call a t') (hc : c = Column.createdAt ∨ c = Column.updatedAt)
    (hcall : c = Column.createdAt → ∀ id fields, call = .updateFields id fields →
      (Object.ofMembers fields).has c = false)
    (ht : t.Stamped c) : t'.Stamped c := by
  have hnow {d : Object} {text : String}
      (htext : (d.replace c (.str now.text)).get? c = some (.str text)) :
      ∃ time : Timestamp, text = time.text := by
    rw [Object.get?_replace, if_pos rfl] at htext
    obtain ⟨_, -, hv⟩ := Option.map_eq_some_iff.1 htext
    exact ⟨now, (Json.str.inj hv).symm⟩
  refine h.all (P := fun _ row => ∀ text, row.data.get? c = some (.str text) →
    ∃ time : Timestamp, text = time.text) ht ?_ ?_ ?_ fun _ _ _ hrow => hrow
  · intro id x y data hx hrec text htext
    rcases hc with rfl | rfl
    · rw [stampNew, Object.get?_replace_of_ne (by decide), Object.get?_replace_of_ne (by decide)]
        at htext
      exact hnow htext
    · rw [stampNew, Object.get?_replace_of_ne (by decide)] at htext
      exact hnow htext
  · intro id x data row _ hx hrow text htext
    rcases hc with rfl | rfl
    · rw [overwritten, Object.get?_replace_of_ne (by decide), Object.get?_replace, if_pos rfl]
        at htext
      obtain ⟨_, -, hv⟩ := Option.map_eq_some_iff.1 htext
      refine hrow text ?_
      cases hold : row.data.get? Column.createdAt with
      | none =>
        rw [hold] at hv
        cases hv
      | some v =>
        rw [hold] at hv
        exact congrArg some hv
    · exact hnow htext
  · intro id fields data row x heq hlive hrow hset hrec text htext
    rcases hc with rfl | rfl
    · have hnone : (Object.ofMembers fields).get? Column.createdAt = none := by
        simpa [Object.has] using hcall rfl id fields heq
      rw [Object.get?_replace_of_ne (by decide), (setColumns_ok hset _).1, hnone] at htext
      exact hrow text htext
    · exact hnow htext

end Table

namespace Repository

variable {r : Repository α}

/-- Along a run, times of change are the store's own, and so are times of creation unless columns
are set to others. -/
theorem stamped_after {steps : List (Step α)} {c : String}
    (hc : c = Column.createdAt ∨ c = Column.updatedAt)
    (hsteps : c = Column.createdAt → ∀ s ∈ steps, ∀ x fields, s.operation = .updateFields x fields →
      (Object.ofMembers fields).has c = false) (start : Moment) :
    (r.tableAfter start steps).Stamped c := by
  refine after_keeps (P := fun m => m.table.Stamped c) (fun s hs m hm => ?_) Table.all_empty
  refine perform_keeps (P := fun t => t.Stamped c) (fun now t call hmay ht => ?_) hm
  have houtcome := Table.answer_outcome r.entity now t call
  refine houtcome.stamped hc (fun hcreated id fields hcall => ?_) ht
  obtain ⟨x, hx⟩ := mayAsk_updateFields (hcall ▸ hmay)
  exact hsteps hcreated s hs x fields hx

/-- Filters and sorts of a column of times against the instants that its rows hold. Comparisons with
the text of a time hold as between the instants if and only if the texts compare as the instants do,
and an earlier time is sorted to the front if and only if its text is less. Times that no update of
columns gave are as the store writes them; those of years with four digits compare as their texts,
unless one is the other with digits of its fraction cut off. -/
theorem times_compare_iff (K : r.entity.Keepable) (hE : r.entity.HasTimes) (steps : List (Step α))
    (hreads : ∀ s ∈ steps, s.operation.Reads r.entity) (start : Moment) {field : String}
    (hfield : Identifier.unqualified field ∈ Column.times)
    {id : Id} {row : Row} {text : String} {time : Timestamp}
    (hrow : (r.tableAfter start steps).get? id = some row) (htime : row.Tells id field text time) :
    (∀ value other, Timestamp.read? value.toList = some other →
      ((∀ op : Comparison, Matching.satisfies (row.column id) (.compare field op (.str value)) =
        .ok (op.holds (time.order other))) ↔ compare text value = time.order other)) ∧
    (∀ id' row' text' other, (r.tableAfter start steps).get? id' = some row' →
      row'.Tells id' field text' other → time.order other = .lt → ∀ q w records x y,
        Table.sortKeys q.order = .ok [⟨field, .ascending⟩] →
        (r.tableAfter start steps).query r.entity q w = .ok records → x ∈ records → y ∈ records →
        r.entity.identity x = id → r.entity.identity y = id' →
        ([x, y].Sublist records ↔ compare text text' = time.order other)) ∧
    ((Identifier.unqualified field = Column.createdAt → ∀ s ∈ steps, ∀ x fields,
        s.operation = .updateFields x fields →
          (Object.ofMembers fields).has Column.createdAt = false) →
      text = time.text ∧ ∀ other : Timestamp, time.FourDigits → other.FourDigits →
        (compare text other.text = time.order other ↔
          ¬ (time.CutOf other ∨ other.CutOf time))) := by
  have hreach : Table.Reachable r.entity (r.tableAfter start steps) :=
    .after steps (m := .fresh start) .empty
  refine ⟨fun value other _ => htime.satisfies_iff value, ?_, fun hgiven => ?_⟩
  · intro id' row' text' other hrow' hother horder q w records x y hq hquery hx hy hid hid'
    subst hid hid'
    have hne : text ≠ text' := by
      rintro rfl
      obtain rfl : time = other := Option.some.inj (htime.reads.symm.trans hother.reads)
      rw [Timestamp.order_self] at horder
      cases horder
    rw [horder]
    have hreadable := after_readable K hreads start
    exact hreach.first_iff K hE hreadable hfield hq hquery hx hy (Table.textOf_eq htime hrow)
      (Table.textOf_eq hother hrow') hne
  · have hwritten : ∃ written : Timestamp, text = written.text := by
      rcases htime.source hfield with hdeleted | ⟨hname, hdata⟩
      · exact hdeleted
      · refine stamped_after hname (fun hcreated => ?_) start id row hrow text hdata
        exact hcreated ▸ hgiven hcreated
    obtain ⟨written, rfl⟩ := hwritten
    have hread := htime.reads
    rw [Timestamp.text, String.toList_ofList, Timestamp.read_write] at hread
    obtain rfl := Option.some.inj hread
    exact ⟨rfl, fun other htime hother => Timestamp.compare_text_iff htime hother⟩

def annAged : List (Step (Record Catalog.user.fields)) :=
  [⟨.create ann, .epoch, []⟩,
    ⟨.updateFields { ann with id := 1 } [("age", .num (.int 31))], .epoch, []⟩]

theorem epoch_told (field : String) (h : ((users.tableAfter .epoch annAged).get? 1).map
    (fun row => row.column 1 field) = some (.str "1970-01-01T00:00:00Z")) :
    ∃ row, (users.tableAfter .epoch annAged).get? 1 = some row ∧
      row.Tells 1 field "1970-01-01T00:00:00Z" Moment.epoch.wall := by
  obtain ⟨row, hrow, hcolumn⟩ := Option.map_eq_some_iff.1 h
  exact ⟨row, hrow, hcolumn, by decide +kernel⟩

theorem times_compare_annAged :
    Catalog.user.entity.HasTimes ∧ (∀ s ∈ annAged, s.operation.Reads users.entity) ∧ ∃ row,
      (users.tableAfter .epoch annAged).get? 1 = some row ∧
      row.Tells 1 Column.createdAt "1970-01-01T00:00:00Z" Moment.epoch.wall ∧
      ∀ other : Timestamp, other.FourDigits →
        (compare "1970-01-01T00:00:00Z" other.text = Moment.epoch.wall.order other ↔
          ¬ (Moment.epoch.wall.CutOf other ∨ other.CutOf Moment.epoch.wall)) := by
  obtain ⟨row, hrow, htells⟩ := epoch_told Column.createdAt (by decide +kernel)
  have hreads : ∀ s ∈ annAged, s.operation.Reads users.entity := by
    simp [annAged, Operation.Reads]
  obtain ⟨-, -, hwritten⟩ := times_compare_iff (r := users) Catalog.user.ruled.columnar.keepable
    Catalog.user.hasTimes annAged hreads .epoch (by decide) hrow htells
  have hgiven (s : Step (Record Catalog.user.fields)) (hs : s ∈ annAged)
      (x : Record Catalog.user.fields) (fields : Object)
      (hfields : s.operation = .updateFields x fields) :
      (Object.ofMembers fields).has Column.createdAt = false := by
    simp only [annAged, List.mem_cons, List.not_mem_nil, or_false] at hs
    rcases hs with rfl | rfl
    · cases hfields
    · cases hfields
      decide
  have hyear : Moment.epoch.wall.FourDigits := by simp [Timestamp.FourDigits, Moment.epoch]
  exact ⟨Catalog.user.hasTimes, hreads, row, hrow, htells, fun other hother =>
    (hwritten fun _ => hgiven).2 other hyear hother⟩

/-- A filter for times before half past the second does not find what was created at the second. -/
theorem not_times_compare :
    ¬ ∀ row text time, (users.tableAfter .epoch annAged).get? 1 = some row →
      row.Tells 1 Column.createdAt text time → ∀ value other,
        Timestamp.read? value.toList = some other → ∀ op : Comparison,
          Matching.satisfies (row.column 1) (.compare Column.createdAt op (.str value)) =
            .ok (op.holds (time.order other)) := by
  intro h
  obtain ⟨row, hrow, htells⟩ := epoch_told Column.createdAt (by decide +kernel)
  let half : Timestamp :=
    { Moment.epoch.wall with nano := 500000000, inSecond := by decide }
  have hless := h row _ _ hrow htells "1970-01-01T00:00:00.500Z" half (by decide +kernel) .less
  rw [Matching.satisfies_compare_text htells.column, Except.ok.injEq] at hless
  exact absurd hless (by decide +kernel)

end Repository

end Recordkeeper
