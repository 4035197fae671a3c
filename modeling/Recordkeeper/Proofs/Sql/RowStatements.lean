import Recordkeeper.Proofs.Sql.InsertList
import Recordkeeper.Proofs.Sql.Places

set_option autoImplicit false

namespace Recordkeeper.Sql

section

variable (table : String)

theorem readable_predicate (p : Predicate) : Readable (p.tokens .postgres) :=
  (p.legible (N := fun _ => True) .postgres fun _ _ _ _ => trivial).readable

theorem readable_identityIs (n : Nat) : Readable (identityIs n) :=
  readable_equalsParam (readable_identifier Column.id) n

theorem readable_findTokens (v : Visibility) : Readable (findTokens table v) := by
  have hfind {ts : List Token} (h : Readable ts) : Readable (.word "SELECT" :: blank ::
      (rowTokens table ++ blank :: .word "FROM" :: blank :: (identifier table ++
        blank :: .word "WHERE" :: blank :: ts))) := by
    have hfrom := (readable_identifier table).append h.afterWhere (.inr (markFirst_mark _ _))
    have hrow := (readable_rowTokens table).append
      (hfrom.blank.word (w := "FROM") (by decide) (markFirst_mark _ _)).blank
      (.inr (markFirst_mark _ _))
    exact hrow.blank.word (by decide) (markFirst_mark _ _)
  unfold findTokens
  cases visibilityPredicate v with
  | none => exact hfind (by simpa using readable_identityIs 1)
  | some p => exact hfind (by simpa using (readable_identityIs 1).and (readable_predicate p))

theorem readable_tombstoneTokens (source : Source) (before : Predicate) :
    Readable (tombstoneTokens table source before) :=
  (readable_setTokens table _).append
    ((readable_identityIs 1).and (readable_predicate before)).afterWhere (.inr (markFirst_mark _ _))

theorem readable_deleteTokens : Readable (deleteTokens table) := by
  have htable := (readable_identifier table).append (readable_identityIs 1).afterWhere
    (.inr (markFirst_mark _ _))
  exact (readable_phrase (by decide)).append htable.blank (.inr (markFirst_mark _ _))

@[simp] theorem places_sourceTokens (column : String) (source : Source) :
    places (sourceTokens column source) = [] := by
  cases source <;> simp [sourceTokens, nowTokens]

@[simp] theorem places_assignmentTokens (a : Assignment) : places (assignmentTokens a) = [] := by
  simp [assignmentTokens]

@[simp] theorem places_rowTokens : places (rowTokens table) = [] := by simp [rowTokens]

@[simp] theorem places_recordTokens : places (recordTokens table) = [1] := by simp [recordTokens]

theorem places_commaSeparated {β : Type} {run : β → List Token} (h : ∀ b, places (run b) = [])
    (xs : List β) : places (commaSeparated (xs.map run)) = [] := by
  rw [commaSeparated, places_comma, List.flatMap_map, List.flatMap_eq_nil_iff]
  exact fun b _ => h b

@[simp] theorem places_setTokens (assignments : List Assignment) :
    places (setTokens table assignments) = [] := by
  simp [setTokens, places_commaSeparated]

@[simp] theorem places_equalsParam (column : List Token) (n : Nat) :
    places (equalsParam column n) = places column ++ [n] := by simp [equalsParam]

@[simp] theorem places_andTokens : places andTokens = [] := rfl

theorem places_findTokens (v : Visibility) : places (findTokens table v) = [1] := by
  cases v <;> simp [findTokens, visibilityPredicate, identityIs, places_predicate, Predicate.places]

theorem places_tombstoneTokens (source : Source) {before : Predicate} (h : before.places = []) :
    places (tombstoneTokens table source before) = [1] := by
  simp [tombstoneTokens, identityIs, places_predicate, h]

theorem places_deleteTokens : places (deleteTokens table) = [1] := by
  simp [deleteTokens, identityIs]

theorem places_updateTokens (assignments : List Assignment) :
    places (updateTokens table assignments) = [1, 2] := by
  simp [updateTokens]

theorem places_insertTokens (columns : List Assignment) :
    places (insertTokens table columns) = if columns = [] then [] else [1] := by
  by_cases h : columns = [] <;> simp [insertTokens, returningTokens, places_commaSeparated, h]

theorem places_orderTokens (o : Option Order) : places (orderTokens o) = [] := by
  cases o with
  | none => rfl
  | some o =>
    cases o with
    | raw clause => rfl
    | keys ks =>
      cases ks with
      | nil => rfl
      | cons k ks =>
        have hkeys : places (commaSeparated ((k :: ks).map keyTokens)) = [] :=
          places_commaSeparated (fun k => by simp [keyTokens]) _
        simpa [orderTokens] using hkeys

theorem places_windowTokens (w : Option Window) : places (windowTokens w) = [] := by
  cases w <;> rfl

end

section

variable {table : String} {q : Query}

theorem readable_select (h : ∀ o, q.order = some o → o.isRead = true) (w : Option Window) :
    Readable (select .postgres table q w).tokens := by
  have hq : Admissible (fun _ => True) q :=
    ⟨fun _ _ _ _ _ _ => trivial, fun o ho => ⟨h o ho, fun _ _ _ _ => trivial⟩⟩
  exact (legible_select (fun _ _ => trivial) (fun _ _ => trivial) hq .postgres w).readable

theorem readable_count : Readable (count .postgres table q).tokens := by
  have hq : Admissible (fun _ => True) { q with order := none } :=
    ⟨fun _ _ _ _ _ _ => trivial, by simp⟩
  exact (legible_count (fun _ _ => trivial) (fun _ _ => trivial) hq .postgres).readable

theorem places_select (w : Option Window) : places (select .postgres table q w).tokens =
    List.range' 1 (select .postgres table q w).binds.length := by
  have htokens : (select .postgres table q w).tokens =
      .word "SELECT" :: blank :: (rowTokens table ++ blank :: .word "FROM" :: blank ::
        (identifier table ++ (renderWhere .postgres table q []).1 ++ orderTokens q.order ++
          windowTokens w)) := rfl
  have hbinds : (select .postgres table q w).binds.length = (queryArguments q).length :=
    (congrArg List.length (queryBinds_eq .postgres table q)).trans (List.length_map _)
  simp [htokens, hbinds, places_renderWhere, places_orderTokens, places_windowTokens]

theorem places_count : places (count .postgres table q).tokens =
    List.range' 1 (count .postgres table q).binds.length := by
  have htokens : (count .postgres table q).tokens =
      .word "SELECT" :: blank :: .word "COUNT" :: (parenthesized [.mark '*'] ++ blank ::
        .word "FROM" :: blank :: (identifier table ++ (renderWhere .postgres table q []).1)) := rfl
  have hbinds : (count .postgres table q).binds.length = (queryArguments q).length :=
    (congrArg List.length (queryBinds_eq .postgres table q)).trans (List.length_map _)
  simp [htokens, hbinds, places_renderWhere]

end

end Recordkeeper.Sql
