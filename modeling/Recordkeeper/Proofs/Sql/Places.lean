import Recordkeeper.Proofs.Identifier
import Recordkeeper.Proofs.Sql.Legible

set_option autoImplicit false

namespace Recordkeeper.Sql

inductive Argument where
  | value (field : String) (v : Json)
  | pattern (p : String)

def arguments : Constraint → List Argument
  | .compare field _ v => [.value field v]
  | .among field values => values.map (.value field)
  | .range field low high => [.value field low, .value field high]
  | .anyLike terms => terms.map fun t => .pattern t.pattern

def queryArguments (q : Query) : List Argument := q.constraints.flatMap arguments

def Token.place? : Token → Option Nat
  | .param n => some n
  | _ => none

def Token.isName : Token → Bool
  | .name _ => true
  | _ => false

def places (ts : List Token) : List Nat := ts.filterMap Token.place?

def outside (d : Dialect) (ts : List Token) : List Char := write d (ts.filter (! ·.isName))

/-- The character that a place begins with. -/
def Dialect.placeholder : Dialect → Char
  | .postgres => '$'
  | .mysql => '?'

def Dialect.numbering (first n : Nat) : Dialect → List Nat
  | .postgres => List.range' first n
  | .mysql => List.replicate n 0

def Argument.bind : Dialect → Argument → Bind
  | .postgres, .value field v => .value (.obj [(Identifier.unqualified field, v)])
  | .mysql, .value _ v => .value v
  | _, .pattern p => .pattern p

/-- What stands around the place of a value: behind it the column that is read from it, or before it
the operator of patterns. -/
def Argument.ReadAt (ts : List Token) (n : Nat) : Argument → Prop
  | .value field _ =>
    [.param n, .mark ')', .mark ')', .mark '.', .name (Identifier.unqualified field).toList] <:+: ts
  | .pattern _ => [.word "ILIKE", blank, .param n] <:+: ts

section

variable {ts us : List Token}

@[simp] theorem places_nil : places [] = [] := rfl

@[simp] theorem places_append : places (ts ++ us) = places ts ++ places us := List.filterMap_append

@[simp] theorem places_mark (c : Char) : places (.mark c :: ts) = places ts := rfl

@[simp] theorem places_word (w : String) : places (.word w :: ts) = places ts := rfl

@[simp] theorem places_name (part : List Char) : places (.name part :: ts) = places ts := rfl

@[simp] theorem places_param (n : Nat) : places (.param n :: ts) = n :: places ts := rfl

@[simp] theorem places_blank : places (blank :: ts) = places ts := rfl

@[simp] theorem places_parenthesized : places (parenthesized ts) = places ts := by
  simp [parenthesized]

@[simp] theorem places_marks (cs : List Char) : places (cs.map Token.mark) = [] := by
  induction cs with
  | nil => rfl
  | cons c cs ih => exact ih

theorem places_intercalate {sep : List Token} (hsep : places sep = []) (runs : List (List Token)) :
    places (List.intercalate sep runs) = runs.flatMap places := by
  induction runs with
  | nil => rfl
  | cons run runs ih =>
    cases runs with
    | nil => simp
    | cons run' runs => simp [List.intercalate_cons_cons, hsep, ih]

theorem places_comma (runs : List (List Token)) :
    places (List.intercalate [.mark ',', blank] runs) = runs.flatMap places :=
  places_intercalate rfl runs

theorem places_joined (w : String) (runs : List (List Token)) :
    places (List.intercalate [blank, .word w, blank] runs) = runs.flatMap places :=
  places_intercalate rfl runs

theorem flatMap_places {β : Type} {run : β → List Token} {place : β → Nat}
    (h : ∀ b, places (run b) = [place b]) (xs : List β) :
    (xs.map run).flatMap places = xs.map place := by
  rw [List.flatMap_map, List.map_eq_flatMap]
  exact List.flatMap_congr fun b _ => h b

@[simp] theorem places_identifier (name : String) : places (identifier name) = [] := by
  rw [identifier, places_intercalate rfl]
  simp

@[simp] theorem places_phrase (ws : List String) : places (phrase ws) = [] := by
  induction ws with
  | nil => rfl
  | cons w ws ih =>
    cases ws with
    | nil => rfl
    | cons w' ws => exact ih

theorem infix_intercalate {sep run : List Token} {runs : List (List Token)} (h : run ∈ runs) :
    run <:+: List.intercalate sep runs := by
  induction runs with
  | nil => cases h
  | cons first runs ih =>
    cases runs with
    | nil => simp [List.mem_singleton.1 h]
    | cons second runs =>
      rw [List.intercalate_cons_cons]
      rcases List.mem_cons.1 h with rfl | h
      · exact ((List.prefix_append _ _).trans (List.prefix_append _ _)).isInfix
      · exact (ih h).trans (List.suffix_append _ _).isInfix

end

def Operand.place : Operand → Nat
  | .plain n | .typed _ _ n => n

theorem places_operand (o : Operand) : places o.tokens = [o.place] := by
  cases o <;> simp [Operand.tokens, Operand.place]

theorem places_likeTokens (d : Dialect) (t : String × Nat) : places (likeTokens d t) = [t.2] := by
  cases d <;> simp [likeTokens]

def Predicate.places : Predicate → List Nat
  | .compare _ _ value => [value.place]
  | .among _ values => values.map Operand.place
  | .between _ low high => [low.place, high.place]
  | .anyLike terms => terms.map (·.2)
  | .never | .isNull _ | .isNotNull _ => []

theorem places_predicate (d : Dialect) (p : Predicate) : Sql.places (p.tokens d) = p.places := by
  cases p with
  | compare column op value => simp [Predicate.tokens, Predicate.places, places_operand]
  | among column values =>
    simp [Predicate.tokens, Predicate.places, commaSeparated, places_comma,
      flatMap_places places_operand]
  | never => rfl
  | between column low high => simp [Predicate.tokens, Predicate.places, places_operand]
  | anyLike terms =>
    simp [Predicate.tokens, Predicate.places, places_joined, flatMap_places (places_likeTokens d)]
  | isNull column => simp [Predicate.tokens, Predicate.places]
  | isNotNull column => simp [Predicate.tokens, Predicate.places]

section

variable {d : Dialect} {table field : String}

theorem recordAndColumn_snd (table field : String) :
    (recordAndColumn table field).2 = Identifier.unqualified field := by
  unfold recordAndColumn
  simp only
  split
  · next hfront =>
    have hjoin : ['.'].intercalate (field.toList.splitOn '.') = field.toList :=
      List.intercalate_splitOn '.'
    cases hparts : List.splitOn '.' field.toList with
    | nil => exact absurd hparts (List.splitOn_ne_nil _ _)
    | cons w ws =>
      obtain rfl : ws = [] := by
        cases ws with
        | nil => rfl
        | cons v vs => simp [hparts] at hfront
      rw [hparts, List.intercalate_singleton] at hjoin
      simp [Identifier.unqualified, hparts, hjoin]
  · rfl

theorem bindValue_eq (d : Dialect) (table field : String) (v : Json) :
    bindValue d table field v = (Argument.value field v).bind d := by
  cases d with
  | postgres => rw [bindValue, recordAndColumn_snd, Argument.bind]
  | mysql => rfl

theorem binds_eq (d : Dialect) (table : String) (c : Constraint) :
    binds d table c = (arguments c).map (Argument.bind d) := by
  cases c with
  | compare field op v => simp [binds, arguments, bindValue_eq]
  | among field values => simp [binds, arguments, bindValue_eq]
  | range field low high => simp [binds, arguments, bindValue_eq]
  | anyLike terms => cases d <;> simp [binds, arguments, Argument.bind]

@[simp] theorem place_operand (n : Nat) : (operand d table field n).place = n := by
  cases d <;> rfl

theorem places_mapIdx {β γ : Type} (first : Nat) (place : γ → Nat) {f : Nat → β → γ}
    (h : ∀ i b, place (f i b) = first + i) (xs : List β) :
    (xs.mapIdx f).map place = List.range' first xs.length :=
  List.ext_getElem (by simp) fun i _ _ => by simp [h]

theorem places_of_predicate (bound : Nat) (c : Constraint) :
    (predicate d table bound c).places = List.range' (bound + 1) (arguments c).length := by
  cases c with
  | compare field op v => simp [predicate, Predicate.places, arguments]
  | among field values =>
    cases values with
    | nil => rfl
    | cons v vs =>
      rw [arguments, List.length_map]
      exact places_mapIdx (bound + 1) Operand.place (fun _ _ => place_operand _) (v :: vs)
  | range field low high => simp [predicate, Predicate.places, arguments, List.range'_succ]
  | anyLike terms =>
    rw [arguments, List.length_map]
    exact places_mapIdx (bound + 1) Prod.snd (fun _ _ => rfl) terms

theorem places_of_predicates (bound : Nat) (cs : List Constraint) :
    (predicates d table bound cs).flatMap Predicate.places =
      List.range' (bound + 1) (cs.flatMap arguments).length := by
  induction cs generalizing bound with
  | nil => rfl
  | cons c cs ih =>
    have hlength : (binds d table c).length = (arguments c).length := by simp [binds_eq]
    rw [predicates, List.flatMap_cons, List.flatMap_cons, List.length_append, ih,
      places_of_predicate, hlength, Nat.add_right_comm, List.range'_append_1]

theorem places_whereTokens (ps : List Predicate) :
    places (whereTokens d ps) = ps.flatMap Predicate.places := by
  unfold whereTokens
  split
  · next h => rw [List.isEmpty_iff.1 h, places_nil, List.flatMap_nil]
  · simp [places_joined, List.flatMap_map, places_predicate]

theorem places_renderWhere (d : Dialect) (table : String) (q : Query) (bound : List Bind) :
    places (renderWhere d table q bound).1 =
      List.range' (bound.length + 1) (queryArguments q).length := by
  have hvisibility : (visibilityPredicate q.visibility).toList.flatMap Predicate.places = [] := by
    cases q.visibility <;> rfl
  rw [renderWhere, places_whereTokens, queryPredicates, List.flatMap_append, hvisibility,
    List.append_nil, places_of_predicates, queryArguments]

theorem Argument.ReadAt.mono {ts us : List Token} {n : Nat} {a : Argument} (h : a.ReadAt ts n)
    (hsub : ts <:+: us) : a.ReadAt us n := by
  cases a with
  | value field v => exact h.trans hsub
  | pattern p => exact h.trans hsub

theorem infix_parenthesized (ts : List Token) : ts <:+: parenthesized ts :=
  ⟨[.mark '('], [.mark ')'], by simp [parenthesized]⟩

def Predicate.operands : Predicate → List Operand
  | .compare _ _ value => [value]
  | .among _ values => values
  | .between _ low high => [low, high]
  | .never | .anyLike _ | .isNull _ | .isNotNull _ => []

theorem infix_predicate {p : Predicate} {o : Operand} (h : o ∈ p.operands) :
    o.tokens <:+: p.tokens d := by
  cases p with
  | compare column op value =>
    obtain rfl := List.mem_singleton.1 h
    exact List.IsSuffix.isInfix ⟨identifier column ++ blank :: (op.symbol.toList.map Token.mark ++
      [blank]), by simp [Predicate.tokens]⟩
  | among column values =>
    have hrun : o.tokens <:+: commaSeparated (values.map Operand.tokens) :=
      infix_intercalate (List.mem_map_of_mem h)
    exact (hrun.trans (infix_parenthesized _)).trans (List.IsSuffix.isInfix
      ⟨identifier column ++ [blank, .word "IN", blank], by simp [Predicate.tokens]⟩)
  | between column low high =>
    rcases List.mem_cons.1 h with rfl | h
    · exact ⟨identifier column ++ [blank, .word "BETWEEN", blank],
        blank :: .word "AND" :: blank :: high.tokens, by simp [Predicate.tokens]⟩
    · obtain rfl := List.mem_singleton.1 h
      exact List.IsSuffix.isInfix ⟨identifier column ++ blank :: .word "BETWEEN" :: blank ::
        (low.tokens ++ [blank, .word "AND", blank]), by simp [Predicate.tokens]⟩
  | never | anyLike | isNull | isNotNull => cases h

theorem readAt_operand (field : String) (v : Json) (n : Nat) :
    (Argument.value field v).ReadAt (operand .postgres table field n).tokens n := by
  refine List.IsSuffix.isInfix ⟨.mark '(' :: .word "jsonb_populate_record" :: .mark '(' ::
    .word "NULL" :: .mark ':' :: .mark ':' ::
      (identifier (recordAndColumn table field).1 ++ [.mark ',', blank]), ?_⟩
  simp [operand, Operand.tokens, parenthesized, recordAndColumn_snd, identifier,
    List.splitOn_eq_singleton (Identifier.not_mem_unqualified field)]

theorem readAt_likeTokens (t : LikeTerm) (n : Nat) :
    (Argument.pattern t.pattern).ReadAt (likeTokens .postgres (t.field, n)) n :=
  List.IsSuffix.isInfix ⟨.word "CAST" :: (parenthesized (identifier t.field ++
    blank :: phrase ["AS", "TEXT"]) ++ [blank]), by simp [likeTokens]⟩

theorem mem_zipIdx_map {β : Type} {f : β → Argument} {xs : List β} {first n : Nat} {a : Argument}
    (h : (a, n) ∈ (xs.map f).zipIdx first) :
    ∃ i, ∃ hi : i < xs.length, a = f xs[i] ∧ n = first + i := by
  obtain ⟨hfirst, hlast, ha⟩ := List.mem_zipIdx h
  rw [List.length_map] at hlast
  exact ⟨n - first, by omega, by simpa using ha, by omega⟩

theorem readAt_predicate (bound : Nat) (c : Constraint) {a : Argument} {n : Nat}
    (h : (a, n) ∈ (arguments c).zipIdx (bound + 1)) :
    a.ReadAt ((predicate .postgres table bound c).tokens .postgres) n := by
  cases c with
  | compare field op v =>
    obtain ⟨rfl, rfl⟩ := Prod.mk.inj (List.mem_singleton.1 h)
    exact (readAt_operand field v _).mono (infix_predicate List.mem_cons_self)
  | among field values =>
    obtain ⟨i, hi, rfl, rfl⟩ := mem_zipIdx_map h
    cases values with
    | nil => cases hi
    | cons v vs =>
      exact (readAt_operand field _ _).mono (infix_predicate (List.mem_mapIdx.2 ⟨i, hi, rfl⟩))
  | range field low high =>
    rcases List.mem_cons.1 h with h | h
    · obtain ⟨rfl, rfl⟩ := Prod.mk.inj h
      exact (readAt_operand field low _).mono (infix_predicate List.mem_cons_self)
    · obtain ⟨rfl, rfl⟩ := Prod.mk.inj (List.mem_singleton.1 h)
      exact (readAt_operand field high _).mono
        (infix_predicate (List.mem_cons_of_mem _ List.mem_cons_self))
  | anyLike terms =>
    obtain ⟨i, hi, rfl, rfl⟩ := mem_zipIdx_map h
    have hterm : likeTokens .postgres (terms[i].field, bound + 1 + i) ∈
        (terms.mapIdx fun i t => (t.field, bound + 1 + i)).map (likeTokens .postgres) :=
      List.mem_map_of_mem (List.mem_mapIdx.2 ⟨i, hi, rfl⟩)
    exact (readAt_likeTokens terms[i] _).mono ((infix_intercalate hterm).trans (infix_parenthesized _))

theorem readAt_predicates (bound : Nat) (cs : List Constraint) {ts : List Token}
    (h : ∀ p ∈ predicates .postgres table bound cs, p.tokens .postgres <:+: ts) {a : Argument}
    {n : Nat} (ha : (a, n) ∈ (cs.flatMap arguments).zipIdx (bound + 1)) : a.ReadAt ts n := by
  induction cs generalizing bound with
  | nil => cases ha
  | cons c cs ih =>
    obtain ⟨hc, hcs⟩ := List.forall_mem_cons.1 h
    have hlength : (binds .postgres table c).length = (arguments c).length := by simp [binds_eq]
    rw [List.flatMap_cons, List.zipIdx_append, List.mem_append] at ha
    rcases ha with ha | ha
    · exact (readAt_predicate bound c ha).mono hc
    · rw [Nat.add_right_comm, ← hlength] at ha
      exact ih _ hcs ha

theorem infix_whereTokens {ps : List Predicate} {p : Predicate} (h : p ∈ ps) :
    p.tokens d <:+: whereTokens d ps := by
  have hne : ps.isEmpty = false := List.isEmpty_eq_false_iff.2 (List.ne_nil_of_mem h)
  have hrun : p.tokens d <:+: List.intercalate [blank, .word "AND", blank] (ps.map (Predicate.tokens d)) :=
    infix_intercalate (List.mem_map_of_mem h)
  simp only [whereTokens, hne]
  exact ((hrun.trans (List.infix_cons List.infix_rfl)).trans
    (List.infix_cons List.infix_rfl)).trans (List.infix_cons List.infix_rfl)

end

section

variable {d : Dialect} {N : List Char → Prop} {ts : List Token}

theorem count_token {t : Token} (ht : t.Within N) (hname : t.isName = false) :
    (t.write d).count d.placeholder = t.place?.toList.length := by
  have hword : ∀ w ∈ keywords, w.toList.count d.placeholder = 0 := by cases d <;> decide
  have hmark : ∀ c ∈ punctuation, [c].count d.placeholder = 0 := by
    cases d <;> exact List.forall_iff_forall_mem.1 (by decide)
  have hnumeral (n : Nat) : (Text.numeral n).count d.placeholder = 0 := by
    refine List.count_eq_zero.2 fun hmem => ?_
    have hdigit := Text.isDigit_of_mem_numeral hmem
    cases d <;> revert hdigit <;> decide
  cases t with
  | word w => exact hword w ht
  | name part => cases hname
  | param n =>
    cases d with
    | postgres => exact (List.count_cons_self).trans (congrArg (· + 1) (hnumeral n))
    | mysql => rfl
  | number n => exact hnumeral n
  | mark c => exact hmark c ht
  | raw clause => cases ht

theorem count_outside (h : ∀ t ∈ ts, t.Within N) :
    (outside d ts).count d.placeholder = (places ts).length := by
  induction ts with
  | nil => rfl
  | cons t ts ih =>
    obtain ⟨ht, hts⟩ := List.forall_mem_cons.1 h
    cases hname : t.isName with
    | true =>
      cases t with
      | name part => exact ih hts
      | word | param | number | mark | raw => cases hname
    | false =>
      have houtside : outside d (t :: ts) = t.write d ++ outside d ts := by
        simp [outside, hname, write]
      have hplaces : places (t :: ts) = t.place?.toList ++ places ts := by
        cases t <;> rfl
      rw [houtside, hplaces, List.count_append, List.length_append, count_token ht hname, ih hts]

theorem map_seen_postgres (ts : List Token) : ts.map (Token.seen .postgres) = ts := by
  rw [show Token.seen .postgres = id from funext fun t => by cases t <;> rfl, List.map_id]

theorem places_seen {first n : Nat} (h : places ts = List.range' first n) (d : Dialect) :
    places (ts.map (Token.seen d)) = d.numbering first n := by
  cases d with
  | postgres => rw [map_seen_postgres, h, Dialect.numbering]
  | mysql =>
    have hplace : Token.place? ∘ Token.seen .mysql = fun t => t.place?.map fun _ => 0 :=
      funext fun t => by cases t <;> rfl
    rw [places, List.filterMap_map, hplace, ← List.map_filterMap]
    change (places ts).map _ = _
    rw [h, Dialect.numbering, List.map_const', List.length_range']

theorem length_numbering (first n : Nat) : (d.numbering first n).length = n := by
  cases d <;> simp [Dialect.numbering]

theorem readAt_renderWhere (table : String) (q : Query) (bound : List Bind) {a : Argument} {n : Nat}
    (h : (a, n) ∈ (queryArguments q).zipIdx (bound.length + 1)) :
    a.ReadAt (renderWhere .postgres table q bound).1 n := by
  have hsub : ∀ p ∈ predicates .postgres table bound.length q.constraints,
      p.tokens .postgres <:+: (renderWhere .postgres table q bound).1 := fun p hp =>
    infix_whereTokens (List.mem_append_left _ hp)
  exact readAt_predicates bound.length q.constraints hsub h

theorem queryBinds_eq (d : Dialect) (table : String) (q : Query) :
    queryBinds d table q = (queryArguments q).map (Argument.bind d) := by
  rw [queryBinds, queryArguments, List.map_flatMap]
  exact List.flatMap_congr fun c _ => binds_eq d table c

/-- A statement has a place for each value that it binds, numbered on from those bound before, and
binds the arguments of its constraints in their order; under Postgres each value is read, behind its
place, as the column under whose name it travels. -/
theorem places_match_binds (d : Dialect) (table : String) (q : Query) (bound : List Bind) :
    (∃ ts, read? d (text d (renderWhere d table q bound).1).toList = some ts ∧
        write d ts = (text d (renderWhere d table q bound).1).toList ∧
        places ts = d.numbering (bound.length + 1) (queryArguments q).length ∧
        (outside d ts).count d.placeholder = (queryArguments q).length ∧
        (d = .postgres → ∀ a n, (a, n) ∈ (queryArguments q).zipIdx (bound.length + 1) →
          a.ReadAt ts n)) ∧
      (renderWhere d table q bound).2 = bound ++ (queryArguments q).map (Argument.bind d) ∧
      ∀ w, (select d table q w).binds = (queryArguments q).map (Argument.bind d) ∧
        (count d table q).binds = (queryArguments q).map (Argument.bind d) := by
  have hbinds := queryBinds_eq d table q
  have hlegible : Legible (fun _ => True) (renderWhere d table q bound).1 :=
    legible_whereTokens fun p _ => p.legible d fun _ _ _ _ => trivial
  obtain ⟨hread, hwrite, hwithin⟩ := hlegible.read_seen d
  have hnumbers := places_seen (places_renderWhere d table q bound) d
  refine ⟨⟨_, hread, hwrite, hnumbers, ?_, ?_⟩, ?_, ?_⟩
  · rw [count_outside hwithin, hnumbers, length_numbering]
  · rintro rfl a n ha
    rw [map_seen_postgres]
    exact readAt_renderWhere table q bound ha
  · rw [renderWhere, hbinds]
  · exact fun w => ⟨hbinds, hbinds⟩

example :
    text .postgres (renderWhere .postgres "users"
      { constraints := [.among "teams.rank" [.str "1"], .anyLike [⟨"name", "%a%"⟩]]
        visibility := .all } [.pattern "b"]).1 =
      " WHERE \"teams\".\"rank\" IN ((jsonb_populate_record(NULL::\"teams\", $2)).\"rank\")" ++
        " AND (CAST(\"name\" AS TEXT) ILIKE $3)" := by decide +kernel

end

end Recordkeeper.Sql
