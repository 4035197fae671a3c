import Recordkeeper.Proofs.Sql.SetList

/-!
A reader of WHERE clauses. Tests are joined by AND into conjunctions, and these by OR into alternatives;
the AND of a BETWEEN belongs to its test, and parentheses make one member of a condition of its own.
Predicates that stand in a clause side by side are read as the members of a single conjunction.
-/

set_option autoImplicit false

namespace Recordkeeper.Sql

inductive Expression where
  | column (name : Parts)
  | place (n : Nat)
  | field (record : Parts) (n : Nat) (column : Parts)
  | asText (column : Parts)
  deriving DecidableEq

inductive Test where
  | never
  | compare (left : Expression) (op : Comparison) (right : Expression)
  | among (left : Expression) (values : List Expression)
  | between (left low high : Expression)
  | like (left pattern : Expression)
  | ilike (left pattern : Expression)
  | isNull (left : Expression)
  | isNotNull (left : Expression)
  deriving DecidableEq

inductive Member where
  | test (t : Test)
  | group (alternatives : List (List Member))

/-- Alternatives, each of them a conjunction. -/
abbrev Condition := List (List Member)

/-- Takes something off the front of a text. -/
abbrev Reader (β : Type) := List Token → Option (β × List Token)

section

variable {β : Type}

def sepWith (item : Reader β) (sep : Token) : (fuel : Nat) → Reader (List β)
  | 0, _ => none
  | fuel + 1, ts => do
    let (b, rest) ← item ts
    if rest.head? = some sep then
      let (bs, rest) ← sepWith item sep fuel rest.tail
      return (b :: bs, rest)
    else return ([b], rest)

def sepBy (item : Reader β) (sep : Token) : Reader (List β) := fun ts =>
  sepWith item sep (ts.length + 1) ts

def closed (item : Reader β) : Reader β := fun ts => do
  match ← item ts with
  | (b, .mark ')' :: rest) => some (b, rest)
  | _ => none

end

def part? : Reader (List Char)
  | .name part :: ts => some (part, ts)
  | _ => none

def column? : Reader Parts := sepBy part? (.mark '.')

def expression? : Reader Expression
  | .param n :: ts => some (.place n, ts)
  | .name part :: ts => do
    let (column, rest) ← column? (.name part :: ts)
    return (.column column, rest)
  | .word "CAST" :: .mark '(' :: ts => do
    match ← column? ts with
    | (column, .word "AS" :: .word "TEXT" :: .mark ')' :: rest) => some (.asText column, rest)
    | _ => none
  | .mark '(' :: .word "jsonb_populate_record" :: .mark '(' :: .word "NULL" :: .mark ':' ::
      .mark ':' :: ts => do
    match ← column? ts with
    | (record, .mark ',' :: .param n :: .mark ')' :: .mark ')' :: .mark '.' :: rest) =>
      let (column, rest) ← column? rest
      return (.field record n column, rest)
    | _ => none
  | _ => none

def comparison? : Reader Comparison
  | .mark '=' :: ts => some (.equal, ts)
  | .mark '<' :: ts =>
    if ts.head? = some (.mark '>') then some (.notEqual, ts.tail)
    else if ts.head? = some (.mark '=') then some (.atMost, ts.tail)
    else some (.less, ts)
  | .mark '>' :: ts =>
    if ts.head? = some (.mark '=') then some (.atLeast, ts.tail) else some (.greater, ts)
  | _ => none

def relation? (left : Expression) : Reader Test
  | .word "IS" :: .word "NULL" :: ts => some (.isNull left, ts)
  | .word "IS" :: .word "NOT" :: .word "NULL" :: ts => some (.isNotNull left, ts)
  | .word "IN" :: .mark '(' :: ts => do
    let (values, rest) ← closed (sepBy expression? (.mark ',')) ts
    return (.among left values, rest)
  | .word "BETWEEN" :: ts => do
    match ← expression? ts with
    | (low, .word "AND" :: rest) =>
      let (high, rest) ← expression? rest
      return (.between left low high, rest)
    | _ => none
  | .word "LIKE" :: ts => do
    let (pattern, rest) ← expression? ts
    return (.like left pattern, rest)
  | .word "ILIKE" :: ts => do
    let (pattern, rest) ← expression? ts
    return (.ilike left pattern, rest)
  | ts => do
    let (op, rest) ← comparison? ts
    let (right, rest) ← expression? rest
    return (.compare left op right, rest)

def test? : Reader Test
  | .word "FALSE" :: ts => some (.never, ts)
  | ts => do
    let (left, rest) ← expression? ts
    relation? left rest

def member? (group : Reader Condition) : Reader Member := fun ts =>
  match test? ts with
  | some (t, rest) => some (.test t, rest)
  | none => match ts with
    | .mark '(' :: ts => do
      let (alternatives, rest) ← closed group ts
      return (.group alternatives, rest)
    | _ => none

/-- AND binds tighter than OR. -/
def conditionOver (group : Reader Condition) : Reader Condition :=
  sepBy (sepBy (member? group) (.word "AND")) (.word "OR")

def condition? : (depth : Nat) → Reader Condition
  | 0 => conditionOver fun _ => none
  | depth + 1 => conditionOver (condition? depth)

def whereClause? (d : Dialect) (clause : String) : Option Condition := do
  let ts ← read? d clause.toList
  match compact ts with
  | [] => some [[]]
  | .word "WHERE" :: rest =>
    match ← condition? ts.length rest with
    | (alternatives, []) => some alternatives
    | _ => none
  | _ => none

example : whereClause? .postgres
    " WHERE \"a\" = $1 OR \"b\" BETWEEN $2 AND $3 AND (\"c\" IS NULL OR FALSE)" =
    some [[.test (.compare (.column [['a']]) .equal (.place 1))],
      [.test (.between (.column [['b']]) (.place 2) (.place 3)),
        .group [[.test (.isNull (.column [['c']]))], [.test .never]]]] := by
  cbv

/-- The run is taken off the front of every text that does not go on with one of the tokens `stop`. -/
def Takes {β : Type} (item : Reader β) (stop run : List Token) (b : β) : Prop :=
  ∀ rest : List Token, (∀ t ∈ rest.head?, t ∉ stop) → item (run ++ rest) = some (b, rest)

section

variable {β γ : Type} {item : Reader β} {sep : Token} {stop stop' run : List Token} {b : β}

theorem Takes.mono (h : Takes item stop run b) (hsub : stop ⊆ stop') : Takes item stop' run b :=
  fun rest hrest => h rest fun t ht hmem => hrest t ht (hsub hmem)

section

variable {f : γ → List Token} {g : γ → β} {xs : List γ}

theorem takes_sepWith (h : ∀ x ∈ xs, Takes item stop (f x) (g x)) (hsep : sep ∉ stop) (hne : xs ≠ [])
    {fuel : Nat} (hfuel : xs.length ≤ fuel) :
    Takes (sepWith item sep fuel) (sep :: stop) (List.intercalate [sep] (xs.map f)) (xs.map g) := by
  induction xs generalizing fuel with
  | nil => exact absurd rfl hne
  | cons x xs ih =>
    obtain ⟨hx, hxs⟩ := List.forall_mem_cons.1 h
    rw [List.length_cons] at hfuel
    obtain ⟨n, rfl⟩ : ∃ n, fuel = n + 1 := ⟨fuel - 1, by omega⟩
    intro rest hrest
    cases xs with
    | nil =>
      have hitem := hx rest fun t ht hmem => hrest t ht (List.mem_cons_of_mem _ hmem)
      have hlast : rest.head? ≠ some sep := fun h => hrest sep h List.mem_cons_self
      simp [sepWith, hitem, hlast]
    | cons y ys =>
      have hmore := ih hxs (by simp) (Nat.le_of_succ_le_succ hfuel) rest hrest
      have hitem := hx (sep :: (List.intercalate [sep] ((y :: ys).map f) ++ rest)) (by simpa using hsep)
      simp only [List.map_cons] at hitem hmore
      simp [List.intercalate_cons_cons, sepWith, hitem, hmore]

theorem length_le_intercalate (sep : Token) (runs : List (List Token)) :
    runs.length ≤ (List.intercalate [sep] runs).length + 1 := by
  induction runs with
  | nil => simp
  | cons run runs ih =>
    cases runs with
    | nil => simp
    | cons run' runs =>
      simp only [List.intercalate_cons_cons, List.length_append, List.length_cons, List.length_nil] at ih ⊢
      omega

theorem takes_sepBy (h : ∀ x ∈ xs, Takes item stop (f x) (g x)) (hsep : sep ∉ stop) (hne : xs ≠ []) :
    Takes (sepBy item sep) (sep :: stop) (List.intercalate [sep] (xs.map f)) (xs.map g) := by
  intro rest hrest
  refine takes_sepWith h hsep hne ?_ rest hrest
  have hlength := length_le_intercalate sep (xs.map f)
  rw [List.length_map] at hlength
  rw [List.length_append]
  omega

end

theorem Takes.sepBy (h : Takes item stop run b) (hsep : sep ∉ stop) :
    Takes (sepBy item sep) (sep :: stop) run [b] := by
  simpa using takes_sepBy (f := fun _ : Unit => run) (g := fun _ => b) (fun _ _ => h) hsep
    (List.cons_ne_nil () [])

theorem Takes.closed (h : Takes item stop run b) (hstop : .mark ')' ∉ stop) :
    Takes (closed item) [] (run ++ [.mark ')']) b := by
  intro rest _
  have hitem := h (.mark ')' :: rest) (by simpa using hstop)
  simp [Sql.closed, hitem]

end

def gist (d : Dialect) (ts : List Token) : List Token := compact (ts.map (Token.seen d))

def Dialect.seenPlace : Dialect → Nat → Nat
  | .postgres, n => n
  | .mysql, _ => 0

section

variable {d : Dialect} {ts us : List Token}

@[simp] theorem gist_append : gist d (ts ++ us) = gist d ts ++ gist d us := by simp [gist]

@[simp] theorem gist_nil : gist d [] = [] := rfl

@[simp] theorem gist_blank : gist d (blank :: ts) = gist d ts := by cases d <;> rfl

@[simp] theorem gist_word (w : String) : gist d (.word w :: ts) = .word w :: gist d ts := by
  cases d <;> rfl

@[simp] theorem gist_param (n : Nat) :
    gist d (.param n :: ts) = .param (d.seenPlace n) :: gist d ts := by cases d <;> rfl

theorem gist_mark {c : Char} (h : c ≠ ' ') : gist d (.mark c :: ts) = .mark c :: gist d ts := by
  cases d <;> exact compact_mark h

@[simp] theorem gist_parenthesized :
    gist d (parenthesized ts) = .mark '(' :: (gist d ts ++ [.mark ')']) := by
  simp [parenthesized, gist_mark]

@[simp] theorem gist_symbol (op : Comparison) :
    gist d (op.symbol.toList.map Token.mark) = op.symbol.toList.map Token.mark := by
  cases d <;> cases op <;> rfl

@[simp] theorem gist_phrase (ws : List String) : gist d (phrase ws) = ws.map Token.word := by
  induction ws with
  | nil => rfl
  | cons w ws ih =>
    cases ws with
    | nil => exact gist_word w
    | cons w' ws => exact (gist_word w).trans (congrArg _ (gist_blank.trans ih))

theorem gist_intercalate (sep : List Token) (runs : List (List Token)) :
    gist d (List.intercalate sep runs) = List.intercalate (gist d sep) (runs.map (gist d)) :=
  intercalate_map gist_nil (fun _ _ => gist_append) sep runs

@[simp] theorem gist_identifier (name : String) : gist d (identifier name) = identifier name := by
  have hseen : (identifier name).map (Token.seen d) = identifier name := by
    refine (List.map_congr_left fun t ht => ?_).trans (List.map_id _)
    rcases mem_identifier ht with rfl | ⟨part, rfl⟩ <;> cases d <;> rfl
  rw [gist, hseen]
  exact compact_eq_self (not_mem_identifier (by decide) (by simp [blank]))

end

theorem identifier_eq (name : String) :
    identifier name = List.intercalate [.mark '.'] ((partsOf name).map fun part => [.name part]) := rfl

theorem identifier_cons (name : String) : ∃ part ts, identifier name = .name part :: ts := by
  obtain ⟨part, parts, hparts⟩ := List.exists_cons_of_ne_nil (partsOf_ne_nil name)
  rw [identifier_eq, hparts]
  cases parts <;> exact ⟨_, _, rfl⟩

theorem takes_column (name : String) :
    Takes column? [.mark '.'] (identifier name) (partsOf name) := by
  rw [identifier_eq]
  have hpart : ∀ part ∈ partsOf name, Takes part? [] [.name part] (id part) :=
    fun part _ rest _ => rfl
  have hparts : Takes column? [.mark '.']
      (List.intercalate [.mark '.'] ((partsOf name).map fun part => [.name part]))
      ((partsOf name).map id) := takes_sepBy hpart (by simp) (partsOf_ne_nil name)
  rwa [List.map_id] at hparts

theorem takes_expression_column (name : String) :
    Takes expression? [.mark '.'] (identifier name) (.column (partsOf name)) := by
  intro rest hrest
  have hcolumn := takes_column name rest hrest
  obtain ⟨part, ts, hname⟩ := identifier_cons name
  rw [hname, List.cons_append] at hcolumn ⊢
  simp [expression?, hcolumn]

def Operand.expression (d : Dialect) : Operand → Expression
  | .plain n => .place (d.seenPlace n)
  | .typed record column n => .field (partsOf record) (d.seenPlace n) (partsOf column)

theorem takes_operand (d : Dialect) (o : Operand) :
    Takes expression? [.mark '.'] (gist d o.tokens) (o.expression d) := by
  intro rest hrest
  cases o with
  | plain n => simp [Operand.tokens, expression?, Operand.expression]
  | typed record column n =>
    have hcolumn := takes_column column rest hrest
    have hrecord := takes_column record (.mark ',' :: .param (d.seenPlace n) :: .mark ')' ::
      .mark ')' :: .mark '.' :: (identifier column ++ rest)) (by simp)
    simp [Operand.tokens, gist_mark, expression?, hrecord, hcolumn, Operand.expression]

theorem head_operand (d : Dialect) (o : Operand) (rest : List Token) :
    ∀ t ∈ (gist d o.tokens ++ rest).head?, t = .mark '(' ∨ ∃ n, t = .param n := by
  cases o <;> simp [Operand.tokens, eq_comm]

theorem takes_comparison (op : Comparison) :
    Takes comparison? [.mark '=', .mark '>'] (op.symbol.toList.map Token.mark) op := by
  intro rest hrest
  have hequals : rest.head? ≠ some (.mark '=') := fun h => hrest _ h (by decide)
  have hgreater : rest.head? ≠ some (.mark '>') := fun h => hrest _ h (by decide)
  cases op <;> simp [Comparison.symbol, comparison?, hequals, hgreater]

section

variable {ts us rest : List Token} {left right : Expression}

theorem test?_eq (h : expression? ts = some (left, rest)) : test? ts = relation? left rest := by
  unfold test?
  split
  · simp [expression?] at h
  · simp [h]

theorem test?_identifier (name : String) (h : ∀ t ∈ ts.head?, t ≠ .mark '.') :
    test? (identifier name ++ ts) = relation? (.column (partsOf name)) ts :=
  test?_eq (takes_expression_column name ts (by simpa using h))

theorem test?_group (h : ∀ t ∈ ts.head?, t ≠ .word "jsonb_populate_record") :
    test? (.mark '(' :: ts) = none := by
  cases ts with
  | nil => rfl
  | cons t ts =>
    have ht : t ≠ .word "jsonb_populate_record" := h t rfl
    simp [test?, expression?, ht]

theorem relation?_compare {op : Comparison} (hop : comparison? ts = some (op, us))
    (hright : expression? us = some (right, rest)) :
    relation? left ts = some (.compare left op right, rest) := by
  unfold relation?
  split
  case h_7 => simp [hop, hright]
  all_goals simp [comparison?] at hop

end

def likeTest (d : Dialect) (t : String × Nat) : Test :=
  match d with
  | .postgres => .ilike (.asText (partsOf t.1)) (.place t.2)
  | .mysql => .like (.column (partsOf t.1)) (.place 0)

/-- A predicate as it reads. -/
def Predicate.member (d : Dialect) : Predicate → Member
  | .compare column op value => .test (.compare (.column (partsOf column)) op (value.expression d))
  | .among column values =>
    .test (.among (.column (partsOf column)) (values.map (Operand.expression d)))
  | .never => .test .never
  | .between column low high =>
    .test (.between (.column (partsOf column)) (low.expression d) (high.expression d))
  | .anyLike terms => .group (terms.map fun t => [.test (likeTest d t)])
  | .isNull column => .test (.isNull (.column (partsOf column)))
  | .isNotNull column => .test (.isNotNull (.column (partsOf column)))

def Predicate.Filled : Predicate → Prop
  | .among _ values => values ≠ []
  | .anyLike terms => terms ≠ []
  | _ => True

theorem takes_likeTokens (d : Dialect) (t : String × Nat) :
    Takes test? [] (gist d (likeTokens d t)) (likeTest d t) := by
  intro rest _
  cases d with
  | postgres =>
    have hcolumn := takes_column t.1 (.word "AS" :: .word "TEXT" :: .mark ')' :: .word "ILIKE" ::
      .param t.2 :: rest) (by simp)
    simp [likeTokens, test?, expression?, relation?, hcolumn, likeTest, Dialect.seenPlace]
  | mysql =>
    simp only [likeTokens, gist_append, gist_identifier, gist_blank, gist_word, gist_param, gist_nil,
      List.append_assoc, List.cons_append, List.nil_append]
    rw [test?_identifier t.1 (by simp)]
    rfl

theorem takes_compare (d : Dialect) (column : String) (op : Comparison) (value : Operand) :
    Takes test? [.mark '.'] (gist d ((Predicate.compare column op value).tokens d))
      (.compare (.column (partsOf column)) op (value.expression d)) := by
  intro rest hrest
  have hop := takes_comparison op (gist d value.tokens ++ rest) fun t ht => by
    rcases head_operand d value rest t ht with rfl | ⟨n, rfl⟩ <;> simp
  have hdot : ∀ t ∈ (op.symbol.toList.map Token.mark ++ (gist d value.tokens ++ rest)).head?,
      t ≠ .mark '.' := by
    cases op <;> simp [Comparison.symbol]
  simp only [Predicate.tokens, gist_append, gist_blank, gist_identifier, gist_symbol,
    List.append_assoc]
  rw [test?_identifier column hdot]
  exact relation?_compare hop (takes_operand d value rest hrest)

theorem takes_among (d : Dialect) (column : String) {values : List Operand} (hne : values ≠ []) :
    Takes test? [] (gist d ((Predicate.among column values).tokens d))
      (.among (.column (partsOf column)) (values.map (Operand.expression d))) := by
  intro rest hrest
  have hlist : Takes (sepBy expression? (.mark ',')) [.mark ',', .mark '.']
      (gist d (commaSeparated (values.map Operand.tokens)))
      (values.map (Operand.expression d)) := by
    rw [commaSeparated, gist_intercalate, List.map_map, gist_mark (by decide), gist_blank, gist_nil]
    exact takes_sepBy (fun o _ => takes_operand d o) (by simp) hne
  have hclosed := hlist.closed (by simp) rest hrest
  simp only [Predicate.tokens, gist_append, gist_blank, gist_word, gist_identifier,
    gist_parenthesized, List.append_assoc, List.cons_append, List.nil_append] at hclosed ⊢
  rw [test?_identifier column (by simp)]
  simp [relation?, hclosed]

theorem takes_between (d : Dialect) (column : String) (low high : Operand) :
    Takes test? [.mark '.'] (gist d ((Predicate.between column low high).tokens d))
      (.between (.column (partsOf column)) (low.expression d) (high.expression d)) := by
  intro rest hrest
  have hhigh := takes_operand d high rest hrest
  have hlow := takes_operand d low (.word "AND" :: (gist d high.tokens ++ rest)) (by simp)
  simp only [Predicate.tokens, gist_append, gist_blank, gist_word, gist_identifier,
    List.append_assoc, List.cons_append]
  rw [test?_identifier column (by simp)]
  simp [relation?, hlow, hhigh]

theorem takes_phrase (d : Dialect) (column : String) {ws : List String} {t : Test}
    (h : Takes (relation? (.column (partsOf column))) [] (ws.map Token.word) t) :
    Takes test? [.mark '.'] (gist d (identifier column ++ blank :: phrase ws)) t := by
  intro rest hrest
  have hdot : ∀ t ∈ (ws.map Token.word ++ rest).head?, t ≠ .mark '.' := by
    cases ws with
    | nil => simpa using hrest
    | cons w ws => simp
  simp only [gist_append, gist_identifier, gist_blank, gist_phrase, List.append_assoc]
  rw [test?_identifier column hdot]
  exact h rest (by simp)

section

variable {inner : Reader Condition} {stop ts : List Token}

theorem Takes.member {t : Test} (h : Takes test? stop ts t) :
    Takes (member? inner) stop ts (.test t) := fun rest hrest => by
  simp [member?, h rest hrest]

theorem conditionOver_word (ts : List Token) :
    conditionOver inner (.word "jsonb_populate_record" :: ts) = none := rfl

theorem Takes.group {alternatives : Condition}
    (h : Takes (conditionOver inner) stop ts alternatives) (hstop : .mark ')' ∉ stop) :
    Takes (member? (conditionOver inner)) [] (.mark '(' :: (ts ++ [.mark ')']))
      (.group alternatives) := by
  intro rest hrest
  have hgroup := h.closed hstop rest hrest
  -- the word that would make the parenthesis part of an expression begins no condition
  have hhead : ∀ t ∈ (ts ++ [Token.mark ')'] ++ rest).head?,
      t ≠ .word "jsonb_populate_record" := by
    rintro t ht rfl
    obtain ⟨us, hus⟩ := List.head?_eq_some_iff.1 ht
    rw [hus, Sql.closed, conditionOver_word] at hgroup
    cases hgroup
  rw [List.cons_append, member?, test?_group hhead, hgroup]
  rfl

theorem takes_group (d : Dialect) {terms : List (String × Nat)} (hne : terms ≠ []) :
    Takes (member? (conditionOver inner)) [] (gist d ((Predicate.anyLike terms).tokens d))
      (.group (terms.map fun t => [.test (likeTest d t)])) := by
  rw [Predicate.tokens, gist_parenthesized, gist_intercalate, List.map_map, gist_blank, gist_word,
    gist_blank, gist_nil]
  have hstop : Token.mark ')' ∉ [Token.word "OR", .word "AND"] := by decide
  have hterm : ∀ t ∈ terms, Takes (sepBy (member? inner) (.word "AND")) [.word "AND"]
      (gist d (likeTokens d t)) [.test (likeTest d t)] :=
    fun t _ => (takes_likeTokens d t).member.sepBy (by simp)
  exact Takes.group (takes_sepBy hterm (by simp) hne) hstop

/-- A predicate is taken for a single member, whatever stands in its lists. -/
theorem takes_predicate (d : Dialect) {p : Predicate} (hp : p.Filled) :
    Takes (member? (conditionOver inner)) [.mark '.'] (gist d (p.tokens d)) (p.member d) := by
  cases p with
  | compare column op value => exact (takes_compare d column op value).member
  | among column values => exact ((takes_among d column hp).mono (by simp)).member
  | never => exact Takes.member fun rest _ => by simp [Predicate.tokens, test?]
  | between column low high => exact (takes_between d column low high).member
  | anyLike terms => exact (takes_group d hp).mono (by simp)
  | isNull column => exact (takes_phrase d column fun _ _ => rfl).member
  | isNotNull column => exact (takes_phrase d column fun _ _ => rfl).member

theorem takes_conjunction (d : Dialect) (depth : Nat) {ps : List Predicate} (hne : ps ≠ [])
    (hps : ∀ p ∈ ps, p.Filled) :
    Takes (condition? (depth + 1)) [.word "OR", .word "AND", .mark '.']
      (gist d (List.intercalate [blank, .word "AND", blank] (ps.map (Predicate.tokens d))))
      [ps.map (Predicate.member d)] := by
  obtain ⟨inner, hinner⟩ : ∃ inner, condition? depth = conditionOver inner := by
    cases depth <;> exact ⟨_, rfl⟩
  rw [condition?, hinner, gist_intercalate, List.map_map, gist_blank, gist_word, gist_blank, gist_nil]
  have hmembers : Takes (sepBy (member? (conditionOver inner)) (.word "AND"))
      [.word "AND", .mark '.'] (List.intercalate [.word "AND"] (ps.map fun p => gist d (p.tokens d)))
      (ps.map (Predicate.member d)) :=
    takes_sepBy (fun p hp => takes_predicate d (hps p hp)) (by simp) hne
  exact hmembers.sepBy (by simp)

end

/-- A WHERE clause reads as the conjunction of the predicates it was written from. -/
theorem whereClause?_whereTokens (d : Dialect) {ps : List Predicate} (hps : ∀ p ∈ ps, p.Filled) :
    whereClause? d (text d (whereTokens d ps)) = some [ps.map (Predicate.member d)] := by
  have hlegible : Legible (fun _ => True) (whereTokens d ps) :=
    legible_whereTokens fun p _ => p.legible d fun _ _ _ _ => trivial
  obtain ⟨hread, -, -⟩ := hlegible.read_seen d
  by_cases hnone : ps = []
  · rw [whereClause?, hread, hnone]
    rfl
  · have hgist : compact ((whereTokens d ps).map (Token.seen d)) = .word "WHERE" ::
        gist d (List.intercalate [blank, .word "AND", blank] (ps.map (Predicate.tokens d))) := by
      have htokens : whereTokens d ps = blank :: .word "WHERE" :: blank ::
          List.intercalate [blank, .word "AND", blank] (ps.map (Predicate.tokens d)) := by
        simp [whereTokens, hnone]
      rw [htokens]
      exact gist_blank.trans ((gist_word _).trans (by rw [gist_blank]))
    obtain ⟨depth, hdepth⟩ : ∃ depth, ((whereTokens d ps).map (Token.seen d)).length = depth + 1 := by
      simp [whereTokens, hnone]
    have hclause := takes_conjunction d depth hnone hps [] (by simp)
    rw [List.append_nil] at hclause
    simp [whereClause?, hread, hgist, hdepth, hclause]

end Recordkeeper.Sql
