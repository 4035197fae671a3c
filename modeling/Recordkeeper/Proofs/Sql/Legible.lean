import Recordkeeper.Proofs.Query.Template
import Recordkeeper.Proofs.Sql.Reader
import Recordkeeper.Sql.Select

set_option autoImplicit false

namespace Recordkeeper.Sql

def keywords : List String :=
  ["SELECT", "COUNT", "FROM", "WHERE", "AND", "OR", "IN", "BETWEEN", "FALSE", "IS", "NOT", "NULL",
    "CAST", "AS", "TEXT", "LIKE", "ILIKE", "ORDER", "BY", "ASC", "DESC", "LIMIT", "OFFSET",
    "to_jsonb", "jsonb_populate_record"]

def punctuation : List Char := [' ', '.', ',', '(', ')', '*', ':', '=', '<', '>']

def Token.Within (N : List Char → Prop) : Token → Prop
  | .word w => w ∈ keywords
  | .name part => N part
  | .param _ | .number _ => True
  | .mark c => c ∈ punctuation
  | .raw _ => False

structure Legible (N : List Char → Prop) (ts : List Token) : Prop where
  within : ∀ t ∈ ts, t.Within N
  apart : Apart ts

def Allows (N : List Char → Prop) (name : String) : Prop :=
  ∀ part ∈ List.splitOn '.' name.toList, N part

def MarkFirst (ts : List Token) : Prop := ∀ t ∈ ts.head?, t.isMark = true

def MarkLast (ts : List Token) : Prop := ∃ t, ts.getLast? = some t ∧ t.isMark = true

section

variable {N : List Char → Prop} {d : Dialect} {t : Token} {ts us : List Token}

theorem Token.Within.plain (h : t.Within N) : t.Plain := by
  have hword : ∀ w ∈ keywords, Identifier.isName w.toList = true := by decide
  have hmark : ∀ c ∈ punctuation,
      Identifier.isPart c = false ∧ c ∉ ['"', '\x60', '$', '?'] :=
    List.forall_iff_forall_mem.1 (by decide)
  cases t with
  | word w => exact hword w h
  | mark c => exact hmark c h
  | raw clause => cases h
  | name | param | number => trivial

theorem Token.Within.seen (h : t.Within N) (d : Dialect) : (t.seen d).Within N := by
  cases d <;> cases t <;> exact h

/-- A reader finds the tokens again, but for the numbers of places that are not written. -/
theorem Legible.read_seen (h : Legible N ts) (d : Dialect) :
    read? d (text d ts).toList = some (ts.map (Token.seen d)) ∧
      write d (ts.map (Token.seen d)) = (text d ts).toList ∧
      ∀ t ∈ ts.map (Token.seen d), t.Within N := by
  have htext : (text d ts).toList = write d ts := by simp [text]
  refine ⟨?_, ?_, ?_⟩
  · rw [htext]
    exact read?_write (fun t ht => (h.within t ht).plain) h.apart
  · rw [htext, write, write, List.flatMap_map]
    exact List.flatMap_congr fun t _ => write_seen d t
  · intro t ht
    obtain ⟨u, hu, rfl⟩ := List.mem_map.1 ht
    exact (h.within u hu).seen d

theorem Legible.read (h : Legible N ts) (d : Dialect) :
    ∃ read, read? d (text d ts).toList = some read ∧ write d read = (text d ts).toList ∧
      ∀ t ∈ read, t.Within N := ⟨_, h.read_seen d⟩

theorem legible_nil : Legible N [] := ⟨by simp, .nil⟩

theorem legible_singleton (h : t.Within N) : Legible N [t] := ⟨by simpa using h, .singleton t⟩

theorem markFirst_mark (c : Char) (ts : List Token) : MarkFirst (.mark c :: ts) := by
  simp [MarkFirst, Token.isMark]

theorem MarkLast.append_left (h : MarkLast us) (ts : List Token) : MarkLast (ts ++ us) := by
  obtain ⟨t, ht, hm⟩ := h
  exact ⟨t, by simp [List.getLast?_append, ht], hm⟩

theorem Apart.append (h : Apart ts) (h' : Apart us) (hm : MarkLast ts ∨ MarkFirst us) :
    Apart (ts ++ us) := by
  refine List.isChain_append.2 ⟨h, h', fun t ht u hu => ?_⟩
  rcases hm with ⟨t', ht', hm⟩ | hm
  · obtain rfl := Option.some.inj (ht'.symm.trans ht)
    simp [hm]
  · simp [hm u hu]

theorem intercalate_of_forall {P : List Token → Prop} {sep : List Token} (hnil : P [])
    (hsep : ∀ {ts us}, P ts → P us → P (ts ++ sep ++ us)) {runs : List (List Token)}
    (h : ∀ run ∈ runs, P run) : P (List.intercalate sep runs) := by
  induction runs with
  | nil => exact hnil
  | cons run runs ih =>
    obtain ⟨hrun, hruns⟩ := List.forall_mem_cons.1 h
    cases runs with
    | nil => simpa using hrun
    | cons run' runs =>
      rw [List.intercalate_cons_cons]
      exact hsep hrun (ih hruns)

theorem Legible.append (h : Legible N ts) (h' : Legible N us) (hm : MarkLast ts ∨ MarkFirst us) :
    Legible N (ts ++ us) where
  within := List.forall_mem_append.2 ⟨h.within, h'.within⟩
  apart := h.apart.append h'.apart hm

theorem Legible.cons (ht : t.Within N) (h : Legible N ts) (hm : t.isMark = true ∨ MarkFirst ts) :
    Legible N (t :: ts) :=
  (legible_singleton ht).append h (hm.imp_left fun hm => ⟨t, rfl, hm⟩)

theorem Legible.mark (h : Legible N ts) {c : Char} (hc : c ∈ punctuation) :
    Legible N (.mark c :: ts) := h.cons hc (.inl rfl)

theorem Legible.blank (h : Legible N ts) : Legible N (blank :: ts) :=
  h.mark (show ' ' ∈ punctuation by decide)

theorem Legible.wordMark {c : Char} (h : Legible N (.mark c :: ts)) {w : String}
    (hw : w ∈ keywords) : Legible N (.word w :: .mark c :: ts) :=
  h.cons hw (.inr (markFirst_mark c ts))

theorem Legible.word (h : Legible N ts) {w : String} (hw : w ∈ keywords) :
    Legible N (.word w :: Sql.blank :: ts) := h.blank.wordMark hw

theorem Legible.parenthesized (h : Legible N ts) : Legible N (parenthesized ts) :=
  (h.append (legible_nil.mark (show ')' ∈ punctuation by decide)) (.inr (markFirst_mark _ _))).mark
    (by decide)

theorem Legible.call (h : Legible N ts) {w : String} (hw : w ∈ keywords) :
    Legible N (.word w :: Sql.parenthesized ts) := h.parenthesized.wordMark hw

theorem legible_intercalate {sep : List Token} (hsep : Legible N sep) (hfirst : MarkFirst sep)
    (hlast : MarkLast sep) {runs : List (List Token)} (h : ∀ run ∈ runs, Legible N run) :
    Legible N (List.intercalate sep runs) :=
  intercalate_of_forall legible_nil
    (fun hts hus => (hts.append hsep (.inr hfirst)).append hus (.inl (hlast.append_left _))) h

theorem legible_commaSeparated {runs : List (List Token)} (h : ∀ run ∈ runs, Legible N run) :
    Legible N (commaSeparated runs) :=
  legible_intercalate (legible_nil.blank.mark (by decide)) (markFirst_mark _ _) ⟨blank, rfl, rfl⟩ h

theorem legible_joined {w : String} (hw : w ∈ keywords) {runs : List (List Token)}
    (h : ∀ run ∈ runs, Legible N run) : Legible N (List.intercalate [blank, .word w, blank] runs) :=
  legible_intercalate (legible_nil.word hw).blank (markFirst_mark _ _) ⟨blank, rfl, rfl⟩ h

theorem legible_identifier {name : String} (h : Allows N name) : Legible N (identifier name) := by
  refine legible_intercalate (legible_nil.mark (by decide)) (markFirst_mark _ _) ⟨_, rfl, rfl⟩ ?_
  intro run hrun
  obtain ⟨part, hpart, rfl⟩ := List.mem_map.1 hrun
  exact legible_singleton (h part hpart)

theorem legible_phrase {ws : List String} (h : ∀ w ∈ ws, w ∈ keywords) : Legible N (phrase ws) := by
  induction ws with
  | nil => exact legible_nil
  | cons w ws ih =>
    obtain ⟨hw, hws⟩ := List.forall_mem_cons.1 h
    cases ws with
    | nil => exact legible_singleton hw
    | cons w' ws => exact (ih hws).word hw

end

def Operand.names : Operand → List String
  | .plain _ => []
  | .typed record column _ => [record, column]

def Predicate.names : Predicate → List String
  | .compare column _ value => column :: value.names
  | .among column values => column :: values.flatMap Operand.names
  | .never => []
  | .between column low high => column :: (low.names ++ high.names)
  | .anyLike terms => terms.map (·.1)
  | .isNull column | .isNotNull column => [column]

section

variable {N : List Char → Prop} {d : Dialect}

theorem legible_param (n : Nat) : Legible N [.param n] := legible_singleton trivial

theorem Operand.legible (o : Operand) (h : ∀ name ∈ o.names, Allows N name) :
    Legible N o.tokens := by
  cases o with
  | plain n => exact legible_param n
  | typed record column n =>
    obtain ⟨hrecord, hcolumn⟩ : Allows N record ∧ Allows N column := by simpa [names] using h
    have hrow : Legible N (.word "NULL" :: .mark ':' :: .mark ':' ::
        (identifier record ++ [.mark ',', blank, .param n])) := by
      refine .wordMark (.mark (.mark ?_ (by decide)) (by decide)) (by decide)
      exact (legible_identifier hrecord).append ((legible_param n).blank.mark (by decide))
        (.inr (markFirst_mark _ _))
    have hvalue : Legible N (.word "jsonb_populate_record" :: parenthesized (.word "NULL" ::
        .mark ':' :: .mark ':' :: (identifier record ++ [.mark ',', blank, .param n]))) :=
      hrow.call (by decide)
    exact hvalue.parenthesized.append ((legible_identifier hcolumn).mark (by decide))
      (.inr (markFirst_mark _ _))

theorem legible_likeTokens {t : String × Nat} (h : Allows N t.1) :
    Legible N (likeTokens d t) := by
  have hcolumn := legible_identifier h
  have hplace := legible_param (N := N) t.2
  cases d with
  | postgres =>
    have hcast : Legible N (identifier t.1 ++ blank :: phrase ["AS", "TEXT"]) :=
      hcolumn.append (legible_phrase (by decide)).blank (.inr (markFirst_mark _ _))
    have htail : Legible N [blank, .word "ILIKE", blank, .param t.2] := (hplace.word (by decide)).blank
    exact (hcast.call (by decide)).append htail (.inr (markFirst_mark _ _))
  | mysql => exact hcolumn.append (hplace.word (by decide)).blank (.inr (markFirst_mark _ _))

theorem legible_symbol (op : Comparison) : Legible N (op.symbol.toList.map Token.mark) := by
  have hmarks : ∀ c ∈ op.symbol.toList, c ∈ punctuation := by
    cases op <;> exact List.forall_iff_forall_mem.1 (by decide)
  generalize op.symbol.toList = cs at hmarks
  induction cs with
  | nil => exact legible_nil
  | cons c cs ih =>
    obtain ⟨hc, hcs⟩ := List.forall_mem_cons.1 hmarks
    exact (ih hcs).mark hc

theorem Predicate.legible (d : Dialect) (p : Predicate) (h : ∀ name ∈ p.names, Allows N name) :
    Legible N (p.tokens d) := by
  cases p with
  | compare column op value =>
    obtain ⟨hcolumn, hvalue⟩ := List.forall_mem_cons.1 h
    have hright := (legible_symbol op).append (value.legible hvalue).blank (.inr (markFirst_mark _ _))
    exact (legible_identifier hcolumn).append hright.blank (.inr (markFirst_mark _ _))
  | among column values =>
    obtain ⟨hcolumn, hvalues⟩ := List.forall_mem_cons.1 h
    have hlist : Legible N (commaSeparated (values.map Operand.tokens)) := by
      refine legible_commaSeparated fun run hrun => ?_
      obtain ⟨o, ho, rfl⟩ := List.mem_map.1 hrun
      exact o.legible fun name hname => hvalues name (List.mem_flatMap.2 ⟨o, ho, hname⟩)
    have hright := hlist.parenthesized.word (show "IN" ∈ keywords by decide)
    exact (legible_identifier hcolumn).append hright.blank (.inr (markFirst_mark _ _))
  | never => exact legible_singleton (show "FALSE" ∈ keywords by decide)
  | between column low high =>
    obtain ⟨hcolumn, hbounds⟩ := List.forall_mem_cons.1 h
    obtain ⟨hlow, hhigh⟩ := List.forall_mem_append.1 hbounds
    have hand := (high.legible hhigh).word (show "AND" ∈ keywords by decide)
    have hright := (low.legible hlow).append hand.blank (.inr (markFirst_mark _ _))
    have hbetween := hright.word (show "BETWEEN" ∈ keywords by decide)
    exact (legible_identifier hcolumn).append hbetween.blank (.inr (markFirst_mark _ _))
  | anyLike terms =>
    refine (legible_joined (by decide) fun run hrun => ?_).parenthesized
    obtain ⟨t, ht, rfl⟩ := List.mem_map.1 hrun
    exact legible_likeTokens (h t.1 (List.mem_map.2 ⟨t, ht, rfl⟩))
  | isNull column =>
    exact (legible_identifier (h column List.mem_cons_self)).append
      (legible_phrase (by decide)).blank (.inr (markFirst_mark _ _))
  | isNotNull column =>
    exact (legible_identifier (h column List.mem_cons_self)).append
      (legible_phrase (by decide)).blank (.inr (markFirst_mark _ _))

end

section

variable {N : List Char → Prop} {d : Dialect} {table : String}

theorem allows_recordAndColumn (htable : Allows N table) {field : String} (hfield : Allows N field) :
    Allows N (recordAndColumn table field).1 ∧ Allows N (recordAndColumn table field).2 := by
  have hparts : ∀ w ∈ List.splitOn '.' field.toList, '.' ∉ w := fun w hw =>
    Text.not_mem_of_mem_splitOn hw
  have hlast : Allows N (String.ofList ((List.splitOn '.' field.toList).getLast?.getD [])) := by
    cases hl : (List.splitOn '.' field.toList).getLast? with
    | none => exact absurd (List.getLast?_eq_none_iff.1 hl) (List.splitOn_ne_nil _ _)
    | some w =>
      have hw := List.mem_of_getLast? hl
      intro part hpart
      rw [Option.getD_some, String.toList_ofList, List.splitOn_eq_singleton (hparts w hw)] at hpart
      obtain rfl := List.mem_singleton.1 hpart
      exact hfield part hw
  have hsub : ∀ w ∈ (List.splitOn '.' field.toList).dropLast, w ∈ List.splitOn '.' field.toList :=
    fun w hw => (List.dropLast_sublist _).subset hw
  unfold recordAndColumn
  simp only
  generalize (List.splitOn '.' field.toList).dropLast = front at hsub
  cases front with
  | nil => exact ⟨htable, hfield⟩
  | cons v vs =>
    refine ⟨fun part hpart => ?_, hlast⟩
    rw [String.toList_ofList,
      List.splitOn_intercalate '.' (fun w hw => hparts w (hsub w hw)) (by simp)] at hpart
    exact hfield part (hsub part hpart)

theorem allows_operand (htable : Allows N table) {field : String} (hfield : Allows N field) (n : Nat) :
    ∀ name ∈ (operand d table field n).names, Allows N name := by
  obtain ⟨hrecord, hcolumn⟩ := allows_recordAndColumn htable hfield
  cases d <;> simp [operand, Operand.names, hrecord, hcolumn]

theorem allows_predicate (htable : Allows N table) {c : Constraint}
    (hc : ∀ field ∈ c.fields, Allows N field) (bound : Nat) :
    ∀ name ∈ (predicate d table bound c).names, Allows N name := by
  cases c with
  | compare field op value =>
    have hfield := hc field List.mem_cons_self
    exact List.forall_mem_cons.2 ⟨hfield, allows_operand htable hfield _⟩
  | among field values =>
    have hfield := hc field List.mem_cons_self
    cases values with
    | nil => exact fun _ h => by cases h
    | cons v vs =>
      refine List.forall_mem_cons.2 ⟨hfield, fun name hname => ?_⟩
      obtain ⟨o, ho, hname⟩ := List.mem_flatMap.1 hname
      obtain ⟨i, -, rfl⟩ := List.mem_mapIdx.1 ho
      exact allows_operand htable hfield _ name hname
  | range field low high =>
    have hfield := hc field List.mem_cons_self
    exact List.forall_mem_cons.2 ⟨hfield, List.forall_mem_append.2
      ⟨allows_operand htable hfield _, allows_operand htable hfield _⟩⟩
  | anyLike terms =>
    intro name hname
    obtain ⟨t, ht, rfl⟩ := List.mem_map.1 hname
    obtain ⟨i, hi, rfl⟩ := List.mem_mapIdx.1 ht
    exact hc _ (List.mem_map.2 ⟨terms[i], List.getElem_mem hi, rfl⟩)

theorem allows_predicates (htable : Allows N table) {cs : List Constraint}
    (hcs : ∀ c ∈ cs, ∀ field ∈ c.fields, Allows N field) (bound : Nat) :
    ∀ p ∈ predicates d table bound cs, ∀ name ∈ p.names, Allows N name := by
  induction cs generalizing bound with
  | nil => exact fun _ h => by cases h
  | cons c cs ih =>
    obtain ⟨hc, hrest⟩ := List.forall_mem_cons.1 hcs
    exact List.forall_mem_cons.2 ⟨allows_predicate htable hc bound, ih hrest _⟩

end

/-- A query brings allowed names only into a statement, and no text. -/
structure Admissible (N : List Char → Prop) (q : Query) : Prop where
  fields : ∀ c ∈ q.constraints, ∀ field ∈ c.fields, Allows N field
  order : ∀ o, q.order = some o → o.isRead = true ∧ ∀ field ∈ o.fields, Allows N field

section

variable {N : List Char → Prop} {d : Dialect} {table : String} {q : Query}

theorem legible_queryPredicates (htable : Allows N table) (hdeleted : Allows N Column.deletedAt)
    (hq : Admissible N q) (bound : Nat) :
    ∀ p ∈ queryPredicates d table bound q, Legible N (p.tokens d) := by
  refine List.forall_mem_append.2 ⟨fun p hp => ?_, fun p hp => ?_⟩
  · exact p.legible d (allows_predicates htable hq.fields bound p hp)
  · refine p.legible d ?_
    cases hv : q.visibility <;> rw [hv] at hp <;>
      simp only [visibilityPredicate, Option.toList, List.mem_singleton, List.not_mem_nil] at hp
    all_goals
      subst hp
      simpa [Predicate.names] using hdeleted

theorem legible_whereTokens {ps : List Predicate} (h : ∀ p ∈ ps, Legible N (p.tokens d)) :
    Legible N (whereTokens d ps) := by
  unfold whereTokens
  split
  · exact legible_nil
  · refine ((legible_joined (by decide) fun run hrun => ?_).word (by decide)).blank
    obtain ⟨p, hp, rfl⟩ := List.mem_map.1 hrun
    exact h p hp

theorem markFirst_whereTokens (ps : List Predicate) : MarkFirst (whereTokens d ps) := by
  unfold whereTokens
  split
  · simp [MarkFirst]
  · exact markFirst_mark _ _

theorem legible_orderTokens (hq : Admissible N q) : Legible N (orderTokens q.order) := by
  cases ho : q.order with
  | none => exact legible_nil
  | some o =>
    obtain ⟨hread, hfields⟩ := hq.order o ho
    cases o with
    | raw clause => cases hread
    | keys ks =>
      have hkey : ∀ run ∈ ks.map keyTokens, Legible N run := by
        intro run hrun
        obtain ⟨k, hk, rfl⟩ := List.mem_map.1 hrun
        have hname := legible_identifier (hfields k.field (List.mem_map.2 ⟨k, hk, rfl⟩))
        refine hname.append (legible_singleton ?_).blank (.inr (markFirst_mark _ _))
        cases k.direction with
        | ascending => exact (show "ASC" ∈ keywords by decide)
        | descending => exact (show "DESC" ∈ keywords by decide)
      cases ks with
      | nil => exact legible_nil
      | cons k ks =>
        exact ((legible_phrase (by decide)).append (legible_commaSeparated hkey).blank
          (.inr (markFirst_mark _ _))).blank

theorem markFirst_orderTokens (o : Option Order) : MarkFirst (orderTokens o) := by
  unfold orderTokens
  split
  · simp [MarkFirst]
  · simp [MarkFirst]
  · exact markFirst_mark _ _
  · exact markFirst_mark _ _

theorem legible_windowTokens (w : Option Window) : Legible N (windowTokens w) := by
  cases w with
  | none => exact legible_nil
  | some w =>
    have hnumber (n : Nat) : Legible N [.number n] := legible_singleton trivial
    have hoffset := ((hnumber (windowBound w.offset)).word (show "OFFSET" ∈ keywords by decide)).blank
    exact ((hoffset.cons (t := .number _) trivial (.inr (markFirst_mark _ _))).word
      (show "LIMIT" ∈ keywords by decide)).blank

theorem markFirst_windowTokens (w : Option Window) : MarkFirst (windowTokens w) := by
  cases w with
  | none => simp [windowTokens, MarkFirst]
  | some w => exact markFirst_mark _ _

theorem legible_projection (htable : Allows N table) : Legible N (projection d table) := by
  cases d with
  | postgres =>
    have hstar : Legible N (identifier table ++ [.mark '.', .mark '*']) :=
      (legible_identifier htable).append ((legible_nil.mark (by decide)).mark (by decide))
        (.inr (markFirst_mark _ _))
    exact hstar.call (by decide)
  | mysql => exact legible_nil.mark (by decide)

theorem legible_select (htable : Allows N table) (hdeleted : Allows N Column.deletedAt)
    (hq : Admissible N q) (d : Dialect) (w : Option Window) :
    Legible N (select d table q w).tokens := by
  have hwhere := legible_whereTokens (legible_queryPredicates (d := d) htable hdeleted hq 0)
  have hfrom := (((legible_identifier htable).append hwhere (.inr (markFirst_whereTokens _))).append
    (legible_orderTokens hq) (.inr (markFirst_orderTokens _))).append (legible_windowTokens w)
    (.inr (markFirst_windowTokens w))
  have hrow := (legible_projection (d := d) htable).append
    (hfrom.word (show "FROM" ∈ keywords by decide)).blank (.inr (markFirst_mark _ _))
  exact hrow.word (by decide)

theorem legible_count (htable : Allows N table) (hdeleted : Allows N Column.deletedAt)
    (hq : Admissible N q) (d : Dialect) : Legible N (count d table q).tokens := by
  have hwhere := legible_whereTokens (legible_queryPredicates (d := d) htable hdeleted hq 0)
  have hfrom := (legible_identifier htable).append hwhere (.inr (markFirst_whereTokens _))
  have hstar : Legible N [.mark '*'] := legible_nil.mark (by decide)
  have hcount := (hstar.call (show "COUNT" ∈ keywords by decide)).append
    (hfrom.word (show "FROM" ∈ keywords by decide)).blank (.inr (markFirst_mark _ _))
  exact hcount.word (by decide)

end

end Recordkeeper.Sql
