import Recordkeeper.Proofs.Sql.Legible
import Recordkeeper.Sql.Command

set_option autoImplicit false

namespace Recordkeeper.Sql

abbrev Parts := List (List Char)

def partsOf (name : String) : Parts := List.splitOn '.' name.toList

inductive Origin where
  | record (column : Parts)
  | now
  | null
  deriving DecidableEq

structure SetItem where
  column : Parts
  origin : Origin
  deriving DecidableEq

def name? (ts : List Token) : Option Parts :=
  (ts.splitOn (.mark '.')).mapM fun
    | [.name part] => some part
    | _ => none

def origin? : List Token → Option Origin
  | .word "r" :: .mark '.' :: ts => (name? ts).map .record
  | [.word "now", .mark '(', .mark ')'] => some .now
  | [.word "NULL"] => some .null
  | _ => none

def setItem? (ts : List Token) : Option SetItem :=
  match ts.splitOn (.mark '=') with
  | [column, origin] => do return ⟨← name? column, ← origin? origin⟩
  | _ => none

def compact (ts : List Token) : List Token := ts.filter (· != blank)

def between (first last : Token) (ts : List Token) : List Token :=
  (ts.dropWhile (· != first)).tail.takeWhile (· != last)

def setClause (ts : List Token) : List Token :=
  ((compact ts).dropWhile (· != .word "SET")).tail.takeWhile (· != .word "FROM")

def setList? (text : String) : Option (List SetItem) := do
  let ts ← read? .postgres text.toList
  ((setClause ts).splitOn (.mark ',')).mapM setItem?

def Assignment.item (a : Assignment) : SetItem where
  column := partsOf a.1
  origin := match a.2 with
    | .record => .record (partsOf a.1)
    | .now => .now
    | .null => .null

section

variable {ts us : List Token}

@[simp] theorem compact_append : compact (ts ++ us) = compact ts ++ compact us :=
  List.filter_append ..

@[simp] theorem compact_blank : compact (blank :: ts) = compact ts := rfl

@[simp] theorem compact_word (w : String) : compact (.word w :: ts) = .word w :: compact ts := rfl

theorem compact_mark {c : Char} (h : c ≠ ' ') : compact (.mark c :: ts) = .mark c :: compact ts :=
  List.filter_cons_of_pos (bne_iff_ne.2 (by simpa [blank] using h))

theorem intercalate_map {f : List Token → List Token} (hnil : f [] = [])
    (happend : ∀ ts us, f (ts ++ us) = f ts ++ f us) (sep : List Token) (runs : List (List Token)) :
    f (List.intercalate sep runs) = List.intercalate (f sep) (runs.map f) := by
  induction runs with
  | nil => exact hnil
  | cons run runs ih =>
    cases runs with
    | nil => simp
    | cons run' runs =>
      simp only [List.map_cons] at ih ⊢
      simp only [List.intercalate_cons_cons, happend, ih]

theorem compact_intercalate (sep : List Token) (runs : List (List Token)) :
    compact (List.intercalate sep runs) = List.intercalate (compact sep) (runs.map compact) :=
  intercalate_map rfl (fun _ _ => compact_append) sep runs

theorem compact_eq_self (h : blank ∉ ts) : compact ts = ts := by
  refine List.filter_eq_self.2 fun t ht => bne_iff_ne.2 ?_
  rintro rfl
  exact h ht

theorem not_mem_intercalate {t : Token} {sep : List Token} {runs : List (List Token)}
    (hsep : t ∉ sep) (h : ∀ run ∈ runs, t ∉ run) : t ∉ List.intercalate sep runs :=
  intercalate_of_forall (P := (t ∉ ·)) (by simp) (fun hts hus => by simpa using ⟨hts, hsep, hus⟩) h

theorem between_eq {first last : Token} {before middle rest : List Token} (hbefore : first ∉ before)
    (hmiddle : last ∉ middle) :
    between first last (before ++ first :: (middle ++ last :: rest)) = middle := by
  have hskip : ∀ t ∈ before, (t != first) = true := fun t ht =>
    bne_iff_ne.2 fun h => hbefore (h ▸ ht)
  have hkeep : ∀ t ∈ middle, (t != last) = true := fun t ht =>
    bne_iff_ne.2 fun h => hmiddle (h ▸ ht)
  rw [between, List.dropWhile_append_of_pos hskip, List.dropWhile_cons_of_neg (by simp),
    List.tail_cons, List.takeWhile_append_of_pos hkeep, List.takeWhile_cons_of_neg (by simp),
    List.append_nil]

end

theorem mem_identifier {name : String} {t : Token} (h : t ∈ identifier name) :
    t = .mark '.' ∨ ∃ part, t = .name part := by
  refine intercalate_of_forall (P := fun ts => ∀ t ∈ ts, t = .mark '.' ∨ ∃ part, t = .name part)
    (by simp) (fun hts hus => ?_) (fun run hrun => ?_) t h
  · exact List.forall_mem_append.2 ⟨List.forall_mem_append.2 ⟨hts, by simp⟩, hus⟩
  · obtain ⟨part, -, rfl⟩ := List.mem_map.1 hrun
    simp

theorem not_mem_identifier {name : String} {t : Token} (hdot : t ≠ .mark '.')
    (hname : ∀ part, t ≠ .name part) : t ∉ identifier name := fun h =>
  (mem_identifier h).elim hdot fun ⟨part, hpart⟩ => hname part hpart

theorem partsOf_ne_nil (name : String) : partsOf name ≠ [] := List.splitOn_ne_nil _ _

theorem name?_identifier (name : String) : name? (identifier name) = some (partsOf name) := by
  have hne : (partsOf name).map (fun part => [Token.name part]) ≠ [] := by
    simpa using partsOf_ne_nil name
  have hsplit : (identifier name).splitOn (.mark '.') =
      (partsOf name).map fun part => [Token.name part] :=
    List.splitOn_intercalate _ (by simp) hne
  rw [name?, hsplit, List.mapM_map]
  exact (List.mapM_pure (f := id)).trans (by simp)

def sourceMarks : List Token :=
  [.word "r", .mark '.', .word "now", .mark '(', .mark ')', .word "NULL"]

theorem mem_sourceTokens {column : String} {source : Source} {t : Token}
    (h : t ∈ sourceTokens column source) : t ∈ sourceMarks ∨ ∃ part, t = .name part := by
  cases source with
  | record =>
    rcases List.mem_cons.1 h with rfl | h
    · simp [sourceMarks]
    · rcases List.mem_cons.1 h with rfl | h
      · simp [sourceMarks]
      · exact (mem_identifier h).imp_left (by rintro rfl; simp [sourceMarks])
  | now =>
    simp only [sourceTokens, nowTokens, List.mem_cons, List.not_mem_nil, or_false] at h
    rcases h with rfl | rfl | rfl <;> simp [sourceMarks]
  | null =>
    obtain rfl := List.mem_singleton.1 h
    simp [sourceMarks]

theorem not_mem_sourceTokens {column : String} {source : Source} {t : Token}
    (hmark : t ∉ sourceMarks) (hname : ∀ part, t ≠ .name part) : t ∉ sourceTokens column source :=
  fun h => (mem_sourceTokens h).elim hmark fun ⟨part, hpart⟩ => hname part hpart

section

variable (a : Assignment)

theorem origin?_sourceTokens : origin? (sourceTokens a.1 a.2) = some (Assignment.item a).origin := by
  obtain ⟨column, source⟩ := a
  cases source with
  | record => simp [origin?, sourceTokens, name?_identifier, Assignment.item]
  | now | null => rfl

theorem compact_assignmentTokens : compact (assignmentTokens a) =
    List.intercalate [.mark '='] [identifier a.1, sourceTokens a.1 a.2] := by
  have hname : compact (identifier a.1) = identifier a.1 :=
    compact_eq_self (not_mem_identifier (by decide) (by simp [blank]))
  have hsource : compact (sourceTokens a.1 a.2) = sourceTokens a.1 a.2 :=
    compact_eq_self (not_mem_sourceTokens (by decide) (by simp [blank]))
  simp [assignmentTokens, hname, hsource, compact_mark]

theorem setItem?_assignmentTokens :
    setItem? (compact (assignmentTokens a)) = some (Assignment.item a) := by
  have hsplit : (compact (assignmentTokens a)).splitOn (.mark '=') =
      [identifier a.1, sourceTokens a.1 a.2] := by
    rw [compact_assignmentTokens]
    refine List.splitOn_intercalate _ ?_ (by simp)
    simp only [List.mem_cons, List.not_mem_nil, or_false, forall_eq_or_imp, forall_eq]
    exact ⟨not_mem_identifier (by decide) (by simp), not_mem_sourceTokens (by decide) (by simp)⟩
  simp [setItem?, hsplit, name?_identifier, origin?_sourceTokens, Assignment.item]

theorem not_mem_assignmentTokens {t : Token} (ht : t ∉ .mark '=' :: sourceMarks)
    (hname : ∀ part, t ≠ .name part) : t ∉ compact (assignmentTokens a) := by
  obtain ⟨hequals, hmark⟩ := not_or.1 (mt List.mem_cons.2 ht)
  have hdot : t ≠ .mark '.' := by
    rintro rfl
    exact hmark (by decide)
  have hleft : t ∉ identifier a.1 := not_mem_identifier hdot hname
  have hright : t ∉ sourceTokens a.1 a.2 := not_mem_sourceTokens hmark hname
  simp [compact_assignmentTokens, hleft, hright, hequals]

end

section

variable (table : String) (assignments : List Assignment)

theorem compact_updateTokens : ∃ rest, compact (updateTokens table assignments) =
    .word "UPDATE" :: (identifier table ++ .word "SET" ::
      (List.intercalate [.mark ','] (assignments.map fun a => compact (assignmentTokens a)) ++
        .word "FROM" :: rest)) := by
  have htable : compact (identifier table) = identifier table :=
    compact_eq_self (not_mem_identifier (by decide) (by simp [blank]))
  have hlist : compact (commaSeparated (assignments.map assignmentTokens)) =
      List.intercalate [.mark ','] (assignments.map fun a => compact (assignmentTokens a)) := by
    rw [commaSeparated, compact_intercalate, List.map_map]
    rfl
  obtain ⟨rest, hrest⟩ : ∃ rest, updateTokens table assignments =
      setTokens table assignments ++ blank :: .word "FROM" :: rest := ⟨_, rfl⟩
  refine ⟨compact rest, ?_⟩
  simp only [hrest, setTokens, List.cons_append, List.append_assoc, compact_append, compact_blank,
    compact_word, htable, hlist]

theorem setClause_updateTokens : setClause (updateTokens table assignments) =
    List.intercalate [.mark ','] (assignments.map fun a => compact (assignmentTokens a)) := by
  obtain ⟨rest, hrest⟩ := compact_updateTokens table assignments
  have hset : .word "SET" ∉ .word "UPDATE" :: identifier table := by
    simpa using not_mem_identifier (t := .word "SET") (by decide) (by simp)
  have hfrom : .word "FROM" ∉
      List.intercalate [.mark ','] (assignments.map fun a => compact (assignmentTokens a)) := by
    refine not_mem_intercalate (by simp) fun run hrun => ?_
    obtain ⟨a, -, rfl⟩ := List.mem_map.1 hrun
    exact not_mem_assignmentTokens a (by decide) (by simp)
  have hclause : setClause (updateTokens table assignments) =
      between (.word "SET") (.word "FROM") (compact (updateTokens table assignments)) := rfl
  rw [hclause, hrest, ← List.cons_append, between_eq hset hfrom]

theorem setItems_updateTokens {assignments : List Assignment} (h : assignments ≠ []) :
    ((setClause (updateTokens table assignments)).splitOn (.mark ',')).mapM setItem? =
      some (assignments.map Assignment.item) := by
  rw [setClause_updateTokens, List.splitOn_intercalate _ ?_ (by simpa using h), List.mapM_map]
  · have hread : setItem? ∘ (fun a => compact (assignmentTokens a)) =
        fun a => pure (Assignment.item a) := funext setItem?_assignmentTokens
    rw [hread, List.mapM_pure]
    rfl
  · intro run hrun
    obtain ⟨a, -, rfl⟩ := List.mem_map.1 hrun
    exact not_mem_assignmentTokens a (by decide) (by simp)

end

structure Readable (ts : List Token) : Prop where
  plain : ∀ t ∈ ts, t.Plain
  apart : Apart ts

section

variable {ts us : List Token}

theorem Readable.read (h : Readable ts) : read? .postgres (text .postgres ts).toList = some ts := by
  have hseen : ts.map (Token.seen .postgres) = ts := by
    conv_rhs => rw [← List.map_id ts]
    exact List.map_congr_left fun t _ => by cases t <;> rfl
  rw [text, String.toList_ofList]
  exact (read?_write h.plain h.apart).trans (by rw [hseen])

theorem Legible.readable {N : List Char → Prop} (h : Legible N ts) : Readable ts :=
  ⟨fun t ht => (h.within t ht).plain, h.apart⟩

theorem readable_nil : Readable [] := ⟨by simp, .nil⟩

theorem readable_singleton {t : Token} (h : t.Plain) : Readable [t] :=
  ⟨by simpa using h, .singleton t⟩

theorem Readable.append (h : Readable ts) (h' : Readable us) (hm : MarkLast ts ∨ MarkFirst us) :
    Readable (ts ++ us) :=
  ⟨List.forall_mem_append.2 ⟨h.plain, h'.plain⟩, h.apart.append h'.apart hm⟩

theorem Readable.mark (h : Readable ts) {c : Char}
    (hc : Identifier.isPart c = false ∧ c ∉ ['"', '\x60', '$', '?']) : Readable (.mark c :: ts) :=
  (readable_singleton (t := .mark c) hc).append h (.inl ⟨_, rfl, rfl⟩)

theorem Readable.blank (h : Readable ts) : Readable (blank :: ts) := h.mark (by decide)

theorem Readable.word (h : Readable ts) {w : String} (hw : Identifier.isName w.toList = true)
    (hm : MarkFirst ts) : Readable (.word w :: ts) :=
  (readable_singleton (t := .word w) hw).append h (.inr hm)

theorem readable_param (n : Nat) : Readable [.param n] := readable_singleton trivial

theorem readable_identifier (name : String) : Readable (identifier name) :=
  (legible_identifier (N := fun _ => True) fun _ _ => trivial).readable

theorem readable_phrase {ws : List String} (h : ∀ w ∈ ws, Identifier.isName w.toList = true) :
    Readable (phrase ws) := by
  induction ws with
  | nil => exact readable_nil
  | cons w ws ih =>
    obtain ⟨hw, hws⟩ := List.forall_mem_cons.1 h
    cases ws with
    | nil => exact readable_nil.word hw (by simp [MarkFirst])
    | cons w' ws => exact (ih hws).blank.word hw (markFirst_mark _ _)

theorem Readable.parenthesized (h : Readable ts) : Readable (parenthesized ts) :=
  (h.append (readable_nil.mark (c := ')') (by decide)) (.inr (markFirst_mark _ _))).mark (by decide)

theorem readable_commaSeparated {runs : List (List Token)} (h : ∀ run ∈ runs, Readable run) :
    Readable (commaSeparated runs) := by
  have hcomma : Readable [.mark ',', Sql.blank] := readable_nil.blank.mark (by decide)
  exact intercalate_of_forall readable_nil (fun hts hus =>
    (hts.append hcomma (.inr (markFirst_mark _ _))).append hus (.inl ⟨Sql.blank, by simp, rfl⟩)) h

theorem readable_sourceTokens (a : Assignment) : Readable (sourceTokens a.1 a.2) := by
  cases a.2 with
  | record =>
    exact ((readable_identifier a.1).mark (by decide)).word (by decide) (markFirst_mark _ _)
  | now => exact (readable_nil.parenthesized).word (by decide) (markFirst_mark _ _)
  | null => exact readable_nil.word (by decide) (by simp [MarkFirst])

theorem readable_assignmentTokens (a : Assignment) : Readable (assignmentTokens a) := by
  have hright : Readable ([Sql.blank, .mark '=', Sql.blank] ++ sourceTokens a.1 a.2) :=
    ((readable_sourceTokens a).blank.mark (by decide)).blank
  rw [assignmentTokens, List.append_assoc]
  exact (readable_identifier a.1).append hright (.inr (markFirst_mark _ _))

theorem readable_recordTokens (table : String) : Readable (recordTokens table) := by
  have harguments : Readable (.word "NULL" :: .mark ':' :: .mark ':' ::
      (identifier table ++ [.mark ',', Sql.blank, .param 1])) := by
    refine .word (.mark (.mark ?_ (by decide)) (by decide)) (by decide) (markFirst_mark _ _)
    exact (readable_identifier table).append ((readable_param 1).blank.mark (by decide))
      (.inr (markFirst_mark _ _))
  have halias : Readable (phrase ["AS", "r"]) := readable_phrase (by decide)
  exact (harguments.parenthesized.append halias.blank (.inr (markFirst_mark _ _))).word (by decide)
    (markFirst_mark _ _)

theorem readable_setTokens (table : String) (assignments : List Assignment) :
    Readable (setTokens table assignments) := by
  have hlist : Readable (commaSeparated (assignments.map assignmentTokens)) := by
    refine readable_commaSeparated fun run hrun => ?_
    obtain ⟨a, -, rfl⟩ := List.mem_map.1 hrun
    exact readable_assignmentTokens a
  exact ((readable_identifier table).append (hlist.blank.word (by decide) (markFirst_mark _ _)).blank
    (.inr (markFirst_mark _ _))).blank.word (by decide) (markFirst_mark _ _)

theorem readable_equalsParam {column : List Token} (h : Readable column) (n : Nat) :
    Readable (equalsParam column n) :=
  h.append (((readable_param n).blank.mark (by decide)).blank) (.inr (markFirst_mark _ _))

theorem Readable.and (h : Readable ts) (h' : Readable us) : Readable (ts ++ andTokens ++ us) := by
  have hand : Readable andTokens := (readable_nil.blank.word (by decide) (markFirst_mark _ _)).blank
  have hmark : MarkLast andTokens := ⟨Sql.blank, rfl, rfl⟩
  exact (h.append hand (.inr (markFirst_mark _ _))).append h' (.inl (hmark.append_left _))

theorem Readable.afterWhere (h : Readable ts) :
    Readable (Sql.blank :: .word "WHERE" :: Sql.blank :: ts) :=
  (h.blank.word (by decide) (markFirst_mark _ _)).blank

theorem readable_updateTokens (table : String) (assignments : List Assignment) :
    Readable (updateTokens table assignments) := by
  have hqualified (column : String) :
      Readable (identifier table ++ .mark '.' :: identifier column) :=
    (readable_identifier table).append ((readable_identifier column).mark (by decide))
      (.inr (markFirst_mark _ _))
  have hnull : Readable (Sql.blank :: phrase ["IS", "NULL"]) := (readable_phrase (by decide)).blank
  have hrow := (readable_equalsParam (hqualified Column.id) 2).and (hqualified Column.deletedAt)
  have hlive := hrow.append hnull (.inr (markFirst_mark _ _))
  have hfrom := (readable_recordTokens table).append hlive.afterWhere (.inr (markFirst_mark _ _))
  exact (readable_setTokens table assignments).append
    (hfrom.blank.word (by decide) (markFirst_mark _ _)).blank (.inr (markFirst_mark _ _))

end

/-- An update reads as the assignments it was written from. -/
theorem setList?_updateTokens (table : String) {assignments : List Assignment}
    (h : assignments ≠ []) :
    setList? (text .postgres (updateTokens table assignments)) =
      some (assignments.map Assignment.item) := by
  simp [setList?, (readable_updateTokens table assignments).read, setItems_updateTokens table h]

end Recordkeeper.Sql
