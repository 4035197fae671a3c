import Recordkeeper.Proofs.Identifier
import Recordkeeper.Proofs.Query.Composition
import Recordkeeper.Proofs.Text.Words

set_option autoImplicit false

namespace Recordkeeper

theorem toLower_eq_iff {c k : Char} (hk : k.isLower = true) :
    c.toLower = k ↔ c = k ∨ c = k.toUpper := by
  have hsmall : 'a'.val ≤ k.val ∧ k.val ≤ 'z'.val := by
    unfold Char.isLower at hk
    simpa using hk
  have hupper : k.toUpper.val = k.val + ('A'.val - 'a'.val) := by
    unfold Char.toUpper
    simp only [hsmall, and_self, dite_true]
  have hlower : c.toLower.val =
      if 'A'.val ≤ c.val ∧ c.val ≤ 'Z'.val then c.val + ('a'.val - 'A'.val) else c.val := by
    unfold Char.toLower
    split <;> simp_all
  simp only [Char.ext_iff, hupper, hlower, UInt32.le_iff_toNat_le, ← UInt32.toNat_inj,
    Char.reduceVal, UInt32.reduceSub, UInt32.reduceToNat] at hsmall ⊢
  split <;> simp only [UInt32.toNat_add, UInt32.reduceToNat] <;> omega

namespace Direction

def Spells (d : Direction) (w : List Char) : Prop :=
  List.Forall₂ (fun k c => c = k ∨ c = k.toUpper) d.keyword.toList w

variable {d : Direction} {w : List Char}

theorem isLower_keyword (d : Direction) : ∀ k ∈ d.keyword.toList, k.isLower = true := by
  cases d <;> exact List.forall_iff_forall_mem.1 (by decide)

theorem map_toLower_eq_iff {ks w : List Char} (hks : ∀ k ∈ ks, k.isLower = true) :
    w.map Char.toLower = ks ↔ List.Forall₂ (fun k c => c = k ∨ c = k.toUpper) ks w := by
  induction ks generalizing w with
  | nil => simp
  | cons k ks ih =>
    obtain ⟨hk, hks⟩ := List.forall_mem_cons.1 hks
    cases w with
    | nil => simp
    | cons c w => simp [toLower_eq_iff hk, ih hks]

theorem toLower_eq_keyword_iff {s : String} : s.toLower = d.keyword ↔ d.Spells s.toList := by
  unfold String.toLower
  rw [← String.toList_inj, String.toList_map]
  exact map_toLower_eq_iff d.isLower_keyword

theorem ofKeyword?_eq_some {s : String} : ofKeyword? s = some d ↔ d.Spells s.toList := by
  rw [← toLower_eq_keyword_iff, ofKeyword?]
  split
  · next h => cases d <;> simp [h, keyword]
  · next hasc =>
    split
    · next h => cases d <;> simp [h, keyword]
    · next hdesc => cases d <;> simp [keyword, hasc, hdesc]

theorem Spells.isPart (h : d.Spells w) : ∀ c ∈ w, Identifier.isPart c = true := by
  have hboth : ∀ k ∈ d.keyword.toList,
      Identifier.isPart k = true ∧ Identifier.isPart k.toUpper = true := by
    cases d <;> exact List.forall_iff_forall_mem.1 (by decide)
  unfold Spells at h
  generalize d.keyword.toList = ks at h hboth
  induction h with
  | nil => simp
  | @cons k c ks w hc _ ih =>
    obtain ⟨hk, hks⟩ := List.forall_mem_cons.1 hboth
    refine List.forall_mem_cons.2 ⟨?_, ih hks⟩
    rcases hc with rfl | rfl
    · exact hk.1
    · exact hk.2

theorem Spells.word (h : d.Spells w) : Text.Word w where
  ne_nil := by
    rintro rfl
    have hlen := h.length_eq
    cases d <;> simp [keyword] at hlen
  unbroken c hc := Identifier.isBlank_of_isPart (h.isPart c hc)

end Direction

namespace SortKey

open Text (Blanks Word)

/-- How a key may stand between two commas. -/
inductive Written : SortKey → List Char → Prop where
  | plain {field : String} {before after : List Char} : Identifier.isColumn field = true →
      Blanks before → Blanks after →
      Written ⟨field, .ascending⟩ (before ++ field.toList ++ after)
  | directed {k : SortKey} {before gap word after : List Char} :
      Identifier.isColumn k.field = true → k.direction.Spells word →
      Blanks before → Blanks gap → gap ≠ [] → Blanks after →
      Written k (before ++ k.field.toList ++ (gap ++ word ++ after))

def Lists (clause : String) (keys : List SortKey) : Prop :=
  ∃ parts, parts ≠ [] ∧ clause.toList = [','].intercalate parts ∧
    List.Forall₂ (fun part k => Written k part) parts keys

variable {k : SortKey} {keys : List SortKey} {part : List Char} {clause : String}

theorem word_of_isColumn {field : String} (h : Identifier.isColumn field = true) :
    Word field.toList :=
  have hpath := Identifier.isRelationPath_of_isColumn h
  ⟨Identifier.ne_nil_of_isRelationPath hpath, Identifier.isBlank_of_isRelationPath hpath⟩

theorem ofWords_eq_ok {words : List String} :
    ofWords words = .ok k ↔ Identifier.isColumn k.field = true ∧
      (words = [k.field] ∧ k.direction = .ascending ∨
        ∃ word, words = [k.field, word] ∧ Direction.ofKeyword? word = some k.direction) := by
  constructor
  · intro h
    unfold ofWords at h
    split at h
    · cases h
    · next field rest =>
      split at h
      · cases h
      · next hfield =>
        have hcolumn : Identifier.isColumn field = true := by simpa using hfield
        split at h
        · cases h
          exact ⟨hcolumn, .inl ⟨rfl, rfl⟩⟩
        · next word rest =>
          split at h
          · cases h
          · next d hd =>
            split at h
            · cases h
              exact ⟨hcolumn, .inr ⟨word, rfl, hd⟩⟩
            · cases h
  · rintro ⟨hcolumn, ⟨rfl, hdirection⟩ | ⟨word, rfl, hword⟩⟩
    · simp [ofWords, hcolumn, ← hdirection]
    · simp [ofWords, hcolumn, hword]

theorem map_ofList_eq_iff {ws : List (List Char)} {ss : List String} :
    ws.map String.ofList = ss ↔ ws = ss.map String.toList := by
  constructor
  · rintro rfl
    simp [Function.comp_def]
  · rintro rfl
    simp [Function.comp_def]

theorem written_of_words {before after : List Char} (hbefore : Blanks before)
    (hafter : ∀ c ∈ after.head?, Text.isBlank c = true)
    (hcolumn : Identifier.isColumn k.field = true) {word : String}
    (hword : Direction.ofKeyword? word = some k.direction) (h : Text.words after = [word.toList]) :
    k.Written (before ++ k.field.toList ++ after) := by
  obtain ⟨gap, tail, hgap, hunbroken, -, rfl, htail⟩ := Text.words_eq_cons.1 h
  have hspells := Direction.ofKeyword?_eq_some.1 hword
  refine .directed hcolumn hspells hbefore hgap ?_ (Text.words_eq_nil.1 htail)
  rintro rfl
  obtain ⟨c, w, hc⟩ := List.exists_cons_of_ne_nil hunbroken.ne_nil
  have hblank : Text.isBlank c = true := hafter c (by simp [hc])
  have hunblank : Text.isBlank c = false := hunbroken.unbroken c (by simp [hc])
  cases hblank.symm.trans hunblank

theorem ofWords_words_eq_ok :
    ofWords ((Text.words part).map String.ofList) = .ok k ↔ k.Written part := by
  rw [ofWords_eq_ok]
  constructor
  · rintro ⟨hcolumn, ⟨hwords, hdirection⟩ | ⟨word, hwords, hword⟩⟩
    · obtain ⟨before, after, hbefore, -, -, rfl, hafter⟩ :=
        Text.words_eq_cons.1 (map_ofList_eq_iff.1 hwords)
      obtain ⟨field, direction⟩ := k
      obtain rfl : direction = .ascending := hdirection
      exact .plain hcolumn hbefore (Text.words_eq_nil.1 hafter)
    · obtain ⟨before, after, hbefore, -, hhead, rfl, hafter⟩ :=
        Text.words_eq_cons.1 (map_ofList_eq_iff.1 hwords)
      exact written_of_words hbefore hhead hcolumn hword hafter
  · intro h
    cases h with
    | plain hcolumn hbefore hafter =>
      refine ⟨hcolumn, .inl ⟨map_ofList_eq_iff.2 ?_, rfl⟩⟩
      rw [Text.words_append_blanks hafter, Text.words_blanks_append hbefore,
        Text.words_word (word_of_isColumn hcolumn)]
      rfl
    | @directed _ before gap word after hcolumn hspells hbefore hgap hne hafter =>
      refine ⟨hcolumn, .inr ⟨String.ofList word, map_ofList_eq_iff.2 ?_, ?_⟩⟩
      · obtain ⟨c, gap, rfl⟩ := List.exists_cons_of_ne_nil hne
        have hhead : ∀ d ∈ (c :: gap ++ word ++ after).head?, Text.isBlank d = true := by
          simpa using hgap c List.mem_cons_self
        rw [List.append_assoc, Text.words_blanks_append hbefore,
          Text.words_word_append (word_of_isColumn hcolumn) hhead, Text.words_append_blanks hafter,
          Text.words_blanks_append hgap, Text.words_word hspells.word]
        simp
      · exact Direction.ofKeyword?_eq_some.2 (by simpa using hspells)

theorem Written.comma_not_mem (h : k.Written part) : ',' ∉ part := by
  have hblanks {s : List Char} (hs : Blanks s) : ',' ∉ s := fun hmem => absurd (hs ',' hmem) (by decide)
  have hcolumn {field : String} (hf : Identifier.isColumn field = true) : ',' ∉ field.toList :=
    Identifier.not_mem_of_isRelationPath (Identifier.isRelationPath_of_isColumn hf) (by decide)
      (by decide)
  cases h with
  | plain hc hbefore hafter => simp [hcolumn hc, hblanks hbefore, hblanks hafter]
  | directed hc hspells hbefore hgap hne hafter =>
    have hword := mt (hspells.isPart ',') (by decide)
    simp [hcolumn hc, hblanks hbefore, hblanks hgap, hblanks hafter, hword]

/-- The reader accepts its grammar and nothing else. -/
theorem ofClause_eq_ok : ofClause clause = .ok keys ↔ Lists clause keys := by
  have hparts {parts : List (List Char)} :
      (parts.mapM fun part => ofWords ((Text.words part).map String.ofList)) = .ok keys ↔
        List.Forall₂ (fun part k => Written k part) parts keys := by
    simp only [Table.mapM_eq_ok, ofWords_words_eq_ok]
  constructor
  · intro h
    exact ⟨_, List.splitOn_ne_nil _ _, (List.intercalate_splitOn ',').symm, hparts.1 h⟩
  · rintro ⟨parts, hne, hclause, h⟩
    have hcommas : ∀ part ∈ parts, ',' ∉ part := fun part hpart => by
      obtain ⟨k, hk⟩ := Table.forall_of_mapM (hparts.2 h) part hpart
      exact (ofWords_words_eq_ok.1 hk).comma_not_mem
    rw [ofClause, hclause, List.splitOn_intercalate ',' hcommas hne]
    exact hparts.2 h

theorem ofClause_trimmed (clause : String) : ofClause (Text.trimmed clause) = ofClause clause := by
  have hpieces (s : String) :
      ofClause s = ((List.splitOn ',' s.toList).map Text.words).mapM fun ws =>
        ofWords (ws.map String.ofList) := by
    rw [List.mapM_map]
    rfl
  rw [hpieces, hpieces, Text.trimmed, String.toList_ofList, Text.map_words_splitOn_trim (by decide)]

structure Layout where
  before : List Char := []
  gap : List Char := [' ']
  after : List Char := []
  capital : Nat → Bool := fun _ => false
  before_blanks : Blanks before := by exact Text.blanks_nil
  gap_blanks : Blanks gap := by exact Text.blanks_of_all rfl
  gap_ne_nil : gap ≠ [] := by decide
  after_blanks : Blanks after := by exact Text.blanks_nil

def Layout.cased (l : Layout) (w : List Char) : List Char :=
  w.mapIdx fun i c => if l.capital i then c.toUpper else c

def print (l : Layout) (k : SortKey) : List Char :=
  l.before ++ k.field.toList ++ (l.gap ++ l.cased k.direction.keyword.toList ++ l.after)

def printed (laid : List (Layout × SortKey)) : String :=
  String.ofList ([','].intercalate (laid.map fun x => print x.1 x.2))

theorem spells_cased (l : Layout) (d : Direction) : d.Spells (l.cased d.keyword.toList) := by
  refine List.forall₂_iff_get.2 ⟨by simp [Layout.cased], fun i _ _ => ?_⟩
  simp only [Layout.cased, List.get_eq_getElem, List.getElem_mapIdx]
  split
  · exact .inr rfl
  · exact .inl rfl

theorem written_print (l : Layout) (h : Identifier.isColumn k.field = true) :
    k.Written (print l k) :=
  .directed h (spells_cased l k.direction) l.before_blanks l.gap_blanks l.gap_ne_nil l.after_blanks

theorem ofClause_printed {laid : List (Layout × SortKey)} (hne : laid ≠ [])
    (h : ∀ x ∈ laid, Identifier.isColumn x.2.field = true) :
    ofClause (printed laid) = .ok (laid.map Prod.snd) := by
  refine ofClause_eq_ok.2 ⟨_, by simpa using hne, String.toList_ofList, ?_⟩
  rw [List.forall₂_map_left_iff, List.forall₂_map_right_iff, List.forall₂_same]
  exact fun x hx => written_print x.1 (h x hx)

end SortKey

namespace FilterRequest

open SortKey (Layout)

def unordered (r : FilterRequest) : FilterRequest := { r with order := none }

variable {r : FilterRequest} {options : CompileOptions} {clause : String} {q : Query}

theorem compile_withOrder :
    (r.withOrder clause).compile options = .ok q ↔
      ∃ q₀ o, r.unordered.compile options = .ok q₀ ∧ compileOrder options (some clause) = .ok o ∧
        q = { q₀ with order := o } := by
  simp only [compile_eq_ok, withOrder, unordered, compileOrder_none]
  constructor
  · rintro ⟨hpreloads, clauses, o, hclauses, ho, rfl⟩
    exact ⟨_, o, ⟨hpreloads, clauses, none, hclauses, rfl, rfl⟩, ho, rfl⟩
  · rintro ⟨q₀, o, ⟨hpreloads, clauses, o', hclauses, ho', rfl⟩, ho, rfl⟩
    exact ⟨hpreloads, clauses, o, hclauses, ho, rfl⟩

theorem trimmed_eq_empty {s : String} : Text.trimmed s = "" ↔ Text.Blanks s.toList := by
  rw [← Text.trim_eq_nil, ← String.toList_inj, Text.trimmed, String.toList_ofList]
  rfl

/-- Read strictly, a clause is blank and no order, or is read as keys that may be sorted by. -/
theorem compileOrder_strict {sortable : List String} (hsortable : sortable ≠ []) {o : Option Order} :
    compileOrder { policy := .strict, sortable := sortable } (some clause) = .ok o ↔
      Text.Blanks clause.toList ∧ o = none ∨
        ∃ keys, SortKey.ofClause clause = .ok keys ∧ (∀ k ∈ keys, k.field ∈ sortable) ∧
          o = some (.keys keys) := by
  have hlist : sortable.isEmpty = false := List.isEmpty_eq_false_iff.2 hsortable
  have hfind (keys : List SortKey) :
      (keys.find? fun k => !sortable.isEmpty && !sortable.contains k.field) = none ↔
        ∀ k ∈ keys, k.field ∈ sortable := by
    simp [hlist]
  rw [← trimmed_eq_empty, ← SortKey.ofClause_trimmed clause, compileOrder]
  simp only [Option.getD_some]
  split
  · next hblank =>
    have hunread : SortKey.ofClause "" = .error "empty sort key" := by decide
    simp [hblank, hunread, eq_comm]
  · next hclause =>
    cases hkeys : SortKey.ofClause (Text.trimmed clause) with
    | error m => simp [hclause]
    | ok keys =>
      cases hk : keys.find? fun k => !sortable.isEmpty && !sortable.contains k.field with
      | none =>
        have hall := (hfind keys).1 hk
        simp only [hclause, false_and, false_or, Except.ok.injEq, exists_eq_left']
        rw [hk]
        exact ⟨fun h => ⟨hall, (Except.ok.inj h).symm⟩, fun h => congrArg Except.ok h.2.symm⟩
      | some k =>
        have hnone : ¬ ∀ k ∈ keys, k.field ∈ sortable := fun hall => by
          cases hk.symm.trans ((hfind keys).2 hall)
        simp only [hclause, false_and, false_or, Except.ok.injEq, exists_eq_left', hnone]
        rw [hk]
        exact iff_of_false (fun h => by cases h) not_false

/-- The reader of sort clauses accepts its grammar and nothing else, and finds the keys of every layout
of them. Where the sortable columns are listed, a strict request takes those clauses that it reads as
keys on listed columns; a blank clause is none. -/
theorem sortClause_grammar :
    (∀ clause keys, SortKey.ofClause clause = .ok keys ↔ SortKey.Lists clause keys) ∧
    (∀ laid : List (Layout × SortKey), laid ≠ [] →
      (∀ x ∈ laid, Identifier.isColumn x.2.field = true) →
      SortKey.ofClause (SortKey.printed laid) = .ok (laid.map Prod.snd)) ∧
    ∀ sortable : List String, sortable ≠ [] → ∀ (r : FilterRequest) (clause : String) (q : Query),
      (r.withOrder clause).compile { policy := .strict, sortable := sortable } = .ok q ↔
        ∃ q₀ o, r.unordered.compile { policy := .strict, sortable := sortable } = .ok q₀ ∧
          (Text.Blanks clause.toList ∧ o = none ∨
            ∃ keys, SortKey.ofClause clause = .ok keys ∧ (∀ k ∈ keys, k.field ∈ sortable) ∧
              o = some (.keys keys)) ∧
          q = { q₀ with order := o } := by
  refine ⟨fun _ _ => SortKey.ofClause_eq_ok, fun _ hne h => SortKey.ofClause_printed hne h, ?_⟩
  intro sortable hsortable r clause q
  simp only [compile_withOrder, compileOrder_strict hsortable]

def unevenKeys : List (Layout × SortKey) :=
  [({ before := ['\t', '\x0b'], gap := ['\n', ' '], capital := fun i => i % 2 = 1
      before_blanks := Text.blanks_of_all rfl
      gap_blanks := Text.blanks_of_all rfl }, ⟨"asc", .descending⟩),
    ({ }, ⟨"people.desc", .ascending⟩)]

theorem sortClause_grammar_uneven :
    SortKey.ofClause "\t\x0basc\n dEsC,people.desc asc" =
        .ok [⟨"asc", .descending⟩, ⟨"people.desc", .ascending⟩] ∧
      ∃ q, (FilterRequest.withOrder {} "\t\x0basc\n dEsC,people.desc asc").compile
        { policy := .strict, sortable := ["people.desc", "asc"] } = .ok q := by
  obtain ⟨-, hprinted, hstrict⟩ := sortClause_grammar
  have hread : SortKey.ofClause "\t\x0basc\n dEsC,people.desc asc" =
      .ok [⟨"asc", .descending⟩, ⟨"people.desc", .ascending⟩] :=
    hprinted unevenKeys (by decide) (by decide)
  have hlisted : ∀ k ∈ [(⟨"asc", .descending⟩ : SortKey), ⟨"people.desc", .ascending⟩],
      k.field ∈ ["people.desc", "asc"] := by decide
  exact ⟨hread, _, (hstrict _ (by decide) {} _ _).2
    ⟨{}, _, by decide +kernel, .inr ⟨_, hread, hlisted, rfl⟩, rfl⟩⟩

/-- A blank clause is taken, though it reads as no keys. -/
theorem not_taken_iff_read :
    ¬ ∀ (sortable : List String) (clause : String), sortable ≠ [] →
      ((∃ q, (FilterRequest.withOrder {} clause).compile
          { policy := .strict, sortable := sortable } = .ok q) ↔
        ∃ keys, SortKey.ofClause clause = .ok keys ∧ ∀ k ∈ keys, k.field ∈ sortable) := by
  intro h
  have htaken : (FilterRequest.withOrder {} " ").compile
      { policy := .strict, sortable := ["id"] } = .ok {} := by decide +kernel
  obtain ⟨keys, hkeys, -⟩ := (h ["id"] " " (by decide)).1 ⟨_, htaken⟩
  have hunread : SortKey.ofClause " " = .error "empty sort key" := by decide
  cases hunread.symm.trans hkeys

end FilterRequest

end Recordkeeper
