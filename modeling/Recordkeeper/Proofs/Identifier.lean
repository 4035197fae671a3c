import Recordkeeper.Identifier

set_option autoImplicit false

namespace Recordkeeper.Identifier

def qualify (column : String) : Option String → String
  | none => column
  | some table => table ++ "." ++ column

variable {column : String}

theorem isPart_of_isStart {c : Char} (h : isStart c = true) : isPart c = true := by
  simp only [isStart, Bool.or_eq_true, decide_eq_true_eq] at h
  simp only [isPart, Char.isAlphanum, Bool.or_eq_true, decide_eq_true_eq]
  exact h.imp_left .inl

theorem isPart_of_isName {w : List Char} (h : isName w = true) : ∀ c ∈ w, isPart c = true := by
  cases w with
  | nil => cases h
  | cons c w =>
    obtain ⟨hstart, hrest⟩ := Bool.and_eq_true_iff.1 h
    exact List.forall_mem_cons.2 ⟨isPart_of_isStart hstart, List.all_eq_true.1 hrest⟩

theorem not_mem_of_isName {w : List Char} (h : isName w = true) : '.' ∉ w := fun hmem =>
  absurd (isPart_of_isName h '.' hmem) (by decide)

theorem isBlank_of_isPart {c : Char} (h : isPart c = true) : Text.isBlank c = false := by
  change (((decide (c.val ≥ 65 ∧ c.val ≤ 90) || (decide (c.val ≥ 97) && decide (c.val ≤ 122))) ||
    (decide (c.val ≥ 48) && decide (c.val ≤ 57))) || decide (c = '_')) = true at h
  simp only [Bool.or_eq_true, Bool.and_eq_true, decide_eq_true_eq, ge_iff_le,
    UInt32.le_iff_toNat_le, show c.val.toNat = c.toNat from rfl, UInt32.reduceToNat] at h
  rcases h with h | rfl
  · simp only [Text.isBlank, Bool.or_eq_false_iff, Bool.and_eq_false_iff, decide_eq_false_iff_not,
      beq_eq_false_iff_ne]
    omega
  · decide

theorem isRelationPath_of_isColumn (h : isColumn column = true) : isRelationPath column = true :=
  (Bool.and_eq_true_iff.1 h).2

theorem dot_or_isPart {path : String} (h : isRelationPath path = true) :
    ∀ c ∈ path.toList, c = '.' ∨ isPart c = true := by
  intro c hc
  have hjoin : ['.'].intercalate (path.toList.splitOn '.') = path.toList :=
    List.intercalate_splitOn '.'
  rw [← hjoin] at hc
  exact (Text.mem_of_mem_intercalate hc).imp_right fun ⟨w, hw, hcw⟩ =>
    isPart_of_isName (List.all_eq_true.1 h w hw) c hcw

theorem ne_nil_of_isRelationPath {path : String} (h : isRelationPath path = true) :
    path.toList ≠ [] := fun hnone => by
  rw [isRelationPath, hnone] at h
  exact absurd h (by decide)

theorem not_mem_of_isRelationPath {path : String} (h : isRelationPath path = true) {c : Char}
    (hdot : c ≠ '.') (hpart : isPart c = false) : c ∉ path.toList := fun hc =>
  (dot_or_isPart h c hc).elim hdot fun htrue => Bool.false_ne_true (hpart.symm.trans htrue)

theorem isBlank_of_isRelationPath {path : String} (h : isRelationPath path = true) :
    ∀ c ∈ path.toList, Text.isBlank c = false := fun c hc =>
  (dot_or_isPart h c hc).elim (fun hdot => hdot ▸ by decide) isBlank_of_isPart

theorem unqualified_of_bare {c : String} (h : '.' ∉ c.toList) : unqualified c = c := by
  simp [unqualified, List.splitOn_eq_singleton h]

theorem not_mem_unqualified (s : String) : '.' ∉ (unqualified s).toList := by
  unfold unqualified
  rw [String.toList_ofList]
  cases hlast : (List.splitOn '.' s.toList).getLast? with
  | none => simp
  | some w => exact Text.not_mem_of_mem_splitOn (List.mem_of_getLast? hlast)

theorem splitOn_qualify (hcolumn : isName column.toList = true) (table : String) :
    List.splitOn '.' (qualify column (some table)).toList =
      List.splitOn '.' table.toList ++ [column.toList] := by
  have hlist : (qualify column (some table)).toList = table.toList ++ '.' :: column.toList := by
    simp [qualify]
  rw [hlist, List.splitOn_append_cons_self, List.splitOn_eq_singleton (not_mem_of_isName hcolumn)]

theorem unqualified_qualify (hcolumn : isName column.toList = true) (table : Option String) :
    unqualified (qualify column table) = column := by
  cases table with
  | none => exact unqualified_of_bare (not_mem_of_isName hcolumn)
  | some table => simp [unqualified, splitOn_qualify hcolumn]

theorem isColumn_qualify (hcolumn : isName column.toList = true) (table : Option String) :
    isColumn (qualify column table) = true ↔ ∀ t ∈ table, isName t.toList = true := by
  cases table with
  | none =>
    simp [isColumn, isRelationPath, qualify, List.splitOn_eq_singleton (not_mem_of_isName hcolumn),
      hcolumn]
  | some table =>
    simp only [isColumn, isRelationPath, splitOn_qualify hcolumn, Bool.and_eq_true, decide_eq_true_eq,
      List.length_append, List.length_singleton, List.all_append, List.all_cons, List.all_nil,
      hcolumn, Bool.and_true, Option.mem_some_iff, forall_eq']
    constructor
    · rintro ⟨hlen, hall⟩
      cases hs : List.splitOn '.' table.toList with
      | nil => exact absurd hs (List.splitOn_ne_nil _ _)
      | cons w ws =>
        rw [hs] at hlen hall
        have hnone : ws.length = 0 := by
          rw [List.length_cons] at hlen
          omega
        obtain rfl := List.length_eq_zero_iff.1 hnone
        have hjoin : ['.'].intercalate (table.toList.splitOn '.') = table.toList :=
          List.intercalate_splitOn '.'
        rw [hs, List.intercalate_singleton] at hjoin
        rw [← hjoin]
        simpa using hall
    · intro htable
      rw [List.splitOn_eq_singleton (not_mem_of_isName htable)]
      simp [htable]

end Recordkeeper.Identifier
