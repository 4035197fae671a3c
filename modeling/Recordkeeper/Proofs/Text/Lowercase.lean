import Recordkeeper.Proofs.Text.Like
import Recordkeeper.Text.Lowercase

/-!
Lowercase of the parts of a text. All characters but the capital sigma have one lowercase wherever
they stand; a capital sigma may be given another form where its word goes on beyond the part. A
pattern therefore finds a text that holds what stands between its percent signs, unless a sigma of
that part has its form from what stands around it.
-/

set_option autoImplicit false

namespace Recordkeeper.Text

section Cased

variable {s : List Char}

theorem startsCased_cons (c : Char) (s : List Char) :
    startsCased (c :: s) = if isCaseIgnorable c then startsCased s else isCased c := by
  rw [startsCased, List.dropWhile_cons]
  split <;> rfl

theorem startsCased_append_of_all (h : s.all isCaseIgnorable = true) (t : List Char) :
    startsCased (s ++ t) = startsCased t := by
  induction s with
  | nil => rfl
  | cons c s ih =>
    obtain ⟨hc, hs⟩ := Bool.and_eq_true_iff.1 h
    rw [List.cons_append, startsCased_cons, if_pos hc, ih hs]

theorem startsCased_of_all (h : s.all isCaseIgnorable = true) : startsCased s = false := by
  rw [← List.append_nil s, startsCased_append_of_all h]
  rfl

theorem startsCased_append_of_not_all (h : s.all isCaseIgnorable = false) (t : List Char) :
    startsCased (s ++ t) = startsCased s := by
  induction s with
  | nil => cases h
  | cons c s ih =>
    rw [List.cons_append, startsCased_cons, startsCased_cons]
    cases hc : isCaseIgnorable c with
    | true =>
      rw [List.all_cons, hc, Bool.true_and] at h
      rw [ih h]
    | false => rfl

theorem startsCased_append_of_startsCased (h : startsCased s = true) (t : List Char) :
    startsCased (s ++ t) = true := by
  cases hs : s.all isCaseIgnorable with
  | true => rw [startsCased_of_all hs] at h; cases h
  | false => rw [startsCased_append_of_not_all hs, h]

theorem startsCased_append_percent (s : List Char) : startsCased (s ++ ['%']) = startsCased s := by
  cases hs : s.all isCaseIgnorable with
  | true =>
    rw [startsCased_append_of_all hs, startsCased_of_all hs]
    decide +kernel
  | false => rw [startsCased_append_of_not_all hs]

end Cased

/-- Lowercase of a character at its place, with what stands before it held in reverse. -/
def lowerAt (before : List Char) (c : Char) (after : List Char) : List Char :=
  if c = 'Σ' then [sigmaFor before after] else lowerChar c

def lowerAmid (before : List Char) : List Char → List Char → List Char
  | [], _ => []
  | c :: r, after => lowerAt before c (r ++ after) ++ lowerAmid (c :: before) r after

theorem lowerAmid_append (before s t after : List Char) :
    lowerAmid before (s ++ t) after =
      lowerAmid before s (t ++ after) ++ lowerAmid (s.reverse ++ before) t after := by
  induction s generalizing before with
  | nil => rfl
  | cons c s ih =>
    simp only [List.cons_append, lowerAmid, ih, List.append_assoc, List.reverse_cons,
      List.nil_append]

theorem lower_eq_lowerAmid (s : List Char) : lower s = lowerAmid [] s [] := by
  suffices h : ∀ before, lowerAfter before s = lowerAmid before s [] from h []
  induction s with
  | nil => exact fun _ => rfl
  | cons c s ih =>
    intro before
    rw [lowerAfter, lowerAmid, lowerAt, ih, List.append_nil]

theorem lower_parts (a v b : List Char) :
    lower (a ++ v ++ b) =
      lowerAmid [] a (v ++ b) ++ lowerAmid a.reverse v b ++
        lowerAmid (v.reverse ++ a.reverse) b [] := by
  rw [lower_eq_lowerAmid, lowerAmid_append, lowerAmid_append]
  simp

section Sigma

variable {v before after before' after' : List Char} {R : Char → Char → Prop}

def FormsRelated (R : Char → Char → Prop) (v before after before' after' : List Char) : Prop :=
  ∀ p q, v = p ++ 'Σ' :: q →
    R (sigmaFor (p.reverse ++ before) (q ++ after)) (sigmaFor (p.reverse ++ before') (q ++ after'))

theorem FormsRelated.head {c : Char} (h : FormsRelated R (c :: v) before after before' after')
    (hc : c = 'Σ') : R (sigmaFor before (v ++ after)) (sigmaFor before' (v ++ after')) :=
  h [] v (hc ▸ rfl)

theorem FormsRelated.tail {c : Char} (h : FormsRelated R (c :: v) before after before' after') :
    FormsRelated R v (c :: before) after (c :: before') after' := fun p q hv => by
  simpa using h (c :: p) q (by rw [hv, List.cons_append])

theorem lowerAmid_congr (h : FormsRelated (· = ·) v before after before' after') :
    lowerAmid before v after = lowerAmid before' v after' := by
  induction v generalizing before before' with
  | nil => rfl
  | cons c v ih =>
    have hhere : lowerAt before c (v ++ after) = lowerAt before' c (v ++ after') := by
      unfold lowerAt
      split
      · next hc => exact congrArg ([·]) (h.head hc)
      · rfl
    rw [lowerAmid, lowerAmid, ih h.tail, hhere]

/-- The part by itself and the part at its place have their sigmas alike. -/
def KeepsForms (a v b : List Char) : Prop := FormsRelated (· = ·) v a.reverse b [] []

theorem keepsForms_percent (v : List Char) : KeepsForms ['%'] v ['%'] := fun p q _ => by
  simp only [sigmaFor, List.reverse_singleton, startsCased_append_percent, List.append_nil]

theorem lowerAmid_of_keepsForms {a b : List Char} (h : KeepsForms a v b) :
    lowerAmid a.reverse v b = lower v := by
  rw [lower_eq_lowerAmid]
  exact lowerAmid_congr h

theorem lower_percent (v : List Char) : lower ('%' :: v ++ ['%']) = '%' :: lower v ++ ['%'] := by
  have hparts := lower_parts ['%'] v ['%']
  rw [lowerAmid_of_keepsForms (keepsForms_percent v)] at hparts
  exact hparts

end Sigma

theorem Spans.self (c : Char) : Spans c [c] := by
  by_cases hrun : c = '%'
  · subst hrun
    exact .run ['%']
  · exact (spans_iff hrun).2 ⟨c, rfl, .inr rfl⟩

theorem LaidOver.self (s : List Char) : LaidOver s s := by
  induction s with
  | nil => exact laidOver_nil.2 rfl
  | cons c s ih => exact laidOver_cons.2 ⟨[c], s, .self c, ih, rfl⟩

theorem LaidOver.append {ps qs s t : List Char} (hs : LaidOver ps s) (ht : LaidOver qs t) :
    LaidOver (ps ++ qs) (s ++ t) := by
  obtain ⟨pieces, hpieces, rfl⟩ := hs
  obtain ⟨pieces', hpieces', rfl⟩ := ht
  exact ⟨pieces ++ pieces', List.rel_append hpieces hpieces', by simp⟩

theorem laidOver_percent (s : List Char) : LaidOver ['%'] s :=
  laidOver_cons.2 ⟨s, [], .run s, laidOver_nil.2 rfl, by simp⟩

theorem like_of_keepsForms {a v b : List Char} (h : KeepsForms a v b) :
    like (a ++ v ++ b) ('%' :: v ++ ['%']) = true := by
  rw [like_iff_laidOver, lower_percent, lower_parts, lowerAmid_of_keepsForms h]
  exact ((laidOver_percent _).append (.self _)).append (laidOver_percent _)

section Settled

variable {v : List Char}

/-- No capital sigma of a text has its form from what may stand around the text: where none but
ignorable characters stand before it, letters follow, and where none but ignorable ones follow, no
letters stand before it. -/
def SigmaSettled (v : List Char) : Prop :=
  ∀ p q, v = p ++ 'Σ' :: q →
    (p.all isCaseIgnorable = true → startsCased q = true) ∧
      (q.all isCaseIgnorable = true → startsCased p.reverse = false)

theorem sigmaSettled_of_not_mem (h : 'Σ' ∉ v) : SigmaSettled v := fun p _ hv =>
  absurd (hv ▸ List.mem_append_right p List.mem_cons_self) h

theorem SigmaSettled.keepsForms (h : SigmaSettled v) (a b : List Char) : KeepsForms a v b := by
  intro p q hv
  obtain ⟨hbefore, hafter⟩ := h p q hv
  rw [List.append_nil, List.append_nil]
  cases hp : p.all isCaseIgnorable with
  | true =>
    have hq := hbefore hp
    simp [sigmaFor, hq, startsCased_append_of_startsCased hq]
  | false =>
    have hp' : p.reverse.all isCaseIgnorable = false := by rw [List.all_reverse, hp]
    cases hq : q.all isCaseIgnorable with
    | true => simp [sigmaFor, startsCased_append_of_not_all hp', hafter hq]
    | false =>
      simp only [sigmaFor, startsCased_append_of_not_all hp', startsCased_append_of_not_all hq]

theorem count_spans {p c : Char} {piece : List Char} (hrun : c ≠ '%') (hone : c ≠ '_')
    (h : Spans p piece) : [p].count c ≤ piece.count c := by
  cases h with
  | run => simp [Ne.symm hrun]
  | one => simp [Ne.symm hone]
  | same => exact Nat.le_refl _

theorem LaidOver.count_le {pattern text : List Char} {c : Char} (hrun : c ≠ '%') (hone : c ≠ '_')
    (h : LaidOver pattern text) : pattern.count c ≤ text.count c := by
  induction pattern generalizing text with
  | nil => simp
  | cons p pattern ih =>
    obtain ⟨piece, rest, hp, hrest, rfl⟩ := laidOver_cons.1 h
    rw [← List.singleton_append, List.count_append, List.count_append]
    exact Nat.add_le_add (count_spans hrun hone hp) (ih hrest)

section Forms

variable {before after before' after' : List Char} {x : Char}

def Stays (x c d : Char) : Prop := c = x → d = x

theorem count_lowerAt_le {c : Char}
    (h : FormsRelated (Stays x) (c :: v) before after before' after') :
    (lowerAt before c (v ++ after)).count x ≤ (lowerAt before' c (v ++ after')).count x := by
  unfold lowerAt
  split
  · next hc =>
    by_cases hx : sigmaFor before (v ++ after) = x
    · exact Nat.le_of_eq (by rw [hx, h.head hc hx])
    · simp [hx]
  · exact Nat.le_refl _

theorem count_lowerAmid_le (h : FormsRelated (Stays x) v before after before' after') :
    (lowerAmid before v after).count x ≤ (lowerAmid before' v after').count x := by
  induction v generalizing before before' with
  | nil => exact Nat.le_refl _
  | cons c v ih =>
    rw [lowerAmid, lowerAmid, List.count_append, List.count_append]
    exact Nat.add_le_add (count_lowerAt_le h) (ih h.tail)

theorem count_lowerAmid_lt {p q : List Char}
    (h : FormsRelated (Stays x) v before after before' after') (hv : v = p ++ 'Σ' :: q)
    (hwithout : sigmaFor (p.reverse ++ before) (q ++ after) ≠ x)
    (hwith : sigmaFor (p.reverse ++ before') (q ++ after') = x) :
    (lowerAmid before v after).count x < (lowerAmid before' v after').count x := by
  subst hv
  induction p generalizing before before' with
  | nil =>
    rw [List.nil_append] at h ⊢
    rw [lowerAmid, lowerAmid, List.count_append, List.count_append]
    refine Nat.add_lt_add_of_lt_of_le ?_ (count_lowerAmid_le h.tail)
    simp only [List.reverse_nil, List.nil_append] at hwithout hwith
    simp [lowerAt, hwithout, hwith]
  | cons c p ih =>
    rw [List.cons_append] at h ⊢
    rw [lowerAmid, lowerAmid, List.count_append, List.count_append]
    refine Nat.add_lt_add_of_le_of_lt (count_lowerAt_le h) (ih ?_ ?_ h.tail)
    · simpa using hwithout
    · simpa using hwith

end Forms

theorem sigmaFor_eq_final {before after : List Char} :
    sigmaFor before after = 'ς' ↔ startsCased before = true ∧ startsCased after = false := by
  cases hb : startsCased before <;> cases ha : startsCased after <;> simp [sigmaFor, hb, ha]

theorem sigmaFor_eq_medial {before after : List Char} :
    sigmaFor before after = 'σ' ↔ (startsCased before = true → startsCased after = true) := by
  cases hb : startsCased before <;> cases ha : startsCased after <;> simp [sigmaFor, hb, ha]

theorem startsCased_letter : startsCased ['A'] = true := by decide +kernel

theorem lower_letter_first (v : List Char) : lower ('A' :: v) = 'a' :: lowerAmid ['A'] v [] := by
  rw [lower_eq_lowerAmid]
  rfl

theorem lower_letter_last (v : List Char) :
    lower (v ++ ['A']) = lowerAmid [] v ['A'] ++ ['a'] := by
  rw [lower_eq_lowerAmid, lowerAmid_append]
  rfl

theorem not_like_of_count {x : Char} {text v : List Char} (hrun : x ≠ '%') (hone : x ≠ '_')
    (h : (lower text).count x < (lower v).count x) : ¬ like text ('%' :: v ++ ['%']) := by
  intro hlike
  have hcount := ((like_iff_laidOver _ _).1 hlike).count_le hrun hone
  rw [lower_percent, List.count_append, List.count_cons] at hcount
  omega

/-- A letter in front of a text makes the sigma of its first word final that no letter follows. -/
theorem not_like_letter_first {p q : List Char} (hv : v = p ++ 'Σ' :: q)
    (hp : p.all isCaseIgnorable = true) (hq : startsCased q = false) :
    ¬ like ('A' :: v) ('%' :: v ++ ['%']) := by
  have hp' : p.reverse.all isCaseIgnorable = true := by rw [List.all_reverse, hp]
  have hstay : FormsRelated (Stays 'σ') v ['A'] [] [] [] := by
    intro p q _ h
    rw [sigmaFor_eq_medial] at h ⊢
    rw [List.append_nil]
    exact fun hbefore => h (startsCased_append_of_startsCased hbefore _)
  have hfewer := count_lowerAmid_lt hstay hv
    (by simp [sigmaFor_eq_medial, startsCased_append_of_all hp', startsCased_letter, hq])
    (by simp [sigmaFor_eq_medial, startsCased_of_all hp'])
  rw [← lower_eq_lowerAmid] at hfewer
  refine not_like_of_count (x := 'σ') (by decide) (by decide) ?_
  rw [lower_letter_first, List.count_cons_of_ne (by decide)]
  exact hfewer

theorem not_like_letter_last {p q : List Char} (hv : v = p ++ 'Σ' :: q)
    (hq : q.all isCaseIgnorable = true) (hp : startsCased p.reverse = true) :
    ¬ like (v ++ ['A']) ('%' :: v ++ ['%']) := by
  have hstay : FormsRelated (Stays 'ς') v [] ['A'] [] [] := by
    intro p q _ h
    rw [sigmaFor_eq_final] at h ⊢
    refine ⟨h.1, ?_⟩
    rw [List.append_nil]
    cases hafter : startsCased q with
    | true => exact absurd h.2 (by simp [startsCased_append_of_startsCased hafter])
    | false => rfl
  have hfewer := count_lowerAmid_lt hstay hv
    (by simp [sigmaFor_eq_final, startsCased_append_of_all hq, startsCased_letter])
    (by simp [sigmaFor_eq_final, startsCased_of_all hq, hp])
  rw [← lower_eq_lowerAmid] at hfewer
  refine not_like_of_count (x := 'ς') (by decide) (by decide) ?_
  rw [lower_letter_last, List.count_append, List.count_cons_of_ne (by decide)]
  exact hfewer

/-- The texts that are found wherever they occur are those whose sigmas are settled. -/
theorem sigmaSettled_iff :
    SigmaSettled v ↔ ∀ a b, like (a ++ v ++ b) ('%' :: v ++ ['%']) = true := by
  constructor
  · exact fun h a b => like_of_keepsForms (h.keepsForms a b)
  · intro h p q hv
    constructor
    · intro hp
      cases hq : startsCased q with
      | true => rfl
      | false =>
        have hfirst := h ['A'] []
        rw [List.append_nil] at hfirst
        exact absurd hfirst (not_like_letter_first hv hp hq)
    · intro hq
      cases hp : startsCased p.reverse with
      | true => exact absurd (h [] ['A']) (not_like_letter_last hv hq hp)
      | false => rfl

end Settled

end Recordkeeper.Text
