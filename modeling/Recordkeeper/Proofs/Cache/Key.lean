import Recordkeeper.Cache
import Recordkeeper.Proofs.Numeral

set_option autoImplicit false

namespace Recordkeeper.CacheKey

/-- What stands behind the identity in the key of a variant. -/
def tail (preloads : List String) : List Char :=
  if preloads.isEmpty then [] else ':' :: ("-".intercalate preloads).toList

theorem noDigitFirst_tail (preloads : List String) : Text.NoDigitFirst (tail preloads) := by
  unfold tail
  split
  · exact Text.noDigitFirst_nil
  · exact Text.noDigitFirst_cons.2 (by decide)

theorem toList_base (space entity : String) (id : Id) :
    (base space entity id).toList =
      space.toList ++ entity.toList ++ ':' :: Text.numeral id.toNat := by
  have h : (toString id).toList = Text.numeral id.toNat := Nat.toList_repr
  simp [base, h]

theorem toList_variant (space entity : String) (id : Id) (preloads : List String) :
    (variant space entity id preloads).toList =
      space.toList ++ entity.toList ++ ':' :: (Text.numeral id.toNat ++ tail preloads) := by
  unfold variant tail
  split
  · simp [toList_base]
  · simp [toList_base]

theorem numeral_append_inj {i j : Id} {s t : List Char} (hs : Text.NoDigitFirst s)
    (ht : Text.NoDigitFirst t)
    (h : Text.numeral i.toNat ++ s = Text.numeral j.toNat ++ t) : i = j ∧ s = t := by
  have hh := congrArg Text.spanDigits h
  rw [Text.spanDigits_numeral _ hs, Text.spanDigits_numeral _ ht, Prod.mk.injEq] at hh
  exact ⟨UInt64.toNat_inj.1 (Text.numeral_injective hh.1), hh.2⟩

theorem id_eq_of_variant_eq {space entity : String} {i j : Id} {p q : List String}
    (h : variant space entity i p = variant space entity j q) : i = j := by
  have hl := congrArg String.toList h
  simp only [toList_variant, List.append_cancel_left_eq, List.cons.injEq, true_and] at hl
  exact (numeral_append_inj (noDigitFirst_tail p) (noDigitFirst_tail q) hl).1

theorem covers_variant (space entity : String) (id : Id) (preloads : List String) :
    covers (base space entity id) (variant space entity id preloads) = true := by
  unfold variant covers
  split
  · simp
  · simp only [String.toList_append, Bool.or_eq_true, decide_eq_true_eq]
    right
    rw [List.isPrefixOf_iff_prefix]
    exact List.prefix_append _ _

theorem toList_of_covers {space entity key : String} {id : Id}
    (h : covers (base space entity id) key = true) :
    ∃ s, Text.NoDigitFirst s ∧
      key.toList = space.toList ++ entity.toList ++ ':' :: (Text.numeral id.toNat ++ s) := by
  simp only [covers, Bool.or_eq_true, decide_eq_true_eq, List.isPrefixOf_iff_prefix] at h
  rcases h with rfl | ⟨rest, h⟩
  · exact ⟨[], Text.noDigitFirst_nil, by simp [toList_base]⟩
  · refine ⟨':' :: rest, Text.noDigitFirst_cons.2 (by decide), ?_⟩
    rw [← h]
    simp [toList_base]

/-- No key is covered by the base keys of two identities. -/
theorem id_eq_of_covers {space entity key : String} {i j : Id}
    (hi : covers (base space entity i) key = true) (hj : covers (base space entity j) key = true) :
    i = j := by
  obtain ⟨s, hs, hkey⟩ := toList_of_covers hi
  obtain ⟨t, ht, hkey'⟩ := toList_of_covers hj
  rw [hkey, List.append_cancel_left_eq, List.cons.injEq] at hkey'
  exact (numeral_append_inj hs ht hkey'.2).1

end Recordkeeper.CacheKey
