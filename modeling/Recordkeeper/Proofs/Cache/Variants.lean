import Recordkeeper.Proofs.Cache.Key
import Recordkeeper.Proofs.Identifier
import Recordkeeper.Proofs.Query.Composition
import Recordkeeper.Repository

set_option autoImplicit false

namespace Recordkeeper

namespace CacheKey

variable {space entity : String} {i j : Id} {p q : List String}

theorem splitOn_tail (hne : p ≠ []) (hp : ∀ name ∈ p, '-' ∉ name.toList) :
    (tail p).tail.splitOn '-' = p.map String.toList := by
  have hlist : (tail p).tail = ['-'].intercalate (p.map String.toList) := by
    simp [tail, List.isEmpty_eq_false_iff.2 hne, String.toList_intercalate]
  rw [hlist, List.splitOn_intercalate _ (by simpa using hp) (by simpa using hne)]

theorem tail_eq_nil : tail p = [] ↔ p = [] := by
  cases p <;> simp [tail]

theorem tail_inj (hp : ∀ name ∈ p, '-' ∉ name.toList) (hq : ∀ name ∈ q, '-' ∉ name.toList) :
    tail p = tail q ↔ p = q := by
  refine ⟨fun h => ?_, congrArg tail⟩
  by_cases hnone : p = []
  · rw [hnone] at h ⊢
    exact (tail_eq_nil.1 (h.symm.trans (tail_eq_nil.2 rfl))).symm
  · have hsome : q ≠ [] := fun hq => hnone (tail_eq_nil.1 (h.trans (tail_eq_nil.2 hq)))
    have hnames : p.map String.toList = q.map String.toList := by
      rw [← splitOn_tail hnone hp, ← splitOn_tail hsome hq, h]
    exact List.map_injective_iff.2 (fun _ _ => String.toList_inj.1) hnames

theorem variant_inj (hp : ∀ name ∈ p, '-' ∉ name.toList) (hq : ∀ name ∈ q, '-' ∉ name.toList) :
    variant space entity i p = variant space entity j q ↔ i = j ∧ p = q := by
  rw [← String.toList_inj, toList_variant, toList_variant, List.append_cancel_left_eq,
    List.cons.injEq, ← tail_inj hp hq]
  constructor
  · rintro ⟨-, h⟩
    exact numeral_append_inj (noDigitFirst_tail p) (noDigitFirst_tail q) h
  · rintro ⟨rfl, htail⟩
    rw [htail]
    exact ⟨rfl, rfl⟩

/-- A base key covers the variants of its own identity and of no other, whatever their names. -/
theorem covers_variant_iff :
    covers (base space entity i) (variant space entity j q) = true ↔ i = j := by
  refine ⟨fun h => id_eq_of_covers h (covers_variant space entity j q), ?_⟩
  rintro rfl
  exact covers_variant space entity i q

theorem hyphen_not_mem (h : ∀ relation ∈ p, Identifier.isRelationPath relation = true) :
    ∀ relation ∈ p, '-' ∉ relation.toList := fun relation hmem =>
  Identifier.not_mem_of_isRelationPath (h relation hmem) (by decide) (by decide)

end CacheKey

namespace Repository

theorem isRelationPath_of_checkLookup {α : Type} {r : Repository α} {q : IdRequest}
    (h : r.checkLookup q = .ok ()) :
    ∀ relation ∈ q.preloads, Identifier.isRelationPath relation = true := by
  unfold checkLookup at h
  split at h
  · cases h
  · exact FilterRequest.preloads_eq_ok (r := { preloads := q.preloads }).1 h

end Repository

namespace CacheKey

/-- Two records share a key only if they are the same record with the same relations, so that lookups
which a repository lets through have a key each. A base key covers the keys of its own record, whatever
relations they name, and those of no other. -/
theorem keys_separate (space entity : String) (i j : Id) :
    (∀ p q : List String, (∀ relation ∈ p, Identifier.isRelationPath relation = true) →
      (∀ relation ∈ q, Identifier.isRelationPath relation = true) →
      (variant space entity i p = variant space entity j q ↔ i = j ∧ p = q)) ∧
    (∀ names : List String,
      covers (base space entity i) (variant space entity j names) = true ↔ i = j) ∧
    ∀ {α : Type} (r : Repository α) (a b : IdRequest), r.checkLookup a = .ok () →
      r.checkLookup b = .ok () →
      (variant r.config.keyPrefix r.entity.name a.id a.preloads =
        variant r.config.keyPrefix r.entity.name b.id b.preloads ↔ a = b) := by
  refine ⟨fun p q hp hq => variant_inj (hyphen_not_mem hp) (hyphen_not_mem hq),
    fun names => covers_variant_iff, fun r a b ha hb => ?_⟩
  rw [variant_inj (hyphen_not_mem (Repository.isRelationPath_of_checkLookup ha))
    (hyphen_not_mem (Repository.isRelationPath_of_checkLookup hb)), IdRequest.mk.injEq]

theorem keys_separate_decimal :
    variant "app:" "user" 1 ["Posts", "Tags"] ≠ variant "app:" "user" 1 ["Posts.Tags"] ∧
      covers (base "app:" "user" 1) (variant "app:" "user" 10 ["x", "1-0"]) = false ∧
      ∀ r : Repository (Catalog.Item String), r.checkLookup ⟨10, ["Tags"]⟩ = .ok () ∧
        r.checkLookup ⟨1, ["Tags"]⟩ = .ok () ∧
        variant r.config.keyPrefix r.entity.name 10 ["Tags"] ≠
          variant r.config.keyPrefix r.entity.name 1 ["Tags"] := by
  obtain ⟨hvariant, -, -⟩ := keys_separate "app:" "user" 1 1
  obtain ⟨-, hcovers, hlookup⟩ := keys_separate "app:" "user" 1 10
  refine ⟨fun h => ?_, ?_, fun r => ?_⟩
  · have hsame := (hvariant _ _ (by decide) (by decide)).1 h
    exact absurd hsame.2 (by decide)
  · rw [← Bool.not_eq_true, hcovers]
    decide
  · have hten : r.checkLookup ⟨10, ["Tags"]⟩ = .ok () := rfl
    have hone : r.checkLookup ⟨1, ["Tags"]⟩ = .ok () := rfl
    refine ⟨hten, hone, fun h => ?_⟩
    have hsame := (hlookup r ⟨10, ["Tags"]⟩ ⟨1, ["Tags"]⟩ hten hone).1 h
    exact absurd (congrArg IdRequest.id hsame) (by decide)

end CacheKey

end Recordkeeper
