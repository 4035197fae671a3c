import Recordkeeper.Json

set_option autoImplicit false

namespace Recordkeeper.Object

@[simp] theorem get?_nil (c : String) : get? c [] = none := rfl

theorem get?_cons (c key : String) (value : Json) (o : Object) :
    get? c ((key, value) :: o) = if c = key then some value else get? c o := by
  simp only [get?, eq_comm]

theorem get?_put (c key : String) (value : Json) (o : Object) :
    (o.put key value).get? c = if c = key then some value else o.get? c := by
  induction o with
  | nil => simp [put, get?_cons]
  | cons m o ih =>
    obtain ⟨k, v⟩ := m
    simp only [put]
    split
    · next hk =>
      subst hk
      by_cases h : c = k <;> simp [get?_cons, h]
    · next hk =>
      split
      · simp [get?_cons]
      · by_cases h : c = k
        · subst h
          simp [get?_cons, hk]
        · simp [get?_cons, h, ih]

theorem get?_replace (c key : String) (value : Json) (o : Object) :
    (o.replace key value).get? c = if c = key then (o.get? key).map fun _ => value else o.get? c := by
  induction o with
  | nil => simp [replace]
  | cons m o ih =>
    obtain ⟨k, v⟩ := m
    simp only [replace]
    split
    · next hk =>
      subst hk
      by_cases h : c = k <;> simp [get?_cons, h]
    · next hk =>
      by_cases h : c = k
      · subst h
        simp [get?_cons, hk]
      · simp [get?_cons, h, ih, Ne.symm hk]

theorem get?_put_of_ne {c key : String} (h : c ≠ key) (value : Json) (o : Object) :
    (o.put key value).get? c = o.get? c := by simp [get?_put, h]

theorem get?_replace_of_ne {c key : String} (h : c ≠ key) (value : Json) (o : Object) :
    (o.replace key value).get? c = o.get? c := by simp [get?_replace, h]

theorem put_put (key : String) (v w : Json) (o : Object) :
    (o.put key v).put key w = o.put key w := by
  induction o with
  | nil => simp [put]
  | cons m o ih =>
    obtain ⟨k, u⟩ := m
    simp only [put]
    split
    · simp [put]
    · next hk =>
      split
      · simp [put]
      · next hlt => simp [put, hk, hlt, ih]

theorem replace_replace (key : String) (v w : Json) (o : Object) :
    (o.replace key v).replace key w = o.replace key w := by
  induction o with
  | nil => rfl
  | cons m o ih =>
    obtain ⟨k, u⟩ := m
    simp only [replace]
    split
    · next hk => simp [replace, hk]
    · next hk => simp [replace, hk, ih]

theorem put_replace {key other : String} (h : key ≠ other) (v w : Json) (o : Object) :
    (o.replace other w).put key v = (o.put key v).replace other w := by
  induction o with
  | nil => simp [put, replace, h]
  | cons m o ih =>
    obtain ⟨k, u⟩ := m
    by_cases hother : k = other
    · subst hother
      by_cases hlt : key < k <;> simp [put, replace, h, h.symm, hlt]
    · by_cases hkey : k = key
      · subst hkey
        simp [put, replace, h]
      · by_cases hlt : key < k <;> simp [put, replace, hother, hkey, hlt, h, ih]

@[simp] theorem has_replace (c key : String) (value : Json) (o : Object) :
    (o.replace key value).has c = o.has c := by
  by_cases h : c = key
  · subst h
    simp [has, get?_replace]
  · simp [has, get?_replace, h]

theorem get?_overlay (c : String) (changes o : Object) :
    (overlay changes o).get? c = ((ofMembers changes).get? c).or (o.get? c) := by
  unfold ofMembers
  induction changes generalizing o with
  | nil => simp [overlay]
  | cons m changes ih =>
    have hstep (p : Object) : overlay (m :: changes) p = overlay changes (p.put m.1 m.2) := rfl
    rw [hstep, hstep, ih, ih (put m.1 m.2 []), get?_put, get?_put]
    by_cases h : c = m.1
    · simp [h]
    · simp [h]

theorem get?_ofMembers_cons (c key : String) (value : Json) (ms : Object) :
    (ofMembers ((key, value) :: ms)).get? c =
      ((ofMembers ms).get? c).or (if c = key then some value else none) := by
  have h : ofMembers ((key, value) :: ms) = overlay ms [(key, value)] := rfl
  rw [h, get?_overlay, get?_cons, get?_nil]

theorem get?_eq_none_of_not_mem {c : String} {o : Object} (h : c ∉ o.map (·.1)) :
    o.get? c = none := by
  induction o with
  | nil => rfl
  | cons m o ih =>
    obtain ⟨k, v⟩ := m
    simp only [List.map_cons, List.mem_cons, not_or] at h
    simp [get?_cons, h.1, ih h.2]

theorem get?_ofMembers_eq_none {c : String} {ms : Object} (h : c ∉ ms.keys) :
    (ofMembers ms).get? c = none := by
  induction ms with
  | nil => rfl
  | cons m ms ih =>
    obtain ⟨k, v⟩ := m
    simp only [keys, List.map_cons, List.mem_cons, not_or] at h
    rw [get?_ofMembers_cons, ih h.2, if_neg h.1, Option.none_or]

theorem get?_ofMembers {ms : Object} (h : (ms.map (·.1)).Nodup) (c : String) :
    (ofMembers ms).get? c = ms.get? c := by
  induction ms with
  | nil => rfl
  | cons m ms ih =>
    obtain ⟨k, v⟩ := m
    obtain ⟨hk, hms⟩ := List.nodup_cons.1 h
    rw [get?_ofMembers_cons, ih hms, get?_cons]
    by_cases hc : c = k
    · subst hc
      simp [get?_eq_none_of_not_mem hk]
    · simp [hc]

theorem mem_keys_put {c key : String} {value : Json} {o : Object} :
    c ∈ (o.put key value).keys ↔ c = key ∨ c ∈ o.keys := by
  induction o with
  | nil => simp [put, keys]
  | cons m o ih =>
    obtain ⟨k, v⟩ := m
    simp only [keys, List.map_cons, List.mem_cons] at ih ⊢
    simp only [put]
    split
    · next hk => simp [hk]
    · split
      · simp
      · rw [List.map_cons, List.mem_cons, ih, or_left_comm]

theorem nodup_put {key : String} {o : Object} (h : o.keys.Nodup) (hkey : key ∉ o.keys)
    (value : Json) : (o.put key value).keys.Nodup := by
  induction o with
  | nil => simp [put, keys]
  | cons m o ih =>
    obtain ⟨k, v⟩ := m
    obtain ⟨hk, ho⟩ := List.nodup_cons.1 h
    obtain ⟨hne, hrest⟩ := not_or.1 (mt List.mem_cons.2 hkey)
    simp only [put, if_neg (Ne.symm hne)]
    split
    · exact List.nodup_cons.2 ⟨hkey, h⟩
    · refine List.nodup_cons.2 ⟨fun hmem => ?_, ih ho hrest⟩
      exact (mem_keys_put.1 hmem).elim (Ne.symm hne) hk

end Recordkeeper.Object
