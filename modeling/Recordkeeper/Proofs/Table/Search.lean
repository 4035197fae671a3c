import Recordkeeper.Entity.Catalog
import Recordkeeper.Proofs.Run
import Recordkeeper.Proofs.Table.Counter

/-!
The search for the identity of a record that comes without one. Records may also come with
identities of their own, which the counter does not follow, so that a search may meet rows ahead of
the counter: it passes them one by one, and there are no more of them than rows. What it finds is
free, and above everything that a search found before.
-/

set_option autoImplicit false

namespace Recordkeeper.Table

variable {α : Type} {E : EntityType α} {rows : List (Id × Row)} {t : Table}

inductive Search (rows : List (Id × Row)) : Id → (steps : Nat) → Id → Prop where
  | free {counter : Id} : counter.toNat < 2 ^ 64 - 1 → rows.lookup (counter + 1) = none →
      Search rows counter 1 (counter + 1)
  | taken {counter id : Id} {steps : Nat} : counter.toNat < 2 ^ 64 - 1 →
      (rows.lookup (counter + 1)).isSome → Search rows (counter + 1) steps id →
      Search rows counter (steps + 1) id

def TakenBetween (rows : List (Id × Row)) (first last : Nat) : Prop :=
  ∀ i : Id, first < i.toNat → i.toNat ≤ last → (rows.lookup i).isSome

/-- As far as taken identities can move the counter, it does not come to the last one. -/
def CounterStays (t : Table) : Prop :=
  ∀ n, TakenBetween t.rows t.counter.toNat n → n < 2 ^ 64 - 1

theorem toNat_succ {i : Id} (h : i.toNat < 2 ^ 64 - 1) : (i + 1).toNat = i.toNat + 1 := by
  rw [UInt64.toNat_add, UInt64.toNat_one]
  omega

section

variable {first last : Nat} {counter id : Id} {steps : Nat}

theorem takenBetween_self (rows : List (Id × Row)) (n : Nat) : TakenBetween rows n n :=
  fun _ hfirst hlast => absurd hfirst (Nat.not_lt.2 hlast)

theorem TakenBetween.of_succ (h : TakenBetween rows (counter + 1).toNat last)
    (hcounter : counter.toNat < 2 ^ 64 - 1) (htaken : (rows.lookup (counter + 1)).isSome) :
    TakenBetween rows counter.toNat last := by
  have hsucc := toNat_succ hcounter
  intro i hfirst hlast
  by_cases hi : i = counter + 1
  · exact hi ▸ htaken
  · have hne : i.toNat ≠ (counter + 1).toNat := fun h => hi (UInt64.toNat_inj.1 h)
    exact h i (by omega) hlast

theorem mem_of_lookup {i : Id} (h : (rows.lookup i).isSome) : i ∈ rows.map (·.1) := by
  obtain ⟨row, hrow⟩ := Option.isSome_iff_exists.1 h
  obtain ⟨l, r, hl, -⟩ := List.lookup_eq_some_iff.1 hrow
  simp [hl]

theorem TakenBetween.le (h : TakenBetween rows first last) (hlast : last < 2 ^ 64) :
    last ≤ first + rows.length := by
  have hsub : Finset.Ioc first last ⊆ (rows.map fun e => e.1.toNat).toFinset := by
    intro n hn
    obtain ⟨hlow, hhigh⟩ := Finset.mem_Ioc.1 hn
    have hnat : (UInt64.ofNat n).toNat = n :=
      UInt64.toNat_ofNat_of_lt' (Nat.lt_of_le_of_lt hhigh hlast)
    have hmem := mem_of_lookup (h (UInt64.ofNat n) (by omega) (by omega))
    obtain ⟨e, he, heq⟩ := List.mem_map.1 hmem
    exact List.mem_toFinset.2 (List.mem_map.2 ⟨e, he, by rw [heq, hnat]⟩)
  have hcard := Finset.card_le_card hsub
  have hrows := List.toFinset_card_le (rows.map fun e => e.1.toNat)
  rw [Nat.card_Ioc] at hcard
  rw [List.length_map] at hrows
  omega

theorem counterStays_of_lt (h : t.counter.toNat + t.rows.length < 2 ^ 64 - 1) :
    t.CounterStays := by
  intro n htaken
  refine Nat.lt_of_not_le fun hn => ?_
  have hlast : TakenBetween t.rows t.counter.toNat (2 ^ 64 - 1) := fun i hfirst hi =>
    htaken i hfirst (Nat.le_trans hi hn)
  have hle := hlast.le (by decide)
  omega

namespace Search

theorem toNat_eq (h : Search rows counter steps id) : id.toNat = counter.toNat + steps := by
  induction h with
  | free hcounter => exact toNat_succ hcounter
  | taken hcounter _ _ ih =>
    rw [ih, toNat_succ hcounter]
    omega

theorem lookup_eq (h : Search rows counter steps id) : rows.lookup id = none := by
  induction h with
  | free _ hfree => exact hfree
  | taken _ _ _ ih => exact ih

theorem one_le (h : Search rows counter steps id) : 1 ≤ steps := by
  cases h with
  | free => exact Nat.le_refl 1
  | taken => exact Nat.le_add_left 1 _

theorem passes (h : Search rows counter steps id) :
    TakenBetween rows counter.toNat (counter.toNat + (steps - 1)) := by
  induction h with
  | free => exact takenBetween_self rows _
  | @taken counter id steps hcounter htaken hrest ih =>
    have hsteps := hrest.one_le
    rw [toNat_succ hcounter] at ih
    have hrange : counter.toNat + (steps + 1 - 1) = counter.toNat + 1 + (steps - 1) := by omega
    rw [hrange]
    exact TakenBetween.of_succ (by rwa [toNat_succ hcounter]) hcounter htaken

theorem steps_le (h : Search rows counter steps id) : steps ≤ rows.length + 1 := by
  have hid := h.toNat_eq
  have hlt := id.toNat_lt
  have hle := h.passes.le (by omega)
  omega

theorem lt (h : Search rows counter steps id) : counter < id := by
  have hid := h.toNat_eq
  have hsteps := h.one_le
  rw [UInt64.lt_iff_toNat_lt]
  omega

theorem nextFree?_eq (h : Search rows counter steps id) {tries : Nat} (htries : steps ≤ tries) :
    nextFree? rows counter tries = some id := by
  induction h generalizing tries with
  | @free counter hcounter hfree =>
    obtain ⟨n, rfl⟩ : ∃ n, tries = n + 1 := ⟨tries - 1, by omega⟩
    have hroom : counter.toNat + 1 ≠ UInt64.size := by
      simp only [UInt64.size]
      omega
    simp [nextFree?, hroom, hfree]
  | @taken counter id steps hcounter htaken _ ih =>
    obtain ⟨n, rfl⟩ : ∃ n, tries = n + 1 := ⟨tries - 1, by omega⟩
    have hroom : counter.toNat + 1 ≠ UInt64.size := by
      simp only [UInt64.size]
      omega
    simp [nextFree?, hroom, htaken, ih (by omega : steps ≤ n)]

end Search

/-- The search goes on until it meets the first identity that is free, so there is one. -/
theorem exists_search (h : ∀ n, TakenBetween rows counter.toNat n → n < 2 ^ 64 - 1) :
    ∃ steps id, Search rows counter steps id := by
  induction hgap : 2 ^ 64 - 1 - counter.toNat generalizing counter with
  | zero =>
    have hcounter := h _ (takenBetween_self rows counter.toNat)
    omega
  | succ gap ih =>
    have hcounter := h _ (takenBetween_self rows counter.toNat)
    cases hnext : rows.lookup (counter + 1) with
    | none => exact ⟨1, _, .free hcounter hnext⟩
    | some row =>
      have htaken : (rows.lookup (counter + 1)).isSome := by rw [hnext]; rfl
      obtain ⟨steps, id, hsearch⟩ := ih
        (fun n hn => h n (hn.of_succ hcounter htaken)) (by rw [toNat_succ hcounter]; omega)
      exact ⟨steps + 1, id, .taken hcounter htaken hsearch⟩

end

def after (E : EntityType α) (calls : List (Timestamp × StoreCall α)) (t : Table) : Table :=
  calls.foldl (fun t c => (t.answer E c.1 c.2).2) t

def Gives (E : EntityType α) (now : Timestamp) (t : Table) (x : α) (id : Id) : Prop :=
  E.isNew x ∧ t.get? id = none ∧ ((t.insert E now x).2.get? id).isSome

section

variable {now : Timestamp}

/-- Identities that records bring along do not move the counter. -/
theorem insert_counter_eq (now : Timestamp) {x : α} (hx : ¬E.isNew x) :
    (t.insert E now x).2.counter = t.counter := by
  have hid : E.identity x ≠ 0 := by simpa [EntityType.isNew] using hx
  unfold insert
  cases dataOf E x with
  | error e => rfl
  | ok data =>
    simp only [if_neg hid]
    split
    · rfl
    · unfold place
      split <;> rfl

theorem counter_le_answer (now : Timestamp) (c : StoreCall α) :
    t.counter ≤ (t.answer E now c).2.counter := by
  by_cases hinsert : ∃ x, c = .insert x
  · obtain ⟨x, rfl⟩ := hinsert
    by_cases hx : E.isNew x
    · exact (insert_counter now hx).1
    · exact (insert_counter_eq now hx).symm ▸ UInt64.le_refl _
  · have hcounter := (answer_counter (E := E) (t := t) now fun x hx => hinsert ⟨x, hx⟩).1
    exact hcounter.symm ▸ UInt64.le_refl _

theorem counter_le_after (calls : List (Timestamp × StoreCall α)) (t : Table) :
    t.counter ≤ (after E calls t).counter := by
  induction calls generalizing t with
  | nil => exact UInt64.le_refl _
  | cons c calls ih => exact UInt64.le_trans (counter_le_answer c.1 c.2) (ih _)

theorem Gives.le_counter {x : α} {id : Id} (h : Gives E now t x id) :
    id ≤ (t.insert E now x).2.counter := by
  obtain ⟨hnew, hfree, hstored⟩ := h
  obtain ⟨row, hrow⟩ := Option.isSome_iff_exists.1 hstored
  rcases (insert_counter now hnew).2 id row hrow with hold | ⟨-, hle⟩
  · rw [hfree] at hold
    cases hold
  · exact hle

theorem Gives.le_after {before rest : List (Timestamp × StoreCall α)} {x : α} {id : Id}
    (h : Gives E now (after E before t) x id) :
    id ≤ (after E (before ++ (now, .insert x) :: rest) t).counter := by
  have hrun : after E (before ++ (now, .insert x) :: rest) t =
      after E rest ((after E before t).insert E now x).2 := List.foldl_append
  rw [hrun]
  exact UInt64.le_trans h.le_counter (counter_le_after rest _)

theorem insert_of_search {x : α} {data : Object} (hx : E.isNew x)
    (hdata : E.encode x = some (.obj data)) {steps : Nat} {id : Id}
    (h : Search t.rows t.counter steps id) :
    t.insert E now x = place E id { data := stampNew now data } { t with counter := id } := by
  have hid : E.identity x = 0 := by simpa [EntityType.isNew] using hx
  have hok : dataOf E x = .ok data := by simp [dataOf, hdata]
  simp [insert, hok, hid, h.nextFree?_eq h.steps_le]

end

def dawn : Timestamp := Moment.epoch.wall

def rowsAhead : List (Timestamp × StoreCall (Catalog.Item String)) :=
  [(dawn, .insert ⟨2, "b"⟩), (dawn, .insert ⟨0, "a"⟩), (dawn, .insert ⟨3, "c"⟩),
    (dawn, .hardDelete 1)]

end Recordkeeper.Table
