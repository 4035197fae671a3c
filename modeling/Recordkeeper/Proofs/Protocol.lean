import Recordkeeper.Proofs.Conversation

/-!
What an operation says to its store and cache. There are six kinds of conversations, and the rules
of the call protocol are read off them: a refused request makes no call, no operation writes twice, a
write that reached a row is followed by the purge of its identity, and nothing is kept in the cache
but what the store has just answered.
-/

set_option autoImplicit false

namespace Recordkeeper

variable {σ α β : Type}

namespace RequestError

def isRefusal : RequestError → Bool
  | invalidFilter .. | invalidValueType .. | invalidValueSize .. | unsupportedOperator _
  | invalidOrder .. | invalidField .. | notNewRecord .. | identityMismatch ..
  | missingIdentity .. => true
  | notFound .. | storeFailed .. | store _ => false

end RequestError

/-- The identity of a write that reports success: a row was changed, or a tombstone or a row is gone
now, whether there was one or not. -/
def StoreCall.reached (E : EntityType α) : (c : StoreCall α) → c.Result → Option Id
  | .save x, (n : UInt64) => if n = 0 then none else some (E.identity x)
  | .updateFields id _, (n : UInt64) => if n = 0 then none else some id
  | .softDelete id, _ | .clearTombstone id, _ | .hardDelete id, _ => some id
  | _, _ => none

namespace Exchange

def isRead : Exchange α → Bool
  | ⟨.store c, _⟩ => !c.isWrite
  | ⟨.cache _, _⟩ => false

def isWrite : Exchange α → Bool
  | ⟨.store c, _⟩ => c.isWrite
  | ⟨.cache _, _⟩ => false

def reached (E : EntityType α) : Exchange α → Option Id
  | ⟨.store c, .ok a⟩ => c.reached E a
  | _ => none

theorem isWrite_of_isRead {e : Exchange α} (h : e.isRead) : e.isWrite = false := by
  obtain ⟨c | c, a⟩ := e
  · simpa [isRead, isWrite] using h
  · rfl

theorem reached_of_isRead (E : EntityType α) {e : Exchange α} (h : e.isRead) :
    e.reached E = none := by
  obtain ⟨c | c, a⟩ := e
  · cases a with
    | error e => rfl
    | ok a => cases c <;> first | rfl | cases h
  · cases h

end Exchange

namespace Operation

def lookup? : Operation α → Option IdRequest
  | .get id => some ⟨id, []⟩
  | .getById q => some q
  | _ => none

/-- The one write that an operation can make, once its request is accepted. -/
def write? (r : Repository α) : Operation α → Option (StoreCall α)
  | .create x => if r.entity.isNew x then some (.insert x) else none
  | .update x id => (r.checkUpdate x id).toOption.map fun _ => .save x
  | .updateFields x fields =>
    (r.checkFields x fields).toOption.map fun _ => .updateFields (r.entity.identity x) fields
  | .remove id => (r.requireIdentity id "remove").toOption.map fun _ => .softDelete id
  | .restore id => (r.requireIdentity id "restore").toOption.map fun _ => .clearTombstone id
  | .destroy id => (r.requireIdentity id "destroy").toOption.map fun _ => .hardDelete id
  | _ => none

end Operation

namespace Repository

variable {r : Repository α}

def keyOf (r : Repository α) (q : IdRequest) : String :=
  CacheKey.variant r.config.keyPrefix r.entity.name q.id q.preloads

def purgeOf (r : Repository α) (id : Id) : CacheCall :=
  .purge (CacheKey.base r.config.keyPrefix r.entity.name id)

/-- All that an operation can say. -/
inductive Conversation (r : Repository α) (op : Operation α) : List (Exchange α) → Prop where
  | reads {es : List (Exchange α)} : (∀ e ∈ es, e.isRead) → Conversation r op es
  | served {q : IdRequest} {a : (CacheCall.get (r.keyOf q)).Answer} : op.lookup? = some q →
      Conversation r op [⟨.cache (.get (r.keyOf q)), a⟩]
  | missed {q : IdRequest} {a : (CacheCall.get (r.keyOf q)).Answer}
      {b : (StoreCall.find q.id q.preloads .active : StoreCall α).Answer} : op.lookup? = some q →
      Conversation r op
        [⟨.cache (.get (r.keyOf q)), a⟩, ⟨.store (.find q.id q.preloads .active), b⟩]
  | filled {q : IdRequest} {a : (CacheCall.get (r.keyOf q)).Answer} {x : α} {text : String}
      {b : (CacheCall.set (r.keyOf q) text r.config.cacheTtl).Answer} : op.lookup? = some q →
      r.entity.snapshot? x = some text →
      Conversation r op
        [⟨.cache (.get (r.keyOf q)), a⟩, ⟨.store (.find q.id q.preloads .active), .ok (some x)⟩,
          ⟨.cache (.set (r.keyOf q) text r.config.cacheTtl), b⟩]
  | written {c : StoreCall α} {a : c.Answer} {es : List (Exchange α)} : op.write? r = some c →
      (r.usesCache → Exchange.reached r.entity ⟨.store c, a⟩ = none) → (∀ e ∈ es, e.isRead) →
      Conversation r op (⟨.store c, a⟩ :: es)
  | purged {c : StoreCall α} {a : c.Answer} {id : Id} {b : (r.purgeOf id).Answer}
      {es : List (Exchange α)} : op.write? r = some c →
      Exchange.reached r.entity ⟨.store c, a⟩ = some id → (∀ e ∈ es, e.isRead) →
      Conversation r op (⟨.store c, a⟩ :: ⟨.cache (r.purgeOf id), b⟩ :: es)

section

variable {P : List (Exchange α) → Except RequestError α → Prop}

theorem always_fetch {id : Id} {preloads : List String} {v : Visibility}
    (hfail : ∀ e, P [⟨.store (.find id preloads v), .error e⟩] (.error (.store e)))
    (hnone : P [⟨.store (.find id preloads v), .ok none⟩] (.error (r.notFound id)))
    (hsome : ∀ x, P [⟨.store (.find id preloads v), .ok (some x)⟩] (.ok x)) :
    Action.Always (r.fetch id preloads v) P := by
  refine Action.always_ask hfail fun found => ?_
  cases found with
  | none => exact Action.always_throw hnone
  | some x => exact Action.always_pure (hsome x)

theorem always_invalidate {id : Id} {P : List (Exchange α) → Except RequestError β → Prop}
    {f : Unit → Action α β}
    (hpurge : r.usesCache → ∀ b, Action.Always (f ()) fun es =>
      P (⟨.cache (r.purgeOf id), b⟩ :: es))
    (hquiet : r.usesCache = false → Action.Always (f ()) P) :
    Action.Always (liftM (r.invalidate id) >>= f) P := by
  refine Action.always_lift fun es b ht => ?_
  unfold invalidate at ht
  split at ht
  · next hu =>
    obtain ⟨a, rest, rfl, rfl, -⟩ := ht
    exact hpurge hu a
  · next hu =>
    obtain ⟨rfl, -⟩ := ht
    exact hquiet (by simpa using hu)

end

theorem isRead_find (id : Id) (preloads : List String) (v : Visibility)
    (a : (StoreCall.find id preloads v : StoreCall α).Answer) :
    ∀ e ∈ [(⟨.store (.find id preloads v), a⟩ : Exchange α)], e.isRead := by
  simp [Exchange.isRead, StoreCall.isWrite]

section

variable {op : Operation α} {c : StoreCall α}

/-- After a write that reached no row nothing is asked; after any other comes the purge, then the
record is read again. -/
theorem conversation_reread {a : c.Answer} {id : Id} {v : Visibility} (hc : op.write? r = some c)
    (ha : Exchange.reached r.entity ⟨.store c, a⟩ = some id) :
    Action.Always (liftM (r.invalidate id) >>= fun _ => r.fetch id [] v)
      fun es _ => r.Conversation op (⟨.store c, a⟩ :: es) := by
  refine always_invalidate (fun _ b => ?_) fun hu => ?_
  · exact always_fetch (fun _ => .purged hc ha (isRead_find _ _ _ _)) (.purged hc ha (isRead_find _ _ _ _))
      fun _ => .purged hc ha (isRead_find _ _ _ _)
  · have hquiet : r.usesCache → Exchange.reached r.entity ⟨.store c, a⟩ = none := fun h => by
      simp [hu] at h
    exact always_fetch (fun _ => .written hc hquiet (isRead_find _ _ _ _))
      (.written hc hquiet (isRead_find _ _ _ _)) fun _ => .written hc hquiet (isRead_find _ _ _ _)

theorem conversation_settle {a : c.Answer} {id : Id} {affected : UInt64}
    (hc : op.write? r = some c)
    (ha : Exchange.reached r.entity ⟨.store c, a⟩ = if affected = 0 then none else some id) :
    Action.Always (r.settle id affected) fun es _ => r.Conversation op (⟨.store c, a⟩ :: es) := by
  refine Action.always_ite (fun h0 => Action.always_throw ?_) fun h0 => ?_
  · rw [if_pos h0] at ha
    exact .written hc (fun _ => ha) (by simp)
  · rw [if_neg h0] at ha
    exact conversation_reread hc ha

theorem conversation_failed {e : StoreError} (hc : op.write? r = some c) :
    r.Conversation op [⟨.store c, .error e⟩] := .written hc (fun _ => rfl) (by simp)

end

theorem conversation_getById {op : Operation α} {q : IdRequest} (hop : op.lookup? = some q) :
    Action.Always (r.getById q) fun es _ => r.Conversation op es := by
  refine Action.always_check (fun _ _ => .reads (by simp)) fun _ _ => ?_
  refine Action.always_ite (fun hu => ?_) fun _ => ?_
  · refine Action.always_lift fun es found ht => ?_
    have hget : ∃ a, es = [⟨.cache (.get (r.keyOf q)), a⟩] := by
      obtain ⟨a, rest, rfl, ht⟩ := ht
      refine ⟨a, ?_⟩
      cases a with
      | error e =>
        obtain ⟨rfl, -⟩ := ht
        rfl
      | ok text =>
        cases text <;>
          obtain ⟨rfl, -⟩ := ht
        all_goals rfl
    obtain ⟨a, rfl⟩ := hget
    cases found with
    | some x => exact Action.always_pure (.served hop)
    | none =>
      refine Action.Always.bind (always_fetch (fun _ => .missed hop) (.missed hop) fun x => ?_)
      refine Action.always_lift fun es b ht => ?_
      unfold writeCached at ht
      split at ht
      · next text htext =>
        obtain ⟨b, rest, rfl, rfl, -⟩ := ht
        exact Action.always_pure (.filled hop htext)
      · obtain ⟨rfl, -⟩ := ht
        exact Action.always_pure (.missed hop)
  · exact always_fetch (fun _ => .reads (isRead_find _ _ _ _)) (.reads (isRead_find _ _ _ _))
      fun _ => .reads (isRead_find _ _ _ _)

theorem write?_of_check {γ : Type} {check : Except RequestError γ} {b : γ} (h : check = .ok b)
    (c : StoreCall α) : (check.toOption.map fun _ => c) = some c := by
  rw [h]
  rfl

theorem identity_of_checkUpdate {x : α} {id : Id} {b : Unit} (h : r.checkUpdate x id = .ok b) :
    r.entity.identity x = id := by
  unfold checkUpdate at h
  split at h
  · cases h
  · next hid => exact Decidable.not_not.1 hid

theorem conversation_action (op : Operation α) :
    Action.Always (op.action r) fun es _ => r.Conversation op es := by
  have hnothing : ∀ e ∈ ([] : List (Exchange α)), e.isRead := by simp
  cases op with
  | create x =>
    refine Action.always_ite (fun hnew => ?_) fun _ => Action.always_throw (.reads hnothing)
    have hc : (Operation.create x).write? r = some (.insert x) := if_pos hnew
    refine Action.always_ask (fun e => conversation_failed hc) fun y => ?_
    have hdone (es : List (Exchange α)) (h : ∀ e ∈ es, e.isRead) :
        r.Conversation (.create x) (⟨.store (.insert x), .ok y⟩ :: es) := .written hc (fun _ => rfl) h
    exact Action.always_ite (fun _ => Action.always_throw (hdone [] hnothing))
      fun _ => Action.always_pure (hdone [] hnothing)
  | get id => exact conversation_getById rfl
  | getById q => exact conversation_getById rfl
  | first q =>
    refine Action.always_check (fun _ _ => .reads hnothing) fun query _ => ?_
    have hread (a : (StoreCall.query query (some .first) : StoreCall α).Answer) :
        r.Conversation (.first q) [⟨.store (.query query (some .first)), a⟩] :=
      .reads (by simp [Exchange.isRead, StoreCall.isWrite])
    refine Action.always_ask (fun e => hread _) fun found => ?_
    cases found with
    | nil => exact Action.always_throw (hread _)
    | cons x rest => exact Action.always_pure (hread _)
  | list q =>
    refine Action.always_check (fun _ _ => .reads hnothing) fun query _ => ?_
    exact Action.always_ask' (fun e => .reads (by simp [Exchange.isRead, StoreCall.isWrite]))
      fun found => .reads (by simp [Exchange.isRead, StoreCall.isWrite])
  | page q =>
    refine Action.always_check (fun _ _ => .reads hnothing) fun query _ => ?_
    refine Action.always_ask (c := .count query)
      (fun e => .reads (by simp [Exchange.isRead, StoreCall.isWrite])) fun (total : UInt64) => ?_
    refine Action.always_ite (fun _ => ?_) fun _ => ?_
    · refine Action.always_ask (fun e => .reads (by simp [Exchange.isRead, StoreCall.isWrite]))
        fun records => ?_
      exact Action.always_pure (.reads (by simp [Exchange.isRead, StoreCall.isWrite]))
    · exact Action.always_pure (.reads (by simp [Exchange.isRead, StoreCall.isWrite]))
  | update x id =>
    refine Action.always_check (fun _ _ => .reads hnothing) fun _ hcheck => ?_
    have hc : (Operation.update x id).write? r = some (.save x) := write?_of_check hcheck _
    have hid : r.entity.identity x = id := identity_of_checkUpdate hcheck
    refine Action.always_ask (fun e => conversation_failed hc) fun (n : UInt64) => ?_
    refine conversation_settle hc ?_
    rw [← hid]
    rfl
  | updateFields x fields =>
    refine Action.always_check (fun _ _ => .reads hnothing) fun _ hcheck => ?_
    have hc : (Operation.updateFields x fields).write? r =
        some (.updateFields (r.entity.identity x) fields) := write?_of_check hcheck _
    exact Action.always_ask (fun e => conversation_failed hc) fun (n : UInt64) =>
      conversation_settle hc rfl
  | remove id =>
    refine Action.always_check (fun _ _ => .reads hnothing) fun _ hcheck => ?_
    have hc : (Operation.remove id).write? r = some (.softDelete id) := write?_of_check hcheck _
    exact Action.always_ask (fun e => conversation_failed hc) fun n => conversation_reread hc rfl
  | restore id =>
    refine Action.always_check (fun _ _ => .reads hnothing) fun _ hcheck => ?_
    have hc : (Operation.restore id).write? r = some (.clearTombstone id) := write?_of_check hcheck _
    exact Action.always_ask (fun e => conversation_failed hc) fun n => conversation_reread hc rfl
  | destroy id =>
    refine Action.always_check (fun _ _ => .reads hnothing) fun _ hcheck => ?_
    have hc : (Operation.destroy id).write? r = some (.hardDelete id) := write?_of_check hcheck _
    have hreached (n : UInt64) :
        Exchange.reached r.entity ⟨.store (.hardDelete id), .ok n⟩ = some id := rfl
    refine Action.always_ask (fun e => conversation_failed hc) fun n => ?_
    rw [← bind_pure (liftM (r.invalidate id) : Action α Unit)]
    refine always_invalidate (fun _ b => Action.always_pure (.purged hc (hreached n) hnothing))
      fun hu => Action.always_pure (.written hc (fun h => ?_) hnothing)
    simp [hu] at h

def Unrefused (x : Action α β) : Prop :=
  Action.Always x fun _ a => ∀ e, a = .error e → e.isRefusal = false

theorem unrefused_pure (b : β) : Unrefused (pure b : Action α β) :=
  Action.always_pure fun e he => by cases he

theorem unrefused_throw {e : RequestError} (h : e.isRefusal = false) :
    Unrefused (throw e : Action α β) :=
  Action.always_throw fun e' he => by
    obtain rfl := Except.error.inj he
    exact h

theorem unrefused_ask {c : StoreCall α} {f : c.Result → Action α β} (h : ∀ a, Unrefused (f a)) :
    Unrefused (ask c >>= f) :=
  Action.always_ask (fun e e' he => by
    obtain rfl := Except.error.inj he
    rfl) h

theorem unrefused_lift {γ : Type} {p : Program α γ} {f : γ → Action α β}
    (h : ∀ b, Unrefused (f b)) : Unrefused (liftM p >>= f) :=
  Action.always_lift fun _ b _ => h b

theorem unrefused_fetch (id : Id) (preloads : List String) (v : Visibility) :
    Unrefused (r.fetch id preloads v) := by
  refine unrefused_ask fun found => ?_
  cases found with
  | none => exact unrefused_throw rfl
  | some x => exact unrefused_pure x

theorem unrefused_settle (id : Id) (affected : UInt64) : Unrefused (r.settle id affected) :=
  Action.always_ite (fun _ => unrefused_throw rfl) fun _ =>
    unrefused_lift fun _ => unrefused_fetch id [] .active

theorem silent_of_check {γ : Type} {check : Except RequestError γ} {f : γ → Action α β}
    (h : ∀ b, Unrefused (f b)) :
    Action.Always (liftExcept check >>= f) fun es a =>
      ∀ e, a = .error e → e.isRefusal → es = [] := by
  refine Action.always_check (fun _ _ _ _ _ => rfl) fun b _ => ?_
  refine (h b).mono fun es a ha e he hrefusal => ?_
  rw [ha e he] at hrefusal
  cases hrefusal

theorem silent_getById (q : IdRequest) :
    Action.Always (r.getById q) fun es a => ∀ e, a = .error e → e.isRefusal → es = [] := by
  refine silent_of_check fun _ => Action.always_ite (fun _ => ?_) fun _ => unrefused_fetch _ _ _
  refine unrefused_lift fun found => ?_
  cases found with
  | some x => exact unrefused_pure x
  | none =>
    refine Action.Always.bind ((unrefused_fetch (r := r) q.id q.preloads .active).mono ?_)
    intro es a ha
    cases a with
    | error e => exact ha
    | ok x => exact unrefused_lift fun _ => unrefused_pure x

theorem silent_action (op : Operation α) :
    Action.Always (op.action r) fun es a => ∀ e, a = .error e → e.isRefusal → es = [] := by
  cases op with
  | create x =>
    refine Action.always_ite (fun _ => ?_) fun _ => Action.always_throw fun _ _ _ => rfl
    have hcreate : Unrefused (do
        let created ← ask (.insert x)
        if r.entity.isNew created then
          throw (.storeFailed r.entity.name "create" "store did not assign an identity")
        else return created) :=
      unrefused_ask fun created =>
        Action.always_ite (fun _ => unrefused_throw rfl) fun _ => unrefused_pure created
    refine hcreate.mono fun es a ha e he hrefusal => ?_
    rw [ha e he] at hrefusal
    cases hrefusal
  | get id => exact silent_getById ⟨id, []⟩
  | getById q => exact silent_getById q
  | first q =>
    refine silent_of_check fun query => unrefused_ask fun found => ?_
    cases found with
    | nil => exact unrefused_throw rfl
    | cons x rest => exact unrefused_pure x
  | list q =>
    refine silent_of_check fun query => ?_
    rw [← bind_pure (ask (.query query none))]
    exact unrefused_ask fun found => unrefused_pure found
  | page q =>
    refine silent_of_check fun query => unrefused_ask (c := .count query) fun (total : UInt64) => ?_
    exact Action.always_ite (fun _ => unrefused_ask fun records => unrefused_pure _)
      fun _ => unrefused_pure _
  | update x id =>
    exact silent_of_check fun _ => unrefused_ask fun n => unrefused_settle id n
  | updateFields x fields =>
    exact silent_of_check fun _ => unrefused_ask fun n => unrefused_settle _ n
  | remove id =>
    exact silent_of_check fun _ => unrefused_ask fun _ => unrefused_lift fun _ =>
      unrefused_fetch id [] .all
  | restore id =>
    exact silent_of_check fun _ => unrefused_ask fun _ => unrefused_lift fun _ =>
      unrefused_fetch id [] .active
  | destroy id =>
    refine silent_of_check fun _ => unrefused_ask fun _ => ?_
    rw [← bind_pure (liftM (r.invalidate id) : Action α Unit)]
    exact unrefused_lift fun _ => unrefused_pure ()

theorem silent_getById_zero {q : IdRequest} (hq : q.id = 0) :
    Action.Always (r.getById q) fun es _ => es = [] := by
  refine Action.always_check (fun _ _ => rfl) fun _ hcheck => ?_
  simp [checkLookup, hq] at hcheck

/-- The rules for what an operation may say to its store and cache, given what it answers. -/
structure Obeys (r : Repository α) (op : Operation α) (es : List (Exchange α))
    (answer : Except RequestError op.Result) : Prop where
  refused : ∀ e, answer = .error e → e.isRefusal → es = []
  unidentified : ∀ q, op.lookup? = some q → q.id = 0 → es = []
  oneWrite : es.countP Exchange.isWrite ≤ 1
  purges : r.usesCache → ∀ front w back id, es = front ++ w :: back →
    w.reached r.entity = some id →
      ∃ a rest, back = ⟨.cache (.purge (CacheKey.base r.config.keyPrefix r.entity.name id)), a⟩ :: rest
  /-- What is kept in the cache is the document of the record that the store has just answered. -/
  keeps : ∀ front key text ttl a back, es = front ++ ⟨.cache (.set key text ttl), a⟩ :: back →
    ∃ q x before, op.lookup? = some q ∧
      front = before ++ [⟨.store (.find q.id q.preloads .active), .ok (some x)⟩] ∧
      key = CacheKey.variant r.config.keyPrefix r.entity.name q.id q.preloads ∧
      r.entity.snapshot? x = some text

namespace Conversation

variable {op : Operation α} {es : List (Exchange α)}

theorem oneWrite (h : r.Conversation op es) : es.countP Exchange.isWrite ≤ 1 := by
  have hreads {es : List (Exchange α)} (h : ∀ e ∈ es, e.isRead) : es.countP Exchange.isWrite = 0 :=
    List.countP_eq_zero.2 fun e he => by simp [Exchange.isWrite_of_isRead (h e he)]
  have hhead (e : Exchange α) {es : List (Exchange α)} (h : es.countP Exchange.isWrite = 0) :
      (e :: es).countP Exchange.isWrite ≤ 1 := by
    rw [List.countP_cons, h]
    split <;> omega
  cases h with
  | reads h => simp [hreads h]
  | served | missed | filled => exact hhead _ rfl
  | written _ _ h => exact hhead _ (hreads h)
  | purged _ _ h => exact hhead _ ((List.countP_cons_of_neg (by simp [Exchange.isWrite])).trans (hreads h))

theorem purges (h : r.Conversation op es) (hu : r.usesCache) {front back : List (Exchange α)}
    {w : Exchange α} {id : Id} (hes : es = front ++ w :: back)
    (hw : w.reached r.entity = some id) :
    ∃ a rest, back = ⟨.cache (r.purgeOf id), a⟩ :: rest := by
  have hreads {es : List (Exchange α)} (h : ∀ e ∈ es, e.isRead) (e : Exchange α) (he : e ∈ es) :
      e.reached r.entity = none := Exchange.reached_of_isRead _ (h e he)
  have habsurd {es : List (Exchange α)} (h : ∀ e ∈ es, e.reached r.entity = none) (hm : w ∈ es) :
      False := by
    rw [h w hm] at hw
    cases hw
  have hm : w ∈ es := by simp [hes]
  cases h with
  | reads h => exact (habsurd (hreads h) hm).elim
  | served => exact (habsurd (List.forall_mem_cons.2 ⟨rfl, by simp⟩) hm).elim
  | missed => exact (habsurd (List.forall_mem_cons.2 ⟨rfl, hreads (isRead_find _ _ _ _)⟩) hm).elim
  | filled =>
    exact (habsurd (List.forall_mem_cons.2 ⟨rfl, List.forall_mem_cons.2 ⟨rfl,
      List.forall_mem_cons.2 ⟨rfl, by simp⟩⟩⟩) hm).elim
  | written _ hquiet h =>
    exact (habsurd (List.forall_mem_cons.2 ⟨hquiet hu, hreads h⟩) hm).elim
  | @purged c a i b es _ hreached h =>
    rcases List.cons_eq_append_iff.1 hes with ⟨rfl, hback⟩ | ⟨front', rfl, hback⟩
    · obtain ⟨rfl, rfl⟩ := List.cons.inj hback
      rw [hreached] at hw
      obtain rfl := Option.some.inj hw
      exact ⟨b, es, rfl⟩
    · have hm : w ∈ (⟨.cache (r.purgeOf i), b⟩ : Exchange α) :: es := by simp [hback]
      exact (habsurd (List.forall_mem_cons.2 ⟨rfl, hreads h⟩) hm).elim

theorem keeps (h : r.Conversation op es) {front back : List (Exchange α)} {key text : String}
    {ttl : Duration} {a : (CacheCall.set key text ttl).Answer}
    (hes : es = front ++ ⟨.cache (.set key text ttl), a⟩ :: back) :
    ∃ q x before, op.lookup? = some q ∧
      front = before ++ [⟨.store (.find q.id q.preloads .active), .ok (some x)⟩] ∧
      key = r.keyOf q ∧ r.entity.snapshot? x = some text := by
  have habsurd {es : List (Exchange α)} (h : ∀ e ∈ es, e.call ≠ .cache (.set key text ttl))
      (hm : (⟨.cache (.set key text ttl), a⟩ : Exchange α) ∈ es) : False := h _ hm rfl
  have hreads {es : List (Exchange α)} (h : ∀ e ∈ es, e.isRead) (e : Exchange α) (he : e ∈ es) :
      e.call ≠ .cache (.set key text ttl) := by
    obtain ⟨c | c, answer⟩ := e
    · simp
    · cases h _ he
  have hm : (⟨.cache (.set key text ttl), a⟩ : Exchange α) ∈ es := by simp [hes]
  cases h with
  | reads h => exact (habsurd (hreads h) hm).elim
  | served | missed => exact (habsurd (by simp) hm).elim
  | written _ _ h => exact (habsurd (List.forall_mem_cons.2 ⟨by simp, hreads h⟩) hm).elim
  | purged _ _ h =>
    exact (habsurd (List.forall_mem_cons.2 ⟨by simp, List.forall_mem_cons.2
      ⟨by simp [purgeOf], hreads h⟩⟩) hm).elim
  | @filled q b x text' d hq htext =>
    match front, hes with
    | [], hes => simp at hes
    | [_], hes => simp at hes
    | [e, e'], hes =>
      simp only [List.cons_append, List.nil_append, List.cons.injEq, Exchange.mk.injEq,
        Call.cache.injEq, CacheCall.set.injEq] at hes
      obtain ⟨rfl, rfl, ⟨⟨rfl, rfl, -⟩, -⟩, -⟩ := hes
      exact ⟨q, x, [_], hq, rfl, rfl, htext⟩
    | _ :: _ :: _ :: _, hes => simp at hes

end Conversation

theorem obeys_protocol (r : Repository α) (op : Operation α) (h : Handler σ α) (s : σ) :
    r.Obeys op ((op.action r).run.exchanges h s) (Action.perform h (op.action r) s).1 := by
  have htalks := Program.talks_run h (op.action r).run s
  have hconversation := conversation_action (r := r) op _ _ htalks
  refine ⟨silent_action op _ _ htalks, fun q hop hq => ?_, hconversation.oneWrite,
    fun hu _ _ _ _ hes hw => hconversation.purges hu hes hw,
    fun _ _ _ _ _ _ hes => hconversation.keeps hes⟩
  cases op with
  | get id =>
    obtain rfl := Option.some.inj hop
    exact silent_getById_zero hq _ _ htalks
  | getById q' =>
    obtain rfl := Option.some.inj hop
    exact silent_getById_zero hq _ _ htalks
  | _ => cases hop

end Repository

namespace Operation

def Calls (r : Repository α) (op : Operation α) (c : StoreCall α) : Prop :=
  ∃ es a b, (op.action r).run.Talks es a ∧ ⟨.store c, b⟩ ∈ es

theorem Calls.write? {r : Repository α} {op : Operation α} {c : StoreCall α} (h : op.Calls r c)
    (hwrite : c.isWrite = true) : op.write? r = some c := by
  obtain ⟨es, a, b, htalks, hmem⟩ := h
  have hreads {es : List (Exchange α)} (hes : ∀ e ∈ es, e.isRead) : ⟨.store c, b⟩ ∉ es := by
    intro hmem
    have hread := hes _ hmem
    simp [Exchange.isRead, hwrite] at hread
  cases Repository.conversation_action op es a htalks with
  | reads hes => exact (hreads hes hmem).elim
  | served => simp at hmem
  | missed | filled =>
    simp only [List.mem_cons, List.not_mem_nil, or_false, Exchange.mk.injEq, Call.store.injEq,
      reduceCtorEq, false_and, false_or] at hmem
    obtain ⟨rfl, -⟩ := hmem
    cases hwrite
  | written hc _ hes =>
    rcases List.mem_cons.1 hmem with heq | hmem
    · obtain rfl := Call.store.inj (congrArg Exchange.call heq)
      exact hc
    · exact (hreads hes hmem).elim
  | purged hc _ hes =>
    rcases List.mem_cons.1 hmem with heq | hmem
    · obtain rfl := Call.store.inj (congrArg Exchange.call heq)
      exact hc
    · rcases List.mem_cons.1 hmem with heq | hmem
      · cases congrArg Exchange.call heq
      · exact (hreads hes hmem).elim

end Operation

end Recordkeeper
