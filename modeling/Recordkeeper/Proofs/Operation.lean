import Recordkeeper.Proofs.Run

set_option autoImplicit false

namespace Recordkeeper

variable {α β : Type}

def Operation.mayAsk (r : Repository α) : Operation α → StoreCall α → Prop
  | _, .find .. | _, .query .. | _, .count _ => True
  | .create x, .insert y => y = x
  | .update x _, .save y => y = x
  | .updateFields x fields, .updateFields id given => id = r.entity.identity x ∧ given = fields
  | .remove id, .softDelete i => i = id
  | .restore id, .clearTombstone i => i = id
  | .destroy id, .hardDelete i => i = id
  | _, _ => False

def CacheCall.Lasts (life : Duration) : CacheCall → Prop
  | .set _ _ given => given = life
  | _ => True

namespace Repository

variable {r : Repository α}

/-- The calls to the store are limited; a cache is asked only if one is used, and to keep records for
the time that is configured. -/
def Asks (r : Repository α) (allowed : StoreCall α → Prop) : Call α → Prop
  | .store c => allowed c
  | .cache c => r.usesCache = true ∧ c.Lasts r.config.cacheTtl

variable {allowed : StoreCall α → Prop}

theorem makes_ask {c : StoreCall α} (hc : allowed c) : Action.Makes (r.Asks allowed) (ask c) :=
  Action.makes_ask hc

theorem makes_askCache (hu : r.usesCache = true) (c : CacheCall) (hc : c.Lasts r.config.cacheTtl)
    {f : c.Answer → Program α β} (hf : ∀ a, (f a).Makes (r.Asks allowed)) :
    (Program.askCache c >>= f : Program α β).Makes (r.Asks allowed) := ⟨⟨hu, hc⟩, hf⟩

theorem makes_invalidate (id : Id) :
    Action.Makes (r.Asks allowed) (liftM (r.invalidate id)) := by
  refine Action.makes_lift ?_
  unfold invalidate
  split
  · next hu => exact makes_askCache hu (.purge _) trivial fun _ => trivial
  · trivial

theorem makes_fetch (id : Id) (preloads : List String) (v : Visibility)
    (hfind : allowed (.find id preloads v)) :
    Action.Makes (r.Asks allowed) (r.fetch id preloads v) := by
  refine (makes_ask hfind).bind fun found => ?_
  cases found with
  | none => exact Action.makes_throw _
  | some x => exact Action.makes_pure x

theorem makes_getById (q : IdRequest) (hfind : allowed (.find q.id q.preloads .active)) :
    Action.Makes (r.Asks allowed) (r.getById q) := by
  refine (Action.makes_liftExcept _).bind fun _ =>
    Action.makes_ite (fun hu => ?_) fun _ => makes_fetch _ _ _ hfind
  have hread (key : String) : (r.readCached key).Makes (r.Asks allowed) := by
    refine makes_askCache hu (.get key) trivial fun a => ?_
    split <;> trivial
  have hwrite (key : String) (x : α) : (r.writeCached key x).Makes (r.Asks allowed) := by
    unfold writeCached
    split
    · exact makes_askCache hu (.set key _ _) rfl fun _ => trivial
    · trivial
  refine (Action.makes_lift (hread _)).bind fun found => ?_
  cases found with
  | some x => exact Action.makes_pure x
  | none =>
    exact (makes_fetch _ _ _ hfind).bind fun x => (Action.makes_lift (hwrite _ x)).bind fun _ =>
      Action.makes_pure x

theorem makes_settle (id : Id) (affected : UInt64) (hfind : allowed (.find id [] .active)) :
    Action.Makes (r.Asks allowed) (r.settle id affected) :=
  Action.makes_ite (fun _ => Action.makes_throw _) fun _ =>
    (makes_invalidate id).bind fun _ => makes_fetch id [] .active hfind

theorem makes_call (op : Operation α) (c : StoreCall α) (hc : op.mayAsk r c) :
    Action.Makes (r.Asks (op.mayAsk r)) (ask c) := makes_ask hc

theorem makes_action (op : Operation α) :
    Action.Makes (r.Asks (op.mayAsk r)) (op.action r) := by
  cases op with
  | create x =>
    refine Action.makes_ite (fun _ => ?_) fun _ => Action.makes_throw _
    exact (makes_call (.create x) (.insert x) rfl).bind fun created =>
      Action.makes_ite (fun _ => Action.makes_throw _) fun _ => Action.makes_pure created
  | get id => exact makes_getById ⟨id, []⟩ trivial
  | getById q => exact makes_getById q trivial
  | first q =>
    refine (Action.makes_liftExcept _).bind fun query =>
      (makes_call (.first q) (.query query (some .first)) trivial).bind fun found => ?_
    cases found with
    | nil => exact Action.makes_throw _
    | cons x rest => exact Action.makes_pure x
  | list q =>
    exact (Action.makes_liftExcept _).bind fun query => makes_call (.list q) (.query query none) trivial
  | page q =>
    refine (Action.makes_liftExcept _).bind fun query =>
      (makes_call (.page q) (.count query) trivial).bind fun (total : UInt64) => ?_
    exact Action.makes_ite (fun _ =>
      (makes_call (.page q) (.query query _) trivial).bind fun records => Action.makes_pure _)
      fun _ => Action.makes_pure _
  | update x id =>
    exact (Action.makes_liftExcept _).bind fun _ =>
      (makes_call (.update x id) (.save x) rfl).bind fun n => makes_settle id n trivial
  | updateFields x fields =>
    exact (Action.makes_liftExcept _).bind fun _ =>
      (makes_call (.updateFields x fields) (.updateFields _ fields) ⟨rfl, rfl⟩).bind fun n =>
        makes_settle _ n trivial
  | remove id =>
    exact (Action.makes_liftExcept _).bind fun _ =>
      (makes_call (.remove id) (.softDelete id) rfl).bind fun _ =>
        (makes_invalidate id).bind fun _ => makes_fetch id [] .all trivial
  | restore id =>
    exact (Action.makes_liftExcept _).bind fun _ =>
      (makes_call (.restore id) (.clearTombstone id) rfl).bind fun _ =>
        (makes_invalidate id).bind fun _ => makes_fetch id [] .active trivial
  | destroy id =>
    exact (Action.makes_liftExcept _).bind fun _ =>
      (makes_call (.destroy id) (.hardDelete id) rfl).bind fun _ => makes_invalidate id

theorem perform_keeps {P : Table → Prop} {s : Step α}
    (hP : ∀ now t c, s.operation.mayAsk r c → P t → P (t.answer r.entity now c).2) {m : Memory}
    (hm : P m.table) : P (r.perform s m).2.table := by
  refine Program.Makes.run_keeps (P := fun m : Memory => P m.table) (makes_action s.operation)
    (fun c m hc h => ?_) hm
  rcases Memory.table_faulty r.entity s.faults c m with ht | ⟨call, rfl, ht⟩
  · rwa [ht]
  · rw [ht]
    exact hP _ _ _ hc h

end Repository

end Recordkeeper
