import Recordkeeper.Cache
import Recordkeeper.Store

/-!
Programs that consult a store and a cache. A program is its result, or a call and what follows
each answer to it; a handler answers the calls from a state of its own, and may answer anything.
-/

set_option autoImplicit false

namespace Recordkeeper

inductive Call (α : Type) where
  | store (call : StoreCall α)
  | cache (call : CacheCall)

namespace Call

variable {α : Type}

abbrev Answer : Call α → Type
  | store c => c.Answer
  | cache c => c.Answer

end Call

inductive Program (α β : Type) where
  | done (result : β)
  | ask (call : Call α) (next : call.Answer → Program α β)

structure Exchange (α : Type) where
  call : Call α
  answer : call.Answer

structure Handler (σ α : Type) where
  store : (c : StoreCall α) → σ → c.Answer × σ
  cache : (c : CacheCall) → σ → c.Answer × σ

def Handler.answer {σ α : Type} (h : Handler σ α) : (c : Call α) → σ → c.Answer × σ
  | .store c => h.store c
  | .cache c => h.cache c

namespace Program

variable {σ α β γ : Type}

def bind : Program α β → (β → Program α γ) → Program α γ
  | .done r, f => f r
  | .ask c next, f => .ask c fun a => (next a).bind f

instance : Monad (Program α) where
  pure := .done
  bind := .bind

def askStore (c : StoreCall α) : Program α c.Answer := .ask (.store c) .done

def askCache (c : CacheCall) : Program α c.Answer := .ask (.cache c) .done

def run (h : Handler σ α) : Program α β → σ → β × σ
  | .done r, s => (r, s)
  | .ask c next, s => run h (next (h.answer c s).1) (h.answer c s).2

def exchanges (h : Handler σ α) : Program α β → σ → List (Exchange α)
  | .done _, _ => []
  | .ask c next, s => ⟨c, (h.answer c s).1⟩ :: exchanges h (next (h.answer c s).1) (h.answer c s).2

theorem bind_done (x : Program α β) : x.bind .done = x := by
  induction x with
  | done r => rfl
  | ask c next ih => simp [bind, ih]

theorem bind_assoc {δ : Type} (x : Program α β) (f : β → Program α γ) (g : γ → Program α δ) :
    (x.bind f).bind g = x.bind fun b => (f b).bind g := by
  induction x with
  | done r => rfl
  | ask c next ih => simp [bind, ih]

instance : LawfulMonad (Program α) := LawfulMonad.mk' _
  (fun x => bind_done x) (fun _ _ => rfl) (fun x f g => bind_assoc x f g)

theorem run_bind (h : Handler σ α) (x : Program α β) (f : β → Program α γ) (s : σ) :
    (x.bind f).run h s = (f (x.run h s).1).run h (x.run h s).2 := by
  induction x generalizing s with
  | done r => rfl
  | ask c next ih => simp [bind, run, ih]

end Program

end Recordkeeper
