import Recordkeeper.Proofs.Program

/-!
What programs say to a store and a cache, whatever these answer. A rule for each way to put actions
together says what holds of all they can say, with the outcome they come to.
-/

set_option autoImplicit false

namespace Recordkeeper

variable {σ α β γ : Type}

namespace Program

def Talks : Program α β → List (Exchange α) → β → Prop
  | .done r, es, b => es = [] ∧ b = r
  | .ask c next, es, b => ∃ a rest, es = ⟨c, a⟩ :: rest ∧ (next a).Talks rest b

theorem talks_run (h : Handler σ α) (p : Program α β) (s : σ) :
    p.Talks (p.exchanges h s) (p.run h s).1 := by
  induction p generalizing s with
  | done r => exact ⟨rfl, rfl⟩
  | ask c next ih => exact ⟨_, _, rfl, ih _ _⟩

theorem Talks.of_bind {p : Program α β} {f : β → Program α γ} {es : List (Exchange α)} {c : γ}
    (h : (p >>= f).Talks es c) :
    ∃ front b back, es = front ++ back ∧ p.Talks front b ∧ (f b).Talks back c := by
  induction p generalizing es with
  | done r => exact ⟨[], r, es, rfl, ⟨rfl, rfl⟩, h⟩
  | ask call next ih =>
    obtain ⟨a, rest, rfl, hrest⟩ := h
    obtain ⟨front, b, back, rfl, hp, hf⟩ := ih a hrest
    exact ⟨⟨call, a⟩ :: front, b, back, rfl, ⟨a, front, rfl, hp⟩, hf⟩

/-- The state of a handler after it took part in some exchanges. -/
def stateAfter (h : Handler σ α) (es : List (Exchange α)) (s : σ) : σ :=
  es.foldl (fun s e => (h.answer e.call s).2) s

theorem run_snd (h : Handler σ α) (p : Program α β) (s : σ) :
    (p.run h s).2 = stateAfter h (p.exchanges h s) s := by
  induction p generalizing s with
  | done r => rfl
  | ask c next ih => exact ih _ _

end Program

namespace Action

/-- Whatever the answers are, the exchanges and the outcome satisfy `P`. -/
def Always (x : Action α β) (P : List (Exchange α) → Except RequestError β → Prop) : Prop :=
  ∀ es a, x.run.Talks es a → P es a

variable {P Q : List (Exchange α) → Except RequestError β → Prop} {x : Action α β}

theorem Always.mono (hx : Always x P) (h : ∀ es a, P es a → Q es a) : Always x Q :=
  fun es a ht => h es a (hx es a ht)

theorem always_pure {b : β} (h : P [] (.ok b)) : Always (pure b) P := by
  rintro es a ⟨rfl, rfl⟩
  exact h

theorem always_throw {e : RequestError} (h : P [] (.error e)) : Always (throw e) P := by
  rintro es a ⟨rfl, rfl⟩
  exact h

theorem always_ite {c : Prop} [Decidable c] {y : Action α β} (hx : c → Always x P)
    (hy : ¬c → Always y P) : Always (if c then x else y) P := by
  split
  · next hc => exact hx hc
  · next hc => exact hy hc

theorem Always.bind {x : Action α γ} {f : γ → Action α β}
    (h : Always x fun es a =>
      match a with
      | .ok b => Always (f b) fun es' => P (es ++ es')
      | .error e => P es (.error e)) : Always (x >>= f) P := by
  intro es a ht
  rw [ExceptT.run_bind] at ht
  obtain ⟨front, b, back, rfl, hfront, hback⟩ := ht.of_bind
  have hx := h front b hfront
  cases b with
  | ok b => exact hx back a hback
  | error e =>
    obtain ⟨rfl, rfl⟩ := hback
    rw [List.append_nil]
    exact hx

theorem always_check {e : Except RequestError γ} {f : γ → Action α β}
    (hrefused : ∀ err, e = .error err → P [] (.error err)) (h : ∀ b, e = .ok b → Always (f b) P) :
    Always (liftExcept e >>= f) P := by
  cases e with
  | ok b =>
    have hf := h b rfl
    refine Always.bind (always_pure ?_)
    simpa using hf
  | error err => exact Always.bind (always_throw (hrefused err rfl))

theorem always_ask {c : StoreCall α} {f : c.Result → Action α β}
    (hfail : ∀ e, P [⟨.store c, .error e⟩] (.error (.store e)))
    (h : ∀ a, Always (f a) fun es => P (⟨.store c, .ok a⟩ :: es)) :
    Always (Repository.ask c >>= f) P := by
  refine Always.bind ?_
  rintro es a ⟨answer, rest, rfl, hrest⟩
  cases answer with
  | ok b =>
    obtain ⟨rfl, rfl⟩ := hrest
    exact h b
  | error e =>
    obtain ⟨rfl, rfl⟩ := hrest
    exact hfail e

theorem always_ask' {c : StoreCall α}
    {P : List (Exchange α) → Except RequestError c.Result → Prop}
    (hfail : ∀ e, P [⟨.store c, .error e⟩] (.error (.store e)))
    (h : ∀ a, P [⟨.store c, .ok a⟩] (.ok a)) : Always (Repository.ask c) P := by
  have hask := always_ask (f := pure) hfail fun a => always_pure (h a)
  rwa [bind_pure] at hask

theorem always_lift {p : Program α γ} {f : γ → Action α β}
    (h : ∀ es b, p.Talks es b → Always (f b) fun es' => P (es ++ es')) :
    Always (liftM p >>= f) P := by
  refine Always.bind ?_
  intro es a ht
  have hl : (liftM p : Action α γ).run = (p >>= fun b => pure (.ok b)) := rfl
  rw [hl] at ht
  obtain ⟨front, b, back, rfl, hfront, rfl, rfl⟩ := ht.of_bind
  rw [List.append_nil]
  exact h front b hfront

end Action

end Recordkeeper
