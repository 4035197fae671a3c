import Recordkeeper.Repository

/-!
Running programs and actions against a handler. A triple says where a run can end, given where it
starts; there is one rule for each way to put programs together.
-/

set_option autoImplicit false

namespace Recordkeeper

variable {σ α β γ : Type} {h : Handler σ α}

namespace Program

theorem run_bind' (h : Handler σ α) (p : Program α β) (f : β → Program α γ) (s : σ) :
    (p >>= f).run h s = (f (p.run h s).1).run h (p.run h s).2 := run_bind h p f s

@[simp] theorem run_askStore (h : Handler σ α) (c : StoreCall α) (s : σ) :
    (askStore c).run h s = h.store c s := rfl

@[simp] theorem run_askCache (h : Handler σ α) (c : CacheCall) (s : σ) :
    (askCache c).run h s = h.cache c s := rfl

/-- Every call that the program can make satisfies `Q`, whatever the answers are. -/
def Makes (Q : Call α → Prop) : Program α β → Prop
  | .done _ => True
  | .ask c next => Q c ∧ ∀ a, (next a).Makes Q

theorem Makes.bind {Q : Call α → Prop} {p : Program α β} {f : β → Program α γ} (hp : p.Makes Q)
    (hf : ∀ b, (f b).Makes Q) : (p >>= f).Makes Q := by
  induction p with
  | done r => exact hf r
  | ask c next ih => exact ⟨hp.1, fun a => ih a (hp.2 a)⟩

theorem Makes.mono {Q Q' : Call α → Prop} {p : Program α β} (hp : p.Makes Q)
    (h : ∀ c, Q c → Q' c) : p.Makes Q' := by
  induction p with
  | done r => trivial
  | ask c next ih => exact ⟨h c hp.1, fun a => ih a (hp.2 a)⟩

theorem Makes.run_keeps {Q : Call α → Prop} {P : σ → Prop} {p : Program α β} (hp : p.Makes Q)
    (hP : ∀ c s, Q c → P s → P (h.answer c s).2) {s : σ} (hs : P s) : P (p.run h s).2 := by
  induction p generalizing s with
  | done r => exact hs
  | ask c next ih => exact ih _ (hp.2 _) (hP c s hp.1 hs)

/-- Handlers that answer such calls alike from related states give the program one result. -/
theorem Makes.run_same {τ : Type} {h' : Handler τ α} {Q : Call α → Prop} {R : σ → τ → Prop}
    {p : Program α β} (hp : p.Makes Q)
    (hstep : ∀ c s t, Q c → R s t →
      (h.answer c s).1 = (h'.answer c t).1 ∧ R (h.answer c s).2 (h'.answer c t).2)
    {s : σ} {t : τ} (hs : R s t) : (p.run h s).1 = (p.run h' t).1 := by
  induction p generalizing s t with
  | done r => rfl
  | ask c next ih =>
    obtain ⟨hanswer, hafter⟩ := hstep c s t hp.1 hs
    simp only [run, hanswer]
    exact ih _ (hp.2 _) hafter

theorem Makes.of_mem {Q : Call α → Prop} {p : Program α β} (hp : p.Makes Q) {s : σ}
    {e : Exchange α} (he : e ∈ p.exchanges h s) : Q e.call := by
  induction p generalizing s with
  | done r => cases he
  | ask c next ih =>
    rcases List.mem_cons.1 he with rfl | he
    · exact hp.1
    · exact ih _ (hp.2 _) he

theorem makes_true (p : Program α β) : p.Makes fun _ => True := by
  induction p with
  | done r => trivial
  | ask c next ih => exact ⟨trivial, ih⟩

theorem run_keeps {P : σ → Prop} (hP : ∀ (c : Call α) s, P s → P (h.answer c s).2)
    (p : Program α β) {s : σ} (hs : P s) : P (p.run h s).2 :=
  p.makes_true.run_keeps (fun c s _ => hP c s) hs

/-- From every state in `pre`, the result and the last state satisfy `post`. -/
def Leads (h : Handler σ α) (pre : σ → Prop) (p : Program α β) (post : β → σ → Prop) : Prop :=
  ∀ s, pre s → post (p.run h s).1 (p.run h s).2

variable {pre : σ → Prop} {p : Program α β}

end Program

namespace Action

def perform (h : Handler σ α) (x : Action α β) (s : σ) : Except RequestError β × σ :=
  x.run.run h s

theorem perform_pure (b : β) (s : σ) : perform h (pure b) s = (.ok b, s) := rfl

theorem perform_bind (x : Action α β) (f : β → Action α γ) (s : σ) :
    perform h (x >>= f) s =
      match perform h x s with
      | (.ok b, s') => perform h (f b) s'
      | (.error e, s') => (.error e, s') := by
  unfold perform
  rw [ExceptT.run_bind, Program.run_bind']
  rcases hx : x.run.run h s with ⟨a, s'⟩
  cases a <;> rfl

theorem perform_bind_ok {x : Action α β} {s s' : σ} {b : β} (hx : perform h x s = (.ok b, s'))
    (f : β → Action α γ) : perform h (x >>= f) s = perform h (f b) s' := by
  rw [perform_bind, hx]

theorem perform_lift (p : Program α β) (s : σ) :
    perform h (liftM p : Action α β) s = (.ok (p.run h s).1, (p.run h s).2) := by
  have hl : (liftM p : Action α β).run = (p >>= fun b => pure (.ok b)) := rfl
  unfold perform
  rw [hl, Program.run_bind']
  rfl

theorem perform_liftExcept (e : Except RequestError β) (s : σ) :
    perform h (liftExcept e : Action α β) s = (e, s) := by
  cases e <;> rfl

theorem perform_check_ok {e : Except RequestError β} {b : β} (he : e = .ok b)
    (f : β → Action α γ) (s : σ) : perform h (liftExcept e >>= f) s = perform h (f b) s := by
  rw [perform_bind, perform_liftExcept, he]

theorem perform_check_error {e : Except RequestError β} {err : RequestError} (he : e = .error err)
    (f : β → Action α γ) (s : σ) : perform h (liftExcept e >>= f) s = (.error err, s) := by
  rw [perform_bind, perform_liftExcept, he]

theorem perform_ask (c : StoreCall α) (s : σ) :
    perform h (Repository.ask c) s =
      ((h.store c s).1.mapError RequestError.store, (h.store c s).2) := by
  unfold Repository.ask
  rw [perform_bind, perform_lift, Program.run_askStore]
  rcases h.store c s with ⟨a, s'⟩
  cases a <;> rfl

def Makes (Q : Call α → Prop) (x : Action α β) : Prop := x.run.Makes Q

section

variable {Q : Call α → Prop}

theorem makes_pure (b : β) : Makes Q (pure b : Action α β) := trivial

theorem makes_throw (e : RequestError) : Makes Q (throw e : Action α β) := trivial

theorem makes_liftExcept (e : Except RequestError β) : Makes Q (liftExcept e : Action α β) := by
  cases e <;> trivial

theorem makes_lift {p : Program α β} (hp : p.Makes Q) : Makes Q (liftM p : Action α β) :=
  hp.bind fun _ => trivial

theorem Makes.bind {x : Action α β} {f : β → Action α γ} (hx : Makes Q x)
    (hf : ∀ b, Makes Q (f b)) : Makes Q (x >>= f) := by
  unfold Makes
  rw [ExceptT.run_bind]
  refine Program.Makes.bind hx fun a => ?_
  cases a with
  | ok b => exact hf b
  | error e => trivial

theorem makes_check {e : Except RequestError β} {f : β → Action α γ}
    (hf : ∀ b, e = .ok b → Makes Q (f b)) : Makes Q (liftExcept e >>= f) := by
  cases e with
  | ok b => exact hf b rfl
  | error e => exact makes_throw e

theorem makes_ask {c : StoreCall α} (hc : Q (.store c)) : Makes Q (Repository.ask c) := by
  refine Makes.bind (makes_lift ⟨hc, fun _ => trivial⟩) fun a => ?_
  cases a with
  | ok a => exact makes_pure a
  | error e => exact makes_throw _

theorem makes_ite {c : Prop} [Decidable c] {x y : Action α β} (hx : c → Makes Q x)
    (hy : ¬c → Makes Q y) : Makes Q (if c then x else y) := by
  split
  · next hc => exact hx hc
  · next hc => exact hy hc

end

/-- A success satisfies `good`, a failure `bad`. -/
def Lands {ε : Type} (good : β → σ → Prop) (bad : σ → Prop) : Except ε β × σ → Prop
  | (.ok b, s) => good b s
  | (.error _, s) => bad s

theorem Lands.of_ok {ε : Type} {good : β → σ → Prop} {bad : σ → Prop} {r : Except ε β × σ}
    (h : Lands good bad r) {b : β} (hb : r.1 = .ok b) : good b r.2 := by
  obtain ⟨a, s⟩ := r
  obtain rfl : a = .ok b := hb
  exact h

theorem Lands.of_error {ε : Type} {good : β → σ → Prop} {bad : σ → Prop} {r : Except ε β × σ}
    (h : Lands good bad r) {e : ε} (he : r.1 = .error e) : bad r.2 := by
  obtain ⟨a, s⟩ := r
  obtain rfl : a = .error e := he
  exact h

theorem Lands.snd {ε : Type} {P : σ → Prop} {r : Except ε β × σ} (h : Lands (fun _ => P) P r) :
    P r.2 := by
  obtain ⟨a, s⟩ := r
  cases a <;> exact h

/-- From every state in `pre`, an action that succeeds ends in `good`, and one that fails in
`bad`. -/
def Ends (h : Handler σ α) (pre : σ → Prop) (x : Action α β) (good : β → σ → Prop)
    (bad : σ → Prop) : Prop :=
  ∀ s, pre s → Lands good bad (perform h x s)

variable {pre bad : σ → Prop} {x : Action α β} {good : β → σ → Prop}

theorem ends_pure {b : β} (hb : ∀ s, pre s → good b s) : Ends h pre (pure b) good bad := hb

theorem ends_throw {e : RequestError} (he : ∀ s, pre s → bad s) :
    Ends h pre (throw e : Action α β) good bad := he

theorem Ends.bind {f : β → Action α γ} {mid : β → σ → Prop} {post : γ → σ → Prop}
    (hx : Ends h pre x mid bad) (hf : ∀ b, Ends h (mid b) (f b) post bad) :
    Ends h pre (x >>= f) post bad := by
  intro s hs
  have hm := hx s hs
  rw [perform_bind]
  rcases hr : perform h x s with ⟨a, s'⟩
  rw [hr] at hm
  cases a with
  | ok b => exact hf b s' hm
  | error e => exact hm

theorem ends_ite {c : Prop} [Decidable c] {y : Action α β} (hx : c → Ends h pre x good bad)
    (hy : ¬c → Ends h pre y good bad) : Ends h pre (if c then x else y) good bad := by
  split
  · next hc => exact hx hc
  · next hc => exact hy hc

theorem ends_lift {p : Program α β} (hp : p.Leads h pre good) :
    Ends h pre (liftM p) good bad := by
  intro s hs
  rw [perform_lift]
  exact hp s hs

theorem ends_liftExcept {e : Except RequestError β} (hb : ∀ s, pre s → bad s)
    (hg : ∀ b, e = .ok b → ∀ s, pre s → good b s) : Ends h pre (liftExcept e) good bad := by
  intro s hs
  rw [perform_liftExcept]
  cases e with
  | ok b => exact hg b rfl s hs
  | error e => exact hb s hs

theorem Ends.mono {pre' bad' : σ → Prop} {good' : β → σ → Prop} (hx : Ends h pre x good bad)
    (hp : ∀ s, pre' s → pre s) (hg : ∀ b s, good b s → good' b s) (hb : ∀ s, bad s → bad' s) :
    Ends h pre' x good' bad' := by
  intro s hs
  have hm := hx s (hp s hs)
  rcases hr : perform h x s with ⟨a, s'⟩
  rw [hr] at hm
  cases a with
  | ok b => exact hg b s' hm
  | error e => exact hb s' hm

theorem ends_ask {c : StoreCall α} {good : c.Result → σ → Prop}
    (hc : ∀ s, pre s → Lands good bad (h.store c s)) : Ends h pre (Repository.ask c) good bad := by
  intro s hs
  have hm := hc s hs
  rw [perform_ask]
  rcases hr : h.store c s with ⟨a, s'⟩
  rw [hr] at hm
  cases a with
  | ok a => exact hm
  | error e => exact hm

end Action

end Recordkeeper
