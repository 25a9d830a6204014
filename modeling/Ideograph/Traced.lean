import Ideograph.Error

/-! # Computations that ask for glyphs

A computation may fail, and keeps the characters that it asked for in order, up to and including
the one at which it failed.
-/

namespace Ideograph

structure Traced (β : Type) where
  requests : List Char
  outcome : Except RenderError β

namespace Traced

variable {β γ : Type}

protected def pure (b : β) : Traced β :=
  ⟨[], .ok b⟩

def fail (e : RenderError) : Traced β :=
  ⟨[], .error e⟩

/-- A computation that asks for nothing. -/
def lift (outcome : Except RenderError β) : Traced β :=
  ⟨[], outcome⟩

/-- Ask for one character. -/
def request (c : Char) (answer : Except RenderError β) : Traced β :=
  ⟨[c], answer⟩

protected def bind (t : Traced β) (f : β → Traced γ) : Traced γ :=
  match t.outcome with
  | .ok b => ⟨t.requests ++ (f b).requests, (f b).outcome⟩
  | .error e => ⟨t.requests, .error e⟩

instance instMonad : Monad Traced where
  pure := Traced.pure
  bind := Traced.bind

theorem bind_eq (t : Traced β) (f : β → Traced γ) : t >>= f = t.bind f := rfl

theorem bind_of_ok {t : Traced β} {b : β} (h : t.outcome = .ok b) (f : β → Traced γ) :
    t >>= f = ⟨t.requests ++ (f b).requests, (f b).outcome⟩ := by
  simp only [bind_eq, Traced.bind, h]

theorem bind_of_error {t : Traced β} {e : RenderError} (h : t.outcome = .error e)
    (f : β → Traced γ) : t >>= f = ⟨t.requests, .error e⟩ := by
  simp only [bind_eq, Traced.bind, h]

@[simp] theorem outcome_pure (b : β) : (pure b : Traced β).outcome = .ok b := rfl

@[simp] theorem outcome_fail (e : RenderError) : (fail e : Traced β).outcome = .error e := rfl

@[simp] theorem outcome_lift (outcome : Except RenderError β) :
    (lift outcome).outcome = outcome := rfl

@[simp] theorem requests_pure (b : β) : (pure b : Traced β).requests = [] := rfl

/-- What only works on an answer asks for nothing more. -/
theorem requests_bind {t : Traced β} {f : β → Traced γ} (h : ∀ b, (f b).requests = []) :
    (t >>= f).requests = t.requests := by
  rcases hout : t.outcome with e | b
  · rw [bind_of_error hout]
  · rw [bind_of_ok hout, h, List.append_nil]

theorem outcome_bind_eq_ok {t : Traced β} {f : β → Traced γ} {c : γ} :
    (t >>= f).outcome = .ok c ↔ ∃ b, t.outcome = .ok b ∧ (f b).outcome = .ok c := by
  rcases h : t.outcome with e | b
  · simp [bind_of_error h]
  · simp [bind_of_ok h]

theorem outcome_bind_eq_error {t : Traced β} {f : β → Traced γ} {e : RenderError} :
    (t >>= f).outcome = .error e ↔
      t.outcome = .error e ∨ ∃ b, t.outcome = .ok b ∧ (f b).outcome = .error e := by
  rcases h : t.outcome with e' | b
  · simp [bind_of_error h]
  · simp [bind_of_ok h]

instance instLawfulMonad : LawfulMonad Traced :=
  .mk' Traced
    (fun t => by rcases t with ⟨_, _ | _⟩ <;> simp [Functor.map, Traced.bind, Traced.pure])
    (fun b f => by simp [bind_eq, Traced.bind, pure, Traced.pure])
    (fun t f g => by
      rcases t with ⟨_, _ | b⟩
      · simp [bind_eq, Traced.bind]
      · rcases h : f b with ⟨_, _ | _⟩ <;> simp [bind_eq, Traced.bind, h])

theorem lift_map (f : β → γ) (outcome : Except RenderError β) :
    lift (f <$> outcome) = f <$> lift outcome := by
  cases outcome <;> rfl

end Traced

end Ideograph
