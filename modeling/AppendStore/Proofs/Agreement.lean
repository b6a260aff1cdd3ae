import AppendStore.Action

/-!
# Computations that agree

`Action.Agree R x y` says that `x` and `y`, started in states that `R` relates, end the same
way: with the same value or with the same error, and in states that `R` relates again. What
`R` leaves open therefore has no influence on what is answered.

Computations that are put together alike from parts that agree agree as a whole, so for a
relation it has to be shown of the primitive steps alone.
-/

namespace AppendStore

structure Over.Related {α β : Type} (R : β → β → Prop) (o o' : Over α β) : Prop where
  item : o.item = o'.item
  base : R o.base o'.base

namespace Action

variable {ε ε' σ α β : Type}

inductive Matches (R : σ → σ → Prop) : EStateM.Result ε σ α → EStateM.Result ε σ α → Prop
  | ok (a : α) {s t : σ} (h : R s t) : Matches R (.ok a s) (.ok a t)
  | error (e : ε) {s t : σ} (h : R s t) : Matches R (.error e s) (.error e t)

/-- From related states the two computations come to the same result. -/
def Agree (R : σ → σ → Prop) (x y : EStateM ε σ α) : Prop :=
  ∀ ⦃s t⦄, R s t → Matches R (x s) (y t)

namespace Agree

variable {R : σ → σ → Prop} {x y : EStateM ε σ α} {f g : α → EStateM ε σ β} {s t : σ}

theorem cases (h : Agree R x y) (hrel : R s t) :
    (∃ a s' t', x s = .ok a s' ∧ y t = .ok a t' ∧ R s' t') ∨
      ∃ e s' t', x s = .error e s' ∧ y t = .error e t' ∧ R s' t' := by
  have hmatch := h hrel
  generalize x s = r, y t = r' at hmatch ⊢
  cases hmatch with
  | ok a hrel' => exact .inl ⟨a, _, _, rfl, rfl, hrel'⟩
  | error e hrel' => exact .inr ⟨e, _, _, rfl, rfl, hrel'⟩

theorem pure (a : α) : Agree R (Pure.pure a : EStateM ε σ α) (Pure.pure a) :=
  fun _ _ h => .ok a h

theorem throw (e : ε) :
    Agree R (MonadExcept.throw e : EStateM ε σ α) (MonadExcept.throw e) :=
  fun _ _ h => .error e h

theorem bind (hx : Agree R x y) (hf : ∀ a, Agree R (f a) (g a)) :
    Agree R (x >>= f) (y >>= g) := by
  intro s t h
  rcases hx.cases h with ⟨a, s', t', hs, ht, hrel⟩ | ⟨e, s', t', hs, ht, hrel⟩
  · rw [bind_of_ok hs, bind_of_ok ht]
    exact hf a hrel
  · rw [bind_of_error hs, bind_of_error ht]
    exact .error e hrel

theorem get_bind {f g : σ → EStateM ε σ β} (hf : ∀ s t, R s t → Matches R (f s s) (g t t)) :
    Agree R (get >>= f) (get >>= g) :=
  fun s t h => hf s t h

theorem attempt (hx : Agree R x y) :
    Agree R (Action.attempt x : EStateM ε' σ (Except ε α)) (Action.attempt y) := by
  intro s t h
  rcases hx.cases h with ⟨a, s', t', hs, ht, hrel⟩ | ⟨e, s', t', hs, ht, hrel⟩
  · rw [attempt_of_ok hs, attempt_of_ok ht]
    exact .ok _ hrel
  · rw [attempt_of_error hs, attempt_of_error ht]
    exact .ok _ hrel

theorem ofExcept (x : Except ε α) : Agree R (Action.ofExcept x) (Action.ofExcept x) := by
  intro s t h
  cases x with
  | ok a => exact .ok a h
  | error e => exact .error e h

theorem ofIo {x y : EStateM IoError σ α} (hx : Agree R x y) :
    Agree R (Action.ofIo x) (Action.ofIo y) := by
  intro s t h
  unfold Action.ofIo
  rcases hx.cases h with ⟨a, s', t', hs, ht, hrel⟩ | ⟨e, s', t', hs, ht, hrel⟩
  · rw [hs, ht]
    exact .ok a hrel
  · rw [hs, ht]
    exact .error _ hrel

variable {τ : Type}

theorem onBase (hx : Agree R x y) :
    Agree (Over.Related R) (Action.onBase x : EStateM ε (Over τ σ) α) (Action.onBase y) := by
  rintro ⟨i, s⟩ ⟨i', t⟩ ⟨rfl, h⟩
  rcases hx.cases h with ⟨a, s', t', hs, ht, hrel⟩ | ⟨e, s', t', hs, ht, hrel⟩
  · rw [onBase_of_ok hs, onBase_of_ok ht]
    exact .ok a ⟨rfl, hrel⟩
  · rw [onBase_of_error hs, onBase_of_error ht]
    exact .error e ⟨rfl, hrel⟩

theorem item : Agree (Over.Related R) (Action.item : EStateM ε (Over τ σ) τ) Action.item := by
  rintro ⟨i, s⟩ ⟨i', t⟩ ⟨rfl, h⟩
  exact .ok i ⟨rfl, h⟩

theorem setItem (i : τ) :
    Agree (Over.Related R) (Action.setItem i : EStateM ε (Over τ σ) Unit) (Action.setItem i) :=
  fun _ _ h => .ok () ⟨rfl, h.base⟩

end Agree

end Action

end AppendStore
