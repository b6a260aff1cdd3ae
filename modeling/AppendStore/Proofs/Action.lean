import AppendStore.Action

/-!
# Properties that computations keep

`Action.Keeps P x` says that `x`, started in a state with the property `P`, leaves one with
`P`, whether it fails or not. What every step of a computation keeps the computation keeps.

`Action.FailsAs P x` says that every failure of `x` has the property `P`. The failures of a
computation are those of its steps.
-/

namespace AppendStore

namespace Action

variable {ε ε' σ τ α β : Type}

theorem ofExcept_eq_ok {x : Except ε α} {a : α} {s s' : σ} (h : ofExcept x s = .ok a s') :
    x = .ok a ∧ s' = s := by
  unfold ofExcept at h
  cases x with
  | error e => cases h
  | ok b =>
    cases h
    exact ⟨rfl, rfl⟩

/-- The state that a computation leaves behind, whether it succeeds or not. -/
def leaves (x : EStateM ε σ α) (s : σ) : σ :=
  match x s with
  | .ok _ s' => s'
  | .error _ s' => s'

theorem leaves_bind_pure (x : EStateM ε σ α) (f : α → β) (s : σ) :
    leaves (x >>= fun a => pure (f a)) s = leaves x s := by
  unfold leaves
  cases hresult : x s with
  | ok a s' => rw [bind_of_ok hresult]; rfl
  | error e s' => rw [bind_of_error hresult]

theorem run'_of_ok {x : EStateM ε σ α} {a : α} {s s' : σ} (h : x s = .ok a s') :
    x.run' s = some a := by
  delta EStateM.run' EStateM.run
  rw [h]

theorem leaves_zoom (get : τ → σ) (put : σ → τ → τ) (x : EStateM ε σ α) (t : τ) :
    leaves (zoom get put x) t = put (leaves x (get t)) t := by
  unfold leaves zoom
  cases x (get t) <;> rfl

theorem zoom_eq_error {get : τ → σ} {put : σ → τ → τ} {x : EStateM ε σ α} {t t' : τ} {e : ε}
    (h : zoom get put x t = .error e t') : ∃ s, x (get t) = .error e s := by
  cases hresult : x (get t) with
  | ok a s => cases (zoom_of_ok hresult).symm.trans h
  | error e' s =>
    cases (zoom_of_error hresult).symm.trans h
    exact ⟨s, rfl⟩

/-- Whatever the computation leaves behind has the property. -/
def Keeps (P : σ → Prop) (x : EStateM ε σ α) : Prop :=
  ∀ s, P s → match x s with
    | .ok _ s' => P s'
    | .error _ s' => P s'

namespace Keeps

variable {P : σ → Prop} {x : EStateM ε σ α} {f : α → EStateM ε σ β} {s s' : σ}

theorem of_ok {a : α} (h : Keeps P x) (hs : P s) (hx : x s = .ok a s') : P s' := by
  have hkept := h s hs
  rwa [hx] at hkept

theorem of_error {e : ε} (h : Keeps P x) (hs : P s) (hx : x s = .error e s') : P s' := by
  have hkept := h s hs
  rwa [hx] at hkept

theorem leaves (h : Keeps P x) (hs : P s) : P (Action.leaves x s) := by
  unfold Action.leaves
  cases hresult : x s with
  | ok a s' => exact h.of_ok hs hresult
  | error e s' => exact h.of_error hs hresult

theorem pure (a : α) : Keeps P (Pure.pure a : EStateM ε σ α) := fun _ h => h

theorem throw (e : ε) : Keeps P (MonadExcept.throw e : EStateM ε σ α) := fun _ h => h

theorem bind (hx : Keeps P x) (hf : ∀ a, Keeps P (f a)) : Keeps P (x >>= f) := by
  intro s h
  cases hresult : x s with
  | ok a s' =>
    rw [bind_of_ok hresult]
    exact hf a s' (hx.of_ok h hresult)
  | error e s' =>
    rw [bind_of_error hresult]
    exact hx.of_error h hresult

theorem attempt (hx : Keeps P x) : Keeps P (Action.attempt x : EStateM ε' σ (Except ε α)) := by
  intro s h
  cases hresult : x s with
  | ok a s' =>
    rw [attempt_of_ok hresult]
    exact hx.of_ok h hresult
  | error e s' =>
    rw [attempt_of_error hresult]
    exact hx.of_error h hresult

theorem ofExcept (x : Except ε α) : Keeps P (Action.ofExcept x) := by
  intro s h
  unfold Action.ofExcept
  cases x with
  | ok a => exact h
  | error e => exact h

theorem ofIo {y : EStateM IoError σ α} (hy : Keeps P y) : Keeps P (Action.ofIo y) := by
  intro s h
  unfold Action.ofIo
  cases hresult : y s with
  | ok a s' => exact hy.of_ok h hresult
  | error e s' => exact hy.of_error h hresult

theorem mapM {as : List τ} {f : τ → EStateM ε σ α} (hf : ∀ a ∈ as, Keeps P (f a)) :
    Keeps P (as.mapM f) := by
  induction as with
  | nil => exact .pure []
  | cons a as ih =>
    rw [List.mapM_cons]
    exact .bind (hf a List.mem_cons_self) fun b =>
      .bind (ih fun a' ha => hf a' (List.mem_cons_of_mem a ha)) fun bs => .pure (b :: bs)

/-- A loop keeps what each of its rounds keeps. -/
theorem forIn {as : List τ} {f : τ → β → EStateM ε σ (ForInStep β)} (b : β)
    (hf : ∀ a ∈ as, ∀ b, Keeps P (f a b)) : Keeps P (ForIn.forIn as b f) := by
  induction as generalizing b with
  | nil => exact .pure b
  | cons a as ih =>
    rw [List.forIn_cons]
    refine .bind (hf a List.mem_cons_self b) fun round => ?_
    cases round with
    | done b => exact .pure b
    | yield b => exact ih b fun a' ha => hf a' (List.mem_cons_of_mem a ha)

theorem zoom {get : τ → σ} {put : σ → τ → τ} {Q : τ → Prop} (hx : Keeps P x)
    (hget : ∀ t, Q t → P (get t)) (hput : ∀ s t, Q t → P s → Q (put s t)) :
    Keeps Q (Action.zoom get put x) := by
  intro t h
  cases hresult : x (get t) with
  | ok a s =>
    rw [zoom_of_ok hresult]
    exact hput s t h (hx.of_ok (hget t h) hresult)
  | error e s =>
    rw [zoom_of_error hresult]
    exact hput s t h (hx.of_error (hget t h) hresult)

end Keeps

def FailsAs (P : ε → Prop) (x : EStateM ε σ α) : Prop :=
  ∀ s e s', x s = .error e s' → P e

namespace FailsAs

variable {P : ε → Prop} {x : EStateM ε σ α} {f : α → EStateM ε σ β}

theorem of_ok (h : ∀ s, ∃ a s', x s = .ok a s') : FailsAs P x := by
  intro s e s' herror
  obtain ⟨a, s₁, hok⟩ := h s
  cases hok.symm.trans herror

theorem pure (a : α) : FailsAs P (Pure.pure a : EStateM ε σ α) := .of_ok fun s => ⟨a, s, rfl⟩

theorem get : FailsAs P (MonadState.get : EStateM ε σ σ) := .of_ok fun s => ⟨s, s, rfl⟩

theorem item : FailsAs P (Action.item : EStateM ε (Over α β) α) :=
  .of_ok fun o => ⟨o.item, o, rfl⟩

theorem setItem (a : α) : FailsAs P (Action.setItem a : EStateM ε (Over α β) Unit) :=
  .of_ok fun _ => ⟨(), _, rfl⟩

theorem throw {e : ε} (h : P e) : FailsAs P (MonadExcept.throw e : EStateM ε σ α) := by
  intro s e' s' herror
  cases herror
  exact h

theorem bind (hx : FailsAs P x) (hf : ∀ a, FailsAs P (f a)) : FailsAs P (x >>= f) := by
  intro s e s' herror
  cases hresult : x s with
  | ok a s₁ => exact hf a s₁ e s' ((bind_of_ok hresult).symm.trans herror)
  | error e₁ s₁ =>
    cases (bind_of_error hresult).symm.trans herror
    exact hx s e s' hresult

theorem attempt (x : EStateM ε' σ α) :
    FailsAs P (Action.attempt x : EStateM ε σ (Except ε' α)) := by
  intro s e s' herror
  cases hresult : x s with
  | ok a s₁ => cases (attempt_of_ok hresult).symm.trans herror
  | error e₁ s₁ => cases (attempt_of_error hresult).symm.trans herror

theorem ofExcept {x : Except ε α} (h : ∀ e, x = .error e → P e) :
    FailsAs P (Action.ofExcept x : EStateM ε σ α) := by
  intro s e s' herror
  cases x with
  | ok a => cases herror
  | error e₁ =>
    cases herror
    exact h e rfl

theorem ofIo {Q : StoreError → Prop} (h : ∀ e, Q (.io e)) (y : EStateM IoError σ α) :
    FailsAs Q (Action.ofIo y) := by
  intro s e s' herror
  unfold Action.ofIo at herror
  cases hresult : y s with
  | ok a s₁ =>
    rw [hresult] at herror
    cases herror
  | error e₁ s₁ =>
    rw [hresult] at herror
    cases herror
    exact h _

theorem zoom (hx : FailsAs P x) (get : τ → σ) (put : σ → τ → τ) :
    FailsAs P (Action.zoom get put x) := by
  intro t e t' herror
  obtain ⟨s, hresult⟩ := zoom_eq_error herror
  exact hx (get t) e s hresult

theorem mapM {f : τ → EStateM ε σ α} (hf : ∀ a, FailsAs P (f a)) (as : List τ) :
    FailsAs P (as.mapM f) := by
  induction as with
  | nil => exact .pure []
  | cons a as ih =>
    rw [List.mapM_cons]
    exact .bind (hf a) fun b => .bind ih fun bs => .pure (b :: bs)

theorem forIn {f : τ → β → EStateM ε σ (ForInStep β)} (hf : ∀ a b, FailsAs P (f a b))
    (as : List τ) (b : β) : FailsAs P (ForIn.forIn as b f) := by
  induction as generalizing b with
  | nil => exact .pure b
  | cons a as ih =>
    rw [List.forIn_cons]
    refine .bind (hf a b) fun round => ?_
    cases round with
    | done b => exact .pure b
    | yield b => exact ih b

end FailsAs

end Action

end AppendStore
