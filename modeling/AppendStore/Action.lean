import AppendStore.StoreError

/-!
# Actions

An action is a computation on a state that may fail, and that keeps the state it
has reached when it fails: what a failed write has left behind is still there.
`zoom` runs an action on a part of a state, `attempt` turns the failure of an
action into a value, and `Over α β` is the state of an object that lives on top
of something else, such as a log segment on top of its file.
-/

namespace AppendStore

/-- A computation on `σ` that fails with a `StoreError`. -/
abbrev Action (σ α : Type) := EStateM StoreError σ α

/-- An object of type `α` on top of a state of type `β`. -/
structure Over (α β : Type) where
  item : α
  base : β

namespace Action

variable {ε ε' σ τ α β : Type}

def ofExcept (x : Except ε α) : EStateM ε σ α := fun s =>
  match x with
  | .ok a => .ok a s
  | .error e => .error e s

def zoom (get : τ → σ) (put : σ → τ → τ) (x : EStateM ε σ α) : EStateM ε τ α := fun t =>
  match x (get t) with
  | .ok a s => .ok a (put s t)
  | .error e s => .error e (put s t)

def ofIo (x : EStateM IoError σ α) : Action σ α := fun s =>
  match x s with
  | .ok a s => .ok a s
  | .error e s => .error (.io e) s

/-- The outcome of a computation as a value. -/
def attempt (x : EStateM ε σ α) : EStateM ε' σ (Except ε α) := fun s =>
  match x s with
  | .ok a s => .ok (.ok a) s
  | .error e s => .ok (.error e) s

def onBase (x : EStateM ε β α) : EStateM ε (Over σ β) α :=
  zoom Over.base (fun b o => { o with base := b }) x

def item : EStateM ε (Over σ β) σ := fun o => .ok o.item o

def setItem (a : σ) : EStateM ε (Over σ β) Unit := fun o => .ok () { o with item := a }

theorem bind_of_ok {x : EStateM ε σ α} {f : α → EStateM ε σ β} {s s' : σ} {a : α}
    (h : x s = .ok a s') : (x >>= f) s = f a s' := by
  simp only [bind, EStateM.bind, h]

theorem bind_of_error {x : EStateM ε σ α} {f : α → EStateM ε σ β} {s s' : σ} {e : ε}
    (h : x s = .error e s') : (x >>= f) s = .error e s' := by
  simp only [bind, EStateM.bind, h]

theorem bind_eq_ok {x : EStateM ε σ α} {f : α → EStateM ε σ β} {s s'' : σ} {b : β}
    (h : (x >>= f) s = .ok b s'') : ∃ a s', x s = .ok a s' ∧ f a s' = .ok b s'' := by
  cases hx : x s with
  | ok a s' => exact ⟨a, s', rfl, (bind_of_ok hx).symm.trans h⟩
  | error e s' => cases (bind_of_error hx).symm.trans h

theorem attempt_of_ok {x : EStateM ε σ α} {s s' : σ} {a : α} (h : x s = .ok a s') :
    (attempt x : EStateM ε' σ (Except ε α)) s = .ok (.ok a) s' := by
  simp only [attempt, h]

theorem attempt_of_error {x : EStateM ε σ α} {s s' : σ} {e : ε} (h : x s = .error e s') :
    (attempt x : EStateM ε' σ (Except ε α)) s = .ok (.error e) s' := by
  simp only [attempt, h]

theorem zoom_of_ok {get : τ → σ} {put : σ → τ → τ} {x : EStateM ε σ α} {t : τ} {s : σ} {a : α}
    (h : x (get t) = .ok a s) : zoom get put x t = .ok a (put s t) := by
  simp only [zoom, h]

theorem zoom_of_error {get : τ → σ} {put : σ → τ → τ} {x : EStateM ε σ α} {t : τ} {s : σ} {e : ε}
    (h : x (get t) = .error e s) : zoom get put x t = .error e (put s t) := by
  simp only [zoom, h]

theorem get_bind (f : σ → EStateM ε σ α) (s : σ) : (get >>= f) s = f s s := rfl

theorem item_bind (f : σ → EStateM ε (Over σ β) α) (o : Over σ β) :
    (item >>= f) o = f o.item o := rfl

theorem setItem_bind (a : σ) (f : Unit → EStateM ε (Over σ β) α) (o : Over σ β) :
    (setItem a >>= f) o = f () { o with item := a } := rfl

theorem onBase_of_ok {x : EStateM ε β α} {i : σ} {b b' : β} {a : α} (h : x b = .ok a b') :
    onBase x ⟨i, b⟩ = .ok a ⟨i, b'⟩ :=
  zoom_of_ok h

theorem onBase_of_error {x : EStateM ε β α} {i : σ} {b b' : β} {e : ε} (h : x b = .error e b') :
    onBase x ⟨i, b⟩ = .error e ⟨i, b'⟩ :=
  zoom_of_error h

theorem onBase_eq_ok {x : EStateM ε β α} {o o' : Over σ β} {a : α}
    (h : onBase x o = .ok a o') : ∃ b, x o.base = .ok a b ∧ o' = ⟨o.item, b⟩ := by
  cases hx : x o.base with
  | ok a' b =>
    cases (onBase_of_ok hx).symm.trans h
    exact ⟨b, rfl, rfl⟩
  | error e b => cases (onBase_of_error hx).symm.trans h

end Action

end AppendStore
