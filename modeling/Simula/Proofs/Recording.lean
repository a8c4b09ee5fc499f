import Simula.Proofs.Effects

/-!
# Recording runs

What an action does on its way is not always to be told from the state that it leaves behind. To
tell it, the action is written once more with a record beside its state. Such a record counts for
something only if it makes no difference, so the recording action has to do what the action itself
does, in success and in failure.
-/

namespace Simula

variable {ε σ ρ α β : Type}

/-- An action with a record beside its state. -/
abbrev Recording (ε σ ρ : Type) := EStateM ε (σ × List ρ)

/-- The outcome of an action beside a record. -/
def beside (record : List ρ) : EStateM.Result ε σ α → EStateM.Result ε (σ × List ρ) α
  | .ok a s => .ok a (s, record)
  | .error e s => .error e (s, record)

namespace Recording

/-- An action during which nothing is recorded. -/
def plain (x : EStateM ε σ α) : Recording ε σ ρ α := fun s => beside s.2 (x s.1)

/-- Adds to the record what is to be said of the state. -/
def note (f : σ → ρ) : Recording ε σ ρ Unit := modify fun s => (s.1, s.2 ++ [f s.1])

end Recording

/-- A relation between a state, what is recorded from there on, and the state that this leads to. It
holds where nothing happens, and of what happens in two parts if it holds of both. -/
class RecordTrail (R : σ → List ρ → σ → Prop) : Prop where
  nil : ∀ s, R s [] s
  append : ∀ {s s₁ s₂ added added'}, R s added s₁ → R s₁ added' s₂ → R s (added ++ added') s₂

/-- From the state, the first action does what the second does, and what it adds to the record leads
to the state that is left behind. -/
def Records (R : σ → List ρ → σ → Prop) (x : Recording ε σ ρ α) (y : EStateM ε σ α) (s : σ) :
    Prop :=
  ∃ added, R s added (leaves y s) ∧ ∀ record, x (s, record) = beside (record ++ added) (y s)

namespace Records

variable {R : σ → List ρ → σ → Prop} {s : σ}

/-- An action during which nothing is recorded is the action itself. -/
theorem plain (x : EStateM ε σ α) (h : R s [] (leaves x s)) : Records R (Recording.plain x) x s :=
  ⟨[], h, fun record => by rw [List.append_nil]; rfl⟩

/-- The recording action leaves the state that the action leaves. -/
theorem leaves_eq {x : Recording ε σ ρ α} {y : EStateM ε σ α} (h : Records R x y s)
    (record : List ρ) :
    ∃ added, R s added (leaves y s) ∧ leaves x (s, record) = (leaves y s, record ++ added) := by
  obtain ⟨added, hadded, hrun⟩ := h
  refine ⟨added, hadded, ?_⟩
  rw [leaves, leaves, hrun]
  cases y s <;> rfl

variable [RecordTrail R]

/-- A value is given back without a record. -/
theorem pure (a : α) : Records R (Pure.pure a : Recording ε σ ρ α) (Pure.pure a) s :=
  plain (Pure.pure a) (RecordTrail.nil s)

/-- A failure is not recorded. -/
theorem throw (e : ε) :
    Records R (MonadExcept.throw e : Recording ε σ ρ α) (MonadExcept.throw e) s :=
  plain (MonadExcept.throw e) (RecordTrail.nil s)

/-- Actions one after the other are recorded if each is. -/
theorem bind {x : Recording ε σ ρ α} {y : EStateM ε σ α} {f : α → Recording ε σ ρ β}
    {g : α → EStateM ε σ β} (hx : Records R x y s)
    (hf : ∀ {a s'}, y s = .ok a s' → Records R (f a) (g a) s') :
    Records R (x >>= f) (y >>= g) s := by
  obtain ⟨added, hadded, hrun⟩ := hx
  cases hy : y s with
  | error e s' =>
    refine ⟨added, ?_, fun record => ?_⟩
    · rwa [leaves_of_error (bind_of_error hy), ← leaves_of_error hy]
    · have hstep := hrun record
      rw [hy] at hstep
      rw [bind_of_error hy, bind_of_error hstep]
      rfl
  | ok a s' =>
    obtain ⟨later, hlater, hrest⟩ := hf hy
    refine ⟨added ++ later, ?_, fun record => ?_⟩
    · rw [leaves_bind_of_ok hy]
      exact RecordTrail.append (leaves_of_ok hy ▸ hadded) hlater
    · have hstep := hrun record
      rw [hy] at hstep
      rw [bind_of_ok hy, bind_of_ok hstep, hrest, List.append_assoc]

/-- Reading the state leaves it as it is. -/
theorem get {f : σ → Recording ε σ ρ β} {g : σ → EStateM ε σ β} (h : Records R (f s) (g s) s) :
    Records R (Recording.plain MonadState.get >>= f) (MonadState.get >>= g) s :=
  bind (plain MonadState.get (RecordTrail.nil s)) fun hget => by cases hget; exact h

/-- Something is recorded first. -/
theorem note {f : σ → ρ} {x : Recording ε σ ρ α} {y : EStateM ε σ α} (hs : R s [f s] s)
    (h : Records R x y s) : Records R (do Recording.note f; x) y s := by
  obtain ⟨added, hadded, hrun⟩ := h
  refine ⟨f s :: added, RecordTrail.append hs hadded, fun record => ?_⟩
  have hnote : (Recording.note f : Recording ε σ ρ Unit) (s, record) =
      .ok () (s, record ++ [f s]) := rfl
  rw [bind_of_ok hnote, hrun, List.append_assoc]
  rfl

end Records

end Simula
