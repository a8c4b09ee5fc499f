/-!
# Failing actions on a state

The streams, the loader and the checker are all actions on a state that may fail. These lemmas
take a sequence of such actions apart: a successful sequence has a state between its parts, and
a failing first part is the failure of the whole.
-/

namespace Simula

variable {ε σ α β : Type}

/-- A sequence succeeds through the state between its two parts. -/
theorem bind_eq_ok {x : EStateM ε σ α} {f : α → EStateM ε σ β} {s s' : σ} {b : β} :
    (x >>= f) s = .ok b s' ↔ ∃ a s₁, x s = .ok a s₁ ∧ f a s₁ = .ok b s' := by
  change EStateM.bind x f s = _ ↔ _
  unfold EStateM.bind
  cases x s with
  | ok a s₁ =>
    constructor
    · intro h
      exact ⟨a, s₁, rfl, h⟩
    · rintro ⟨_, _, h, h'⟩
      cases h
      exact h'
  | error e s₁ => simp

/-- After a successful first part a sequence goes on with the second. -/
theorem bind_of_ok {x : EStateM ε σ α} {f : α → EStateM ε σ β} {s s₁ : σ} {a : α}
    (h : x s = .ok a s₁) : (x >>= f) s = f a s₁ := by
  change EStateM.bind x f s = _
  rw [EStateM.bind, h]

/-- A failing first part ends a sequence. -/
theorem bind_of_error {x : EStateM ε σ α} {f : α → EStateM ε σ β} {s s₁ : σ} {e : ε}
    (h : x s = .error e s₁) : (x >>= f) s = .error e s₁ := by
  change EStateM.bind x f s = _
  rw [EStateM.bind, h]

/-- A value given back leaves the state as it is. -/
@[simp] theorem pure_apply (a : α) (s : σ) : (pure a : EStateM ε σ α) s = .ok a s := rfl

/-- Giving a value back gives that value and the state as it was. -/
theorem pure_eq_ok {a b : α} {s s' : σ} :
    (pure a : EStateM ε σ α) s = .ok b s' ↔ a = b ∧ s = s' := by
  rw [pure_apply, EStateM.Result.ok.injEq]

/-- A failure leaves the state as it is. -/
@[simp] theorem throw_apply (e : ε) (s : σ) : (throw e : EStateM ε σ α) s = .error e s := rfl

/-- Reading the state leaves it as it is. -/
@[simp] theorem get_apply (s : σ) : (get : EStateM ε σ σ) s = .ok s s := rfl

/-- Changing the state always succeeds. -/
@[simp] theorem modify_apply (f : σ → σ) (s : σ) :
    (modify f : EStateM ε σ Unit) s = .ok () (f s) := rfl

/-- Whether an action succeeds with a value and a state that pass a test. -/
def succeedsWith (x : EStateM ε σ α) (s : σ) (test : α → σ → Bool) : Bool :=
  match x s with
  | .ok a s' => test a s'
  | .error _ _ => false

/-- An action that succeeds has a result that passes the test. -/
theorem exists_of_succeedsWith {x : EStateM ε σ α} {s : σ} {test : α → σ → Bool}
    (h : succeedsWith x s test = true) : ∃ a s', x s = .ok a s' ∧ test a s' = true := by
  unfold succeedsWith at h
  cases hx : x s with
  | ok a s' =>
    rw [hx] at h
    exact ⟨a, s', rfl, h⟩
  | error e s' =>
    rw [hx] at h
    cases h

/-- The state that an action leaves behind, whether it succeeds or fails. -/
def leaves (x : EStateM ε σ α) (s : σ) : σ :=
  match x s with
  | .ok _ s' => s'
  | .error _ s' => s'

/-- A successful action leaves the state of its result. -/
theorem leaves_of_ok {x : EStateM ε σ α} {s s' : σ} {a : α} (h : x s = .ok a s') :
    leaves x s = s' := by
  rw [leaves, h]

/-- A failed action leaves the state of its error. -/
theorem leaves_of_error {x : EStateM ε σ α} {s s' : σ} {e : ε} (h : x s = .error e s') :
    leaves x s = s' := by
  rw [leaves, h]

/-- After a successful first part a sequence leaves behind what the second part does. -/
theorem leaves_bind_of_ok {x : EStateM ε σ α} {f : α → EStateM ε σ β} {s s₁ : σ} {a : α}
    (h : x s = .ok a s₁) : leaves (x >>= f) s = leaves (f a) s₁ := by
  rw [leaves, bind_of_ok h, leaves]

/-- Every state that the action leaves behind is related to the one it started from. -/
def Follows (R : σ → σ → Prop) (x : EStateM ε σ α) : Prop := ∀ s, R s (leaves x s)

namespace Follows

variable {R : σ → σ → Prop}

/-- A successful action leads to a related state. -/
theorem of_ok {x : EStateM ε σ α} (h : Follows R x) {s s' : σ} {a : α} (hx : x s = .ok a s') :
    R s s' :=
  leaves_of_ok hx ▸ h s

/-- A failed action leads to a related state, too. -/
theorem of_error {x : EStateM ε σ α} (h : Follows R x) {s s' : σ} {e : ε}
    (hx : x s = .error e s') : R s s' :=
  leaves_of_error hx ▸ h s

/-- What follows a relation follows every weaker one. -/
theorem mono {R' : σ → σ → Prop} {x : EStateM ε σ α} (h : Follows R x)
    (hR : ∀ {s s'}, R s s' → R' s s') : Follows R' x := fun s => hR (h s)

/-- An action that changes the state in a fixed way follows a relation if that change does. -/
theorem of_modify {f : σ → σ} (h : ∀ s, R s (f s)) :
    Follows R (modify f : EStateM ε σ Unit) := h

section

variable [Std.Refl R]

/-- An action that does nothing leaves the state. -/
theorem pure (a : α) : Follows R (Pure.pure a : EStateM ε σ α) := fun s => Std.Refl.refl s

/-- An action that fails at once leaves the state. -/
theorem throw (e : ε) : Follows R (MonadExcept.throw e : EStateM ε σ α) := fun s => Std.Refl.refl s

/-- Looking at the state leaves it. -/
theorem get : Follows R (MonadState.get : EStateM ε σ σ) := fun s => Std.Refl.refl s

end

/-- Actions one after the other follow a transitive relation if each does. -/
theorem bind [Trans R R R] {x : EStateM ε σ α} {f : α → EStateM ε σ β} (hx : Follows R x)
    (hf : ∀ a, Follows R (f a)) : Follows R (x >>= f) := by
  intro s
  cases h : x s with
  | error e s₁ =>
    rw [leaves_of_error (bind_of_error h)]
    exact hx.of_error h
  | ok a s₁ =>
    rw [leaves_bind_of_ok h]
    exact Trans.trans (hx.of_ok h) (hf a s₁)

end Follows

/-- The action, started from the state, succeeds with a result and a state that are in `P`, or fails
in a state that is in `E`. -/
def Ends (x : EStateM ε σ α) (s : σ) (P : α → σ → Prop) (E : σ → Prop) : Prop :=
  match x s with
  | .ok a s' => P a s'
  | .error _ s' => E s'

namespace Ends

variable {x : EStateM ε σ α} {f : α → EStateM ε σ β} {s s' : σ} {a : α} {e : ε}
variable {P : α → σ → Prop} {Q : β → σ → Prop} {E : σ → Prop}

/-- A result and a state in `P` are an end. -/
theorem of_ok (hx : x s = .ok a s') (h : P a s') : Ends x s P E := by
  rwa [Ends, hx]

/-- A failure in a state in `E` is an end. -/
theorem of_error (hx : x s = .error e s') (h : E s') : Ends x s P E := by
  rwa [Ends, hx]

/-- An action that succeeds ends in `P`. -/
theorem ok (h : Ends x s P E) (hx : x s = .ok a s') : P a s' := by
  rwa [Ends, hx] at h

/-- An action that fails ends in `E`. -/
theorem error (h : Ends x s P E) (hx : x s = .error e s') : E s' := by
  rwa [Ends, hx] at h

/-- Both ends may be weakened. -/
theorem mono {P' : α → σ → Prop} {E' : σ → Prop} (h : Ends x s P E) (hP : ∀ a s', P a s' → P' a s')
    (hE : ∀ s', E s' → E' s') : Ends x s P' E' := by
  cases hx : x s with
  | ok a s' => exact of_ok hx (hP a s' (h.ok hx))
  | error e s' => exact of_error hx (hE s' (h.error hx))

/-- After a successful first part a sequence ends as the second part does. -/
theorem after {s₁ : σ} (hx : x s = .ok a s₁) (h : Ends (f a) s₁ Q E) : Ends (x >>= f) s Q E := by
  rwa [Ends, bind_of_ok hx]

/-- A sequence ends as its second part does where the first one has succeeded. -/
theorem bind (hx : Ends x s P E) (hf : ∀ a s', x s = .ok a s' → P a s' → Ends (f a) s' Q E) :
    Ends (x >>= f) s Q E := by
  cases h : x s with
  | ok a s' => exact after h (hf a s' h (hx.ok h))
  | error e s' => exact of_error (bind_of_error h) (hx.error h)

/-- What holds of every end holds of the state that the action leaves behind. -/
theorem iff_leaves {Q : σ → Prop} : Ends x s (fun _ => Q) Q ↔ Q (leaves x s) := by
  rw [Ends, leaves]
  cases x s <;> rfl

end Ends

/-- The two actions do the same from every state in `S`. -/
def SameOn (S : σ → Prop) (x y : EStateM ε σ α) : Prop := ∀ s, S s → x s = y s

namespace SameOn

variable {S T : σ → Prop} {x y : EStateM ε σ α} {f g : α → EStateM ε σ β}

/-- An action does the same as itself. -/
theorem refl (x : EStateM ε σ α) : SameOn S x x := fun _ _ => rfl

/-- Sequences do the same if their first parts do, and lead to states where the second parts do. -/
theorem bind (h : SameOn S x y) (hx : ∀ {s a s'}, S s → x s = .ok a s' → T s')
    (hf : ∀ a, SameOn T (f a) (g a)) : SameOn S (x >>= f) (y >>= g) := by
  intro s hs
  cases hxs : x s with
  | error e s' => rw [bind_of_error hxs, bind_of_error (h s hs ▸ hxs)]
  | ok a s' => rw [bind_of_ok hxs, bind_of_ok (h s hs ▸ hxs), hf a s' (hx hs hxs)]

/-- A bound that can be raised from the size of the state on makes no difference from there. -/
theorem eq_of_size_le {size : σ → Nat} {bounded : Nat → EStateM ε σ α}
    (h : ∀ n, SameOn (size · ≤ n) (bounded n) (bounded (n + 1))) {n : Nat} {s : σ}
    (hs : size s ≤ n) : bounded n s = bounded (size s) s := by
  induction hs with
  | refl => rfl
  | step hle ih => exact (h _ s hle).symm.trans ih

end SameOn

end Simula
