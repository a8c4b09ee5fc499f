import Simula.Check
import Simula.Proofs.Effects

/-!
# The depth of a check

A check that does not come to the end of its nesting within the depth it is given says so, and
that is all that the depth is for: a check that ends otherwise ends the same way with any greater
depth. So the outcomes at all depths agree up to running out.
-/

namespace Simula.CheckM

variable {α β : Type}

/-- The depth given to the action is used up before the nesting ends. -/
def RunsOut (x : CheckM α) (s : CheckState) : Prop :=
  ∃ id s', x s = .error (.internal (.endlessNesting id)) s'

/-- An action that runs out ends a sequence. -/
theorem RunsOut.bind {x : CheckM α} {s : CheckState} (h : RunsOut x s) (f : α → CheckM β) :
    RunsOut (x >>= f) s := by
  obtain ⟨id, s', hx⟩ := h
  exact ⟨id, s', bind_of_error hx⟩

/-- An action runs out behind a look at the tree if it does so with that tree. -/
theorem RunsOut.after_tree {f : Tree → CheckM β} {s : CheckState} (h : RunsOut (f s.tree) s) :
    RunsOut (tree >>= f) s := h

/-- A sequence runs out in one of its two parts. -/
theorem RunsOut.of_bind {x : CheckM α} {f : α → CheckM β} {s : CheckState}
    (h : RunsOut (x >>= f) s) : RunsOut x s ∨ ∃ a s', x s = .ok a s' ∧ RunsOut (f a) s' := by
  obtain ⟨id, s', h⟩ := h
  cases hx : x s with
  | error e s₁ =>
    rw [bind_of_error hx] at h
    cases h
    exact .inl ⟨id, _, hx⟩
  | ok a s₁ =>
    rw [bind_of_ok hx] at h
    exact .inr ⟨a, s₁, rfl, id, s', h⟩

/-- The second action does what the first does, unless that runs out. -/
def Agrees (x y : CheckM α) : Prop := ∀ s, RunsOut x s ∨ y s = x s

namespace Agrees

/-- An action agrees with itself. -/
theorem refl (x : CheckM α) : Agrees x x := fun _ => .inr rfl

/-- Actions that agree with a third agree with each other. -/
theorem trans {x y z : CheckM α} (hxy : Agrees x y) (hyz : Agrees y z) : Agrees x z := by
  intro s
  rcases hxy s with h | h
  · exact .inl h
  rcases hyz s with ⟨id, s', hout⟩ | h'
  · exact .inl ⟨id, s', h ▸ hout⟩
  · exact .inr (h'.trans h)

/-- Actions that agree step by step agree. -/
theorem bind {x y : CheckM α} {f g : α → CheckM β} (hx : Agrees x y)
    (hf : ∀ a, Agrees (f a) (g a)) : Agrees (x >>= f) (y >>= g) := by
  intro s
  rcases hx s with hout | hx
  · exact .inl (hout.bind f)
  cases h : x s with
  | error e s' => exact .inr ((bind_of_error (hx.trans h)).trans (bind_of_error h).symm)
  | ok a s' =>
    rcases hf a s' with ⟨id, s'', hout⟩ | hf
    · exact .inl ⟨id, s'', (bind_of_ok h).trans hout⟩
    · exact .inr ((bind_of_ok (hx.trans h)).trans (hf.trans (bind_of_ok h).symm))

/-- Sequences with the same end agree if their beginnings do. -/
theorem andThen {x y : CheckM α} (hx : Agrees x y) (f : α → CheckM β) :
    Agrees (x >>= f) (y >>= f) :=
  hx.bind fun a => refl (f a)

end Agrees

/-- Typing several expressions agrees if typing each does. -/
theorem typeAll_agrees {typeOf typeOf' : NodeId → CheckM Ty}
    (h : ∀ id, Agrees (typeOf id) (typeOf' id)) (ids : List NodeId) :
    Agrees (typeAll typeOf ids) (typeAll typeOf' ids) := by
  induction ids with
  | nil => exact .refl _
  | cons id ids ih => exact ((h id).andThen _).bind fun _ => ih

/-- Typing an expression agrees if typing its parts does. -/
theorem formType_agrees {typeOf typeOf' : NodeId → CheckM Ty}
    (h : ∀ id, Agrees (typeOf id) (typeOf' id)) (scope id : NodeId) (line : Nat) (stored : Ty)
    (form : Expression) :
    Agrees (formType typeOf scope id line stored form)
      (formType typeOf' scope id line stored form) := by
  cases form with
  | constant value => exact .refl _
  | nameUse identifier arguments => exact (typeAll_agrees h arguments).andThen _
  | binary op lhs rhs => exact (h lhs).bind fun _ => (h rhs).andThen _
  | unary op operand => exact (h operand).andThen _
  | assignment op lhs rhs => exact (h lhs).bind fun _ => (h rhs).andThen _
  | generator className arguments => exact (typeAll_agrees h arguments).andThen _
  | remote object attr arguments =>
    exact (h object).bind fun _ => (typeAll_agrees h arguments).andThen _
  | qualified object className => exact (h object).andThen _
  | relation op object className => exact (h object).andThen _
  | conversion expression kind =>
    exact (Agrees.refl _).bind fun _ => ((h _).andThen _).andThen _

/-- One level more changes no type that was found. -/
theorem typeExpr_agrees (depth : Nat) (scope id : NodeId) :
    Agrees (typeExpr depth scope id) (typeExpr (depth + 1) scope id) := by
  induction depth generalizing id with
  | zero => exact fun s => .inl ⟨id, s, rfl⟩
  | succ depth ih =>
    refine (Agrees.refl _).bind fun t => ?_
    cases t.data id with
    | expression form stored => exact (formType_agrees ih _ _ _ _ _).andThen _
    | _ => exact .refl _

/-- A type that was found is found at every greater depth. -/
theorem typeExpr_of_le {depth depth' : Nat} {scope id : NodeId} {s s' : CheckState} {ty : Ty}
    (hle : depth ≤ depth') (h : typeExpr depth scope id s = .ok ty s') :
    typeExpr depth' scope id s = .ok ty s' := by
  induction hle with
  | refl => exact h
  | step _ ih =>
    rcases typeExpr_agrees _ scope id s with ⟨_, _, hout⟩ | hagrees
    · rw [ih] at hout
      cases hout
    · exact hagrees.trans ih

/-- Going through a list agrees if each step does. -/
theorem forEach_agrees {step step' : NodeId → CheckM Unit}
    (h : ∀ id, Agrees (step id) (step' id)) (ids : List NodeId) :
    Agrees (forEach step ids) (forEach step' ids) := by
  induction ids with
  | nil => exact .refl _
  | cons id ids ih => exact (h id).bind fun _ => ih

/-- Checking a condition to a greater depth agrees. -/
theorem checkCondition_agrees (depth : Nat) (scope condition : NodeId) :
    Agrees (checkCondition depth scope condition) (checkCondition (depth + 1) scope condition) :=
  (typeExpr_agrees depth scope condition).andThen _

/-- Checking the value of a constant to a greater depth agrees. -/
theorem checkConstantDeclaration_agrees (depth : Nat) (scope decl : NodeId) :
    Agrees (checkConstantDeclaration depth scope decl)
      (checkConstantDeclaration (depth + 1) scope decl) := by
  refine (Agrees.refl _).bind fun t => ?_
  split
  · exact (typeExpr_agrees depth scope _).andThen _
  · exact .refl _

/-- Checking a branch of an inspect statement agrees if checking its statement does. -/
theorem checkConnection_agrees {check check' : NodeId → NodeId → CheckM Unit}
    (h : ∀ scope id, Agrees (check scope id) (check' scope id)) (objectType : Ty)
    (scope connection : NodeId) :
    Agrees (checkConnection check objectType scope connection)
      (checkConnection check' objectType scope connection) := by
  refine (Agrees.refl _).bind fun t => ?_
  cases t.data connection with
  | connection block =>
    refine (Agrees.refl _).bind fun c => (Agrees.refl _).bind fun _ => ?_
    cases block.statement with
    | some statement => exact h connection statement
    | none => exact .refl _
  | _ => exact .refl _

/-- One level more changes no outcome of checking scopes and statements. -/
theorem checkScope_agrees (depth : Nat) :
    (∀ scope, Agrees (checkScope depth scope) (checkScope (depth + 1) scope)) ∧
      ∀ scope id, Agrees (checkStatement depth scope id) (checkStatement (depth + 1) scope id) := by
  induction depth with
  | zero => exact ⟨fun scope s => .inl ⟨scope, s, rfl⟩, fun _ id s => .inl ⟨id, s, rfl⟩⟩
  | succ depth ih =>
    obtain ⟨hscope, hstatement⟩ := ih
    refine ⟨fun scope => ?_, fun scope id => ?_⟩
    · refine (Agrees.refl _).bind fun t => (forEach_agrees (fun decl => ?_) _).bind fun _ =>
        (forEach_agrees (hstatement scope) _).andThen _
      refine (Agrees.refl _).bind fun t => ?_
      split
      · exact hscope decl
      · exact hscope decl
      · exact hscope decl
      · exact checkConstantDeclaration_agrees depth scope decl
      · exact .refl _
    · refine (Agrees.refl _).bind fun t => ?_
      dsimp only
      split
      · exact (typeExpr_agrees depth scope _).andThen _
      · exact (checkCondition_agrees depth scope _).bind fun _ => (hstatement scope _).bind fun _ =>
          forEach_agrees (hstatement scope) _
      · exact (checkCondition_agrees depth scope _).bind fun _ => hstatement scope _
      · exact (typeExpr_agrees depth scope _).andThen _
      · exact hstatement scope _
      · exact forEach_agrees (hstatement scope) _
      · exact (typeExpr_agrees depth scope _).bind fun objectType =>
          (forEach_agrees (checkConnection_agrees hstatement objectType scope) _).bind fun _ =>
            forEach_agrees (hstatement scope) _
      · exact .refl _
      · exact (typeExpr_agrees depth scope _).andThen _
      · split
        · exact (Agrees.refl _).bind fun _ => hscope id
        · exact .refl _

/-- A check that does not run out has the same outcome at every greater depth. -/
theorem checkWithin_agrees {depth depth' : Nat} (h : depth ≤ depth') (module : NodeId) :
    Agrees (checkWithin depth module) (checkWithin depth' module) := by
  induction h with
  | refl => exact .refl _
  | step _ ih => exact ih.trans ((Agrees.refl _).bind fun _ => (checkScope_agrees _).1 module)

end Simula.CheckM
