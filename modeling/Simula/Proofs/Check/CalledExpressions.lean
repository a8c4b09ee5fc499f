import Simula.Proofs.Check.ExpressionGraphs
import Simula.Proofs.Check.Termination

/-!
# Expressions that a check comes to

The calls of a check that start from an expression are the ways down from it. While the check goes
on there may be new conversions on these ways, but they lead to the same expressions. Since a check
that succeeds has come to the end of every way down, an expression that could be typed is not below
itself.
-/

namespace Simula

open Relation

variable {t t₀ : Tree} {scope a b c e : NodeId} {s s' : CheckState}

namespace Tree

/-- What is below a node is told by its nesting. -/
theorem below_eq (t : Tree) (b : NodeId) : t.below b =
    match t.nesting b with
    | .expression form => form.children
    | _ => [] := by
  rw [below, nesting]
  rcases t.data b with _ | ⟨_, _, form⟩ | _ | _ | _
  case declaration => cases form <;> rfl
  all_goals rfl

/-- An expression contains its parts. -/
theorem contains_iff {form : Expression} (h : t.nesting a = .expression form) :
    t.Contains a b ↔ b ∈ form.children := by
  rw [Contains, below_eq, h]

/-- Typing an expression calls for what is below it. -/
theorem calls_expression (t : Tree) (e : NodeId) :
    t.calls (.expression e) = (t.below e).map .expression := by
  rw [calls, below_eq]
  cases t.nesting e <;> rfl

/-- Typing an expression calls for what it contains. -/
theorem calls_of_contains (h : t.Contains a b) : t.Calls (.expression a) (.expression b) := by
  rw [Calls, calls_expression]
  exact List.mem_map_of_mem h

/-- From an expression a check comes to what is below it, and to nothing else. -/
theorem reaches_of_calls {call : Call} (h : ReflTransGen t.Calls (.expression e) call) :
    ∃ b, call = .expression b ∧ t.Reaches e b := by
  induction h with
  | refl => exact ⟨e, rfl, .refl⟩
  | tail _ hcall ih =>
    obtain ⟨b, rfl, hb⟩ := ih
    rw [Calls, calls_expression] at hcall
    obtain ⟨c, hc, rfl⟩ := List.mem_map.mp hcall
    exact ⟨c, rfl, hb.tail hc⟩

/-- Typing an expression leads to all that can be reached from it. -/
theorem calls_of_reaches (h : t.Reaches e b) :
    ReflTransGen t.Calls (.expression e) (.expression b) :=
  h.lift Call.expression fun _ _ => calls_of_contains

/-- Whatever a check comes to as an expression is one. -/
def NamesExpressions (t : Tree) (call : Call) : Prop :=
  ∀ e, ReflTransGen t.Calls call (.expression e) → (t.data e).expressionType?.isSome

/-- What is called for comes only to expressions if the caller does. -/
theorem NamesExpressions.of_calls {call call' : Call} (h : t.NamesExpressions call)
    (hcall : t.Calls call call') : t.NamesExpressions call' :=
  fun e he => h e (.head hcall he)

/-- A node is an expression if its nesting tells so. -/
theorem isExpression_iff :
    (t.data b).expressionType?.isSome ↔ ∃ form, t.nesting b = .expression form := by
  constructor
  · rw [nesting]
    rcases t.data b with _ | _ | _ | _ | ⟨form, _⟩
    case expression => exact fun _ => ⟨form, rfl⟩
    all_goals
      intro h
      cases h
  · rintro ⟨form, h⟩
    obtain ⟨ty, hdata⟩ := data_of_nesting_expression h
    rw [hdata]
    rfl

/-- The expression is below the conversions put around it. -/
theorem Wraps.reaches {n : Nat} (h : t.Wraps n e b) : t.Reaches b e := by
  induction h with
  | bare => exact .refl
  | conversion _ _ hnesting _ ih =>
    exact .head ((contains_iff hnesting).mpr (List.mem_singleton_self _)) ih

/-- Calls do not lead out of a region. -/
theorem Region.reflTransGen_calls {within : NodeId → Prop} (h : t.Region within) {call call' : Call}
    (hcall : within call.node) (hcalls : ReflTransGen t.Calls call call') : within call'.node := by
  induction hcalls with
  | refl => exact hcall
  | tail _ hstep ih => exact h.calls ih hstep

/-- Expressions do not lead out of a region. -/
theorem Region.reaches {within : NodeId → Prop} (h : t.Region within) (he : within e)
    (hb : t.Reaches e b) : within b :=
  have hcall : within (Call.expression e).node := he
  h.reflTransGen_calls hcall (calls_of_reaches hb)

/-- What is below an expression is closed under everything that its nodes name. -/
theorem BuiltOfExpressions.region (h : t.BuiltOfExpressions e)
    (hlt : ∀ b, t.Reaches e b → b < t.size) : t.Region (t.Reaches e) where
  lt hb := hlt _ hb
  closed hb n hn := by
    obtain ⟨form, hform⟩ := isExpression_iff.mp (h _ hb)
    rw [hform] at hn
    exact hb.tail ((contains_iff hform).mpr hn)

section

variable {within : NodeId → Prop} (h : t₀.Refitted t) (hregion : t₀.Region within)
include h hregion

/-- What was below an expression is still below it, perhaps under new conversions. -/
theorem Refitted.reaches (he : within e) (hb : t₀.Reaches e b) : t.Reaches e b := by
  induction hb with
  | refl => exact .refl
  | @tail a c ha hc ih =>
    refine ih.trans ?_
    have hold := h.old a (hregion.lt (hregion.reaches he ha))
    generalize hn₀ : t₀.nesting a = n₀, hn : t.nesting a = n at hold
    cases hold with
    | same =>
      rw [Contains, below_eq, hn₀, ← hn, ← below_eq] at hc
      exact .single hc
    | @assigned op lhs rhs value hw =>
      have hlhs : t.Contains a lhs := (contains_iff hn).mpr (by simp [Expression.children])
      have hvalue : t.Contains a value := (contains_iff hn).mpr (by simp [Expression.children])
      rcases List.mem_pair.mp ((contains_iff hn₀).mp hc) with rfl | rfl
      · exact .single hlhs
      · exact .head hvalue hw.reaches

/-- Scopes and statements make the same calls as before. -/
theorem Refitted.calls_eq {call : Call} (hcall : within call.node)
    (hne : ∀ e, call ≠ .expression e) : t.calls call = t₀.calls call := by
  have hold := h.old call.node (hregion.lt hcall)
  have hnodes := hregion.closed hcall
  cases call with
  | expression e => exact absurd rfl (hne e)
  | scope id =>
    have hdeclared := hold.declared_eq
    have hstatements := hold.statements_eq
    rw [Call.node] at hdeclared hstatements hnodes
    rw [calls, calls, ← hdeclared, ← hstatements]
    refine congrArg (· ++ _) (List.flatMap_congr fun d hd => ?_)
    have hd := hnodes d (Nesting.declared_subset _ hd)
    exact ((h.old d (hregion.lt hd)).callsDeclared_eq d).symm
  | statement id =>
    rw [Call.node] at hold hnodes
    rw [calls, calls]
    generalize t₀.nesting id = n₀, t.nesting id = n at hold hnodes
    cases hold with
    | assigned => rfl
    | same =>
      cases n₀ with
      | statement form =>
        cases form with
        | inspect object connections otherwise =>
          have hbranches : ∀ c ∈ connections,
              (t.nesting c).callsBranch = (t₀.nesting c).callsBranch := by
            intro c hc
            have hc := hnodes c (List.mem_cons_of_mem _ (List.mem_append_left _ hc))
            exact ((h.old c (hregion.lt hc)).callsBranch_eq).symm
          dsimp only [callsOf]
          rw [List.flatMap_congr hbranches]
        | _ => rfl
      | _ => rfl

/-- What is directly below an expression or a new conversion around it was below the expression
before, or is a new conversion around that. -/
theorem Refitted.wraps_of_contains {z : NodeId} (hz : within z) (hw : t.Wraps t₀.size z b)
    (hc : t.Contains b c) : ∃ z', t₀.Reaches z z' ∧ t.Wraps t₀.size z' c := by
  cases hw with
  | conversion _ _ hnesting hx =>
    obtain rfl := List.mem_singleton.mp ((contains_iff hnesting).mp hc)
    exact ⟨z, .refl, hx⟩
  | bare hlt =>
    have hbare : ∀ {c}, t₀.Contains b c → t.Wraps t₀.size c c := fun hc =>
      .bare (hregion.lt (hregion.reaches hz (.single hc)))
    have hold := h.old b hlt
    generalize hn₀ : t₀.nesting b = n₀, hn : t.nesting b = n at hold
    cases hold with
    | same =>
      rw [Contains, below_eq, hn, ← hn₀, ← below_eq] at hc
      exact ⟨c, .single hc, hbare hc⟩
    | @assigned op lhs rhs value hvalue =>
      have hlhs : t₀.Contains b lhs := (contains_iff hn₀).mpr (by simp [Expression.children])
      have hrhs : t₀.Contains b rhs := (contains_iff hn₀).mpr (by simp [Expression.children])
      rcases List.mem_pair.mp ((contains_iff hn).mp hc) with rfl | rfl
      · exact ⟨_, .single hlhs, hbare hlhs⟩
      · exact ⟨_, .single hrhs, hvalue⟩

/-- What a check comes to it came to before, or it is a new conversion around that. -/
theorem Refitted.wraps_of_calls {root call : Call} (hroot : within root.node)
    (hcall : ReflTransGen t.Calls root call) :
    (∀ e, call ≠ .expression e) ∧ ReflTransGen t₀.Calls root call ∨
      ∃ z b, call = .expression b ∧ ReflTransGen t₀.Calls root (.expression z) ∧
        t.Wraps t₀.size z b := by
  have hnew : ∀ {call}, ReflTransGen t₀.Calls root call →
      (∀ e, call ≠ .expression e) ∧ ReflTransGen t₀.Calls root call ∨
        ∃ z b, call = .expression b ∧ ReflTransGen t₀.Calls root (.expression z) ∧
          t.Wraps t₀.size z b := by
    intro call hcall
    cases call with
    | expression e =>
      have hlt := hregion.lt (hregion.reflTransGen_calls hroot hcall)
      exact .inr ⟨e, e, rfl, hcall, .bare hlt⟩
    | _ => exact .inl ⟨by simp, hcall⟩
  induction hcall with
  | refl => exact hnew .refl
  | tail _ hstep ih =>
    rcases ih with ⟨hne, hcall⟩ | ⟨z, b, rfl, hz, hw⟩
    · rw [Calls, h.calls_eq hregion (hregion.reflTransGen_calls hroot hcall) hne] at hstep
      exact hnew (hcall.tail hstep)
    · rw [Calls, calls_expression] at hstep
      obtain ⟨c, hc, rfl⟩ := List.mem_map.mp hstep
      have hwithin := hregion.reflTransGen_calls hroot hz
      obtain ⟨z', hz', hw'⟩ := h.wraps_of_contains hregion hwithin hw hc
      exact .inr ⟨z', c, rfl, hz.trans (calls_of_reaches hz'), hw'⟩

/-- What can be reached from an expression while it is typed is a node that could be reached before,
perhaps in new conversions. -/
theorem Refitted.wraps_of_reaches (he : within e) (hb : t.Reaches e b) :
    ∃ z, t₀.Reaches e z ∧ t.Wraps t₀.size z b := by
  have hroot : within (Call.expression e).node := he
  rcases h.wraps_of_calls hregion hroot (calls_of_reaches hb) with ⟨hne, -⟩ | ⟨z, _, ⟨⟩, hz, hw⟩
  · exact absurd rfl (hne b)
  · obtain ⟨_, ⟨⟩, hz⟩ := reaches_of_calls hz
    exact ⟨z, hz, hw⟩

/-- Expressions that a check comes to are built of expressions while it goes on. -/
theorem Refitted.builtOfExpressions (he : within e) (hnames : t₀.NamesExpressions (.expression e)) :
    t.BuiltOfExpressions e := by
  intro b hb
  obtain ⟨z, hz, hw⟩ := h.wraps_of_reaches hregion he hb
  cases hw with
  | conversion _ _ hnesting _ => exact isExpression_iff.mpr ⟨_, hnesting⟩
  | bare hlt =>
    obtain ⟨form₀, hform₀⟩ := isExpression_iff.mp (hnames b (calls_of_reaches hz))
    have hold := h.old b hlt
    rw [hform₀] at hold
    generalize hn : t.nesting b = n at hold
    cases hold with
    | same => exact isExpression_iff.mpr ⟨_, hn⟩
    | assigned _ => exact isExpression_iff.mpr ⟨_, hn⟩

/-- What can be reached from an expression while it is typed is a region. -/
theorem Refitted.region (he : within e) (hnames : t₀.NamesExpressions (.expression e)) :
    t.Region (t.Reaches e) := by
  refine (h.builtOfExpressions hregion he hnames).region fun b hb => ?_
  obtain ⟨z, -, hw⟩ := h.wraps_of_reaches hregion he hb
  exact hw.lt h.size_le

end

end Tree

namespace CheckM

/-- Where typing succeeds, no expression is below itself. -/
theorem acyclicBelow_of_typeExpr (hregion : s.tree.Region (s.tree.Reaches e)) {depth : Nat}
    {ty : Ty} (hrun : typeExpr depth scope e s = .ok ty s') : s.tree.AcyclicBelow e := by
  refine ⟨fun b hb => hregion.lt hb, fun b hb hcycle => ?_⟩
  have hmeets : Meets s.tree depth .succeeds (.expression e) :=
    ⟨e, .refl, scope, e, s, .refl s.tree, .bare (hregion.lt .refl), ty, s', hrun⟩
  have hroot : s.tree.Reaches e (Call.expression e).node := .refl
  have hacc := acc_of_reflTransGen (acc_of_meets hregion depth hroot hmeets)
    (Tree.calls_of_reaches hb)
  exact not_transGen_of_acc hacc (hcycle.lift Call.expression fun _ _ => Tree.calls_of_contains)

end CheckM

end Simula
