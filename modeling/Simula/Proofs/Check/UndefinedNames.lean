import Simula.Proofs.Check.OperandTypes

/-!
# One undefined name

An expression of undefined type causes no reports where it is used, so that one mistake is reported
once. Here it is told what becomes of an expression without mistakes when one of its names becomes
undefined. The name is reported. The undefined type is handed on by arithmetic operations, signs,
targets of assignments and objects, and elsewhere the types are what they were, with one exception:
a concatenation with an operand of undefined type is boolean instead of text. Nothing else is
reported exactly if no such boolean meets a type that is known, in an operation or an assignment.
-/

namespace Simula

/-- The operands of an expression from which it gets an undefined type. -/
def Expression.carriers : Expression → List NodeId
  | binary op lhs rhs => if op.isArithmetic then [lhs, rhs] else []
  | unary op operand => if op = .not then [] else [operand]
  | assignment _ lhs _ => [lhs]
  | remote object _ _ => [object]
  | _ => []

/-- The two operands of an operation or assignment. -/
def Expression.sides? : Expression → Option (NodeId × NodeId)
  | binary _ lhs rhs | assignment _ lhs rhs => some (lhs, rhs)
  | _ => none

/-- The parts that carry the type of an expression are among its operands. -/
theorem Expression.carriers_subset (form : Expression) : form.carriers ⊆ form.operands := by
  cases form with
  | binary op lhs rhs => cases op <;> simp [carriers, operands, BinaryOp.isArithmetic]
  | unary op operand => cases op <;> simp [carriers, operands]
  | _ => simp [carriers, operands]

/-- Two sides are all the operands. -/
theorem Expression.operands_of_sides {form : Expression} {x y : NodeId}
    (h : form.sides? = some (x, y)) : form.operands = [x, y] := by
  cases form <;> cases h <;> rfl

/-- Two sides are all the parts. -/
theorem Expression.children_of_sides {form : Expression} {x y : NodeId}
    (h : form.sides? = some (x, y)) : form.children = [x, y] := by
  cases form <;> cases h <;> rfl

/-- Operands are parts. -/
theorem Expression.operands_subset_children (form : Expression) :
    form.operands ⊆ form.children := by
  cases form <;> simp [operands, children]

namespace Tree

/-- A node has no type if the leaf has none: an undefined type is handed on from the leaf to it. -/
inductive Undefines (t : Tree) (l : NodeId) : NodeId → Prop
  | leaf : Undefines t l l
  | node {b c : NodeId} {form : Expression} {ty : Ty} (hdata : t.data b = .expression form ty)
      (hc : c ∈ form.carriers) (hundefines : Undefines t l c) : Undefines t l b

/-- A node has a wrong type if the leaf has none: it is a concatenation that is taken for a boolean,
although both its operands have types, or an assignment to one. -/
inductive Mistakes (t : Tree) (l : NodeId) (types : NodeId → Ty) : NodeId → Prop
  | concat {b x y : NodeId} {ty : Ty} (hdata : t.data b = .expression (.binary .concat x y) ty)
      (hundefines : t.Undefines l x ∨ t.Undefines l y) (hx : types x ≠ .undefined)
      (hy : types y ≠ .undefined) : Mistakes t l types b
  | target {b x y : NodeId} {op : AssignOp} {ty : Ty}
      (hdata : t.data b = .expression (.assignment op x y) ty) (hx : Mistakes t l types x) :
      Mistakes t l types b

/-- A wrong type meets one that is known, in an operation or an assignment. -/
def Cascades (t : Tree) (l : NodeId) (types : NodeId → Ty) (b : NodeId) : Prop :=
  ∃ form ty x y, t.data b = .expression form ty ∧ form.sides? = some (x, y) ∧
    (t.Mistakes l types x ∧ types y ≠ .undefined ∨ t.Mistakes l types y ∧ types x ≠ .undefined)

section

variable {t : Tree} {l e : NodeId} {types : NodeId → Ty} {form : Expression} {ty : Ty}
  (hdata : t.data e = .expression form ty)
include hdata

/-- A node other than the leaf loses its type through a part that carries it. -/
theorem undefines_iff (hne : e ≠ l) :
    t.Undefines l e ↔ ∃ c ∈ form.carriers, t.Undefines l c := by
  constructor
  · rintro (_ | ⟨hdata', hc, hundefines⟩)
    · exact absurd rfl hne
    · cases hdata.symm.trans hdata'
      exact ⟨_, hc, hundefines⟩
  · rintro ⟨c, hc, hundefines⟩
    exact .node hdata hc hundefines

/-- A wrong type comes from a concatenation one of whose sides loses its type, or from an assignment
to such a node. -/
theorem mistakes_iff : t.Mistakes l types e ↔
    (∃ x y, form = .binary .concat x y ∧ (t.Undefines l x ∨ t.Undefines l y) ∧
      types x ≠ .undefined ∧ types y ≠ .undefined) ∨
    ∃ op x y, form = .assignment op x y ∧ t.Mistakes l types x := by
  constructor
  · rintro (⟨hdata', hundefines, hx, hy⟩ | ⟨hdata', hx⟩)
    · cases hdata.symm.trans hdata'
      exact .inl ⟨_, _, rfl, hundefines, hx, hy⟩
    · cases hdata.symm.trans hdata'
      exact .inr ⟨_, _, _, rfl, hx⟩
  · rintro (⟨x, y, rfl, hundefines, hx, hy⟩ | ⟨op, x, y, rfl, hx⟩)
    · exact .concat hdata hundefines hx hy
    · exact .target hdata hx

/-- A wrong type on one side cascades where the other side has a type. -/
theorem cascades_iff : t.Cascades l types e ↔ ∃ x y, form.sides? = some (x, y) ∧
    (t.Mistakes l types x ∧ types y ≠ .undefined ∨
      t.Mistakes l types y ∧ types x ≠ .undefined) := by
  constructor
  · rintro ⟨form', ty', x, y, hdata', hsides, hmistakes⟩
    cases hdata.symm.trans hdata'
    exact ⟨x, y, hsides, hmistakes⟩
  · rintro ⟨x, y, hsides, hmistakes⟩
    exact ⟨form, ty, x, y, hdata, hsides, hmistakes⟩

end

/-- The type of a node may change if the leaf loses its type. -/
def Concerned (t : Tree) (l : NodeId) (types : NodeId → Ty) (b : NodeId) : Prop :=
  t.Undefines l b ∨ t.Mistakes l types b

/-- What becomes of the type of a node when the leaf loses its type. -/
structure Retypes (t : Tree) (l : NodeId) (before after : NodeId → Ty) (b : NodeId) : Prop where
  kept : ¬ t.Concerned l before b → after b = before b
  lost : t.Undefines l b → after b = .undefined
  mistaken : t.Mistakes l before b → before b = .text ∧ after b = .boolean

/-- A node that loses its type gets no wrong one. -/
theorem Retypes.not_mistakes {t : Tree} {l b : NodeId} {before after : NodeId → Ty}
    (h : t.Retypes l before after b) (hundefines : t.Undefines l b) : ¬ t.Mistakes l before b := by
  intro hmistakes
  have hlost := h.lost hundefines
  rw [(h.mistaken hmistakes).2] at hlost
  cases hlost

/-- At a node the type becomes what is told, and there is a report exactly if a wrong type meets one
that is known. -/
structure Recovers (t : Tree) (scope l : NodeId) (before after : NodeId → Ty) (b : NodeId) : Prop
    extends t.Retypes l before after b where
  reports : (t.judged scope after b).2 = [] ↔ ¬ t.Cascades l before b

/-- A node other than the leaf has been judged without a report, and is judged again after its
operands have got other types. -/
structure JudgedAgain (t : Tree) (scope l : NodeId) (before after : NodeId → Ty) (e : NodeId)
    (form : Expression) : Prop where
  data : ∃ ty, t.data e = .expression form ty
  ne : e ≠ l
  type : (t.judged scope before e).1 = before e
  clean : (t.judged scope before e).2 = []
  retype : (t.judged scope after e).1 = after e
  operands : ∀ c ∈ form.operands, t.Retypes l before after c

namespace JudgedAgain

variable {t : Tree} {scope l e : NodeId} {before after : NodeId → Ty} {form : Expression}

/-- A node that is not concerned recovers if it keeps its type and is reported only where a wrong
type cascades. -/
theorem recovers_of_same (h : t.JudgedAgain scope l before after e form)
    (hnot : ¬ t.Concerned l before e) (htype : (t.judged scope after e).1 = before e)
    (hreports : (t.judged scope after e).2 = [] ↔ ¬ t.Cascades l before e) :
    t.Recovers scope l before after e :=
  ⟨⟨fun _ => by rw [← h.retype, htype], fun hundefines => absurd (.inl hundefines) hnot,
    fun hmistakes => absurd (.inr hmistakes) hnot⟩, hreports⟩

/-- A node with no operand that loses its type is not concerned, unless it is an assignment to a
node that is. -/
theorem not_concerned (h : t.JudgedAgain scope l before after e form)
    (hundefines : ∀ c ∈ form.operands, ¬ t.Undefines l c)
    (htarget : ∀ op x y, form = .assignment op x y → ¬ t.Mistakes l before x) :
    ¬ t.Concerned l before e := by
  obtain ⟨ty, hdata⟩ := h.data
  rintro (hu | hm)
  · obtain ⟨c, hc, hu⟩ := (undefines_iff hdata h.ne).mp hu
    exact hundefines c (form.carriers_subset hc) hu
  · rcases (mistakes_iff hdata).mp hm with ⟨x, y, rfl, hu | hu, -⟩ | ⟨op, x, y, hform, hx⟩
    · exact hundefines x (by simp [Expression.operands]) hu
    · exact hundefines y (by simp [Expression.operands]) hu
    · exact htarget op x y hform hx

/-- Where no operand is concerned all is as it was. -/
theorem recovers_of_kept (h : t.JudgedAgain scope l before after e form)
    (hkept : ∀ c ∈ form.operands, ¬ t.Concerned l before c) :
    t.Recovers scope l before after e := by
  obtain ⟨ty, hdata⟩ := h.data
  have hjudged : t.judged scope after e = t.judged scope before e :=
    judged_congr hdata (fun c hc => (h.operands c hc).kept (hkept c hc)) scope
  have hcascades : ¬ t.Cascades l before e := by
    rw [cascades_iff hdata]
    rintro ⟨x, y, hsides, ⟨hx, -⟩ | ⟨hy, -⟩⟩
    · exact hkept x (by simp [Expression.operands_of_sides hsides]) (.inr hx)
    · exact hkept y (by simp [Expression.operands_of_sides hsides]) (.inr hy)
  have hnot := h.not_concerned (fun c hc hu => hkept c hc (.inl hu)) (by
    rintro op x y rfl hx
    exact hkept x (by simp [Expression.operands]) (.inr hx))
  exact h.recovers_of_same hnot (hjudged ▸ h.type) (hjudged ▸ iff_of_true h.clean hcascades)

/-! ### Operations with two operands -/

section

variable {x y : NodeId}

/-- A side that has no type is not mistaken, and neither is the other one. -/
theorem not_cascades_of_undefines (h : t.JudgedAgain scope l before after e form)
    (hsides : form.sides? = some (x, y))
    (hone : t.Concerned l before x → ¬ t.Concerned l before y)
    (hundefines : t.Undefines l x ∨ t.Undefines l y) : ¬ t.Cascades l before e := by
  obtain ⟨ty, hdata⟩ := h.data
  have hoperands := Expression.operands_of_sides hsides
  have hx := h.operands x (by simp [hoperands])
  have hy := h.operands y (by simp [hoperands])
  rw [cascades_iff hdata]
  rintro ⟨x', y', hsides', hmistakes⟩
  cases hsides.symm.trans hsides'
  rcases hundefines with hu | hu <;> rcases hmistakes with ⟨hm, -⟩ | ⟨hm, -⟩
  · exact hx.not_mistakes hu hm
  · exact hone (.inl hu) (.inr hm)
  · exact hone (.inr hm) (.inl hu)
  · exact hy.not_mistakes hu hm

/-- A wrong type on the left cascades unless the right side has none. -/
theorem cascades_left (h : t.JudgedAgain scope l before after e form)
    (hsides : form.sides? = some (x, y)) (hx : t.Mistakes l before x)
    (hy : ¬ t.Mistakes l before y) : ¬ t.Cascades l before e ↔ before y = .undefined := by
  obtain ⟨ty, hdata⟩ := h.data
  rw [cascades_iff hdata, hsides]
  simp [hx, hy]

/-- A wrong type on the right cascades unless the left side has none. -/
theorem cascades_right (h : t.JudgedAgain scope l before after e form)
    (hsides : form.sides? = some (x, y)) (hx : ¬ t.Mistakes l before x)
    (hy : t.Mistakes l before y) : ¬ t.Cascades l before e ↔ before x = .undefined := by
  obtain ⟨ty, hdata⟩ := h.data
  rw [cascades_iff hdata, hsides]
  simp [hx, hy]

variable {op : BinaryOp}

/-- A binary operation is judged by its operator and the types of its sides. -/
theorem judged_binary (h : t.JudgedAgain scope l before after e (.binary op x y))
    (types : NodeId → Ty) : t.judged scope types e =
      CheckM.outcome (CheckM.binaryType op (types x) (types y) scope (t.line e)) t := by
  obtain ⟨ty, hdata⟩ := h.data
  rw [judged, hdata]
  rfl

/-- The type of a binary operation was found in the same way. -/
theorem type_binary (h : t.JudgedAgain scope l before after e (.binary op x y)) :
    before e =
      (CheckM.outcome (CheckM.binaryType op (before x) (before y) scope (t.line e)) t).1 := by
  rw [← h.judged_binary, h.type]

/-- An operation with an operand that has lost its type. -/
theorem recovers_binary_of_undefines (h : t.JudgedAgain scope l before after e (.binary op x y))
    (hone : t.Concerned l before x → ¬ t.Concerned l before y)
    (hundefines : t.Undefines l x ∨ t.Undefines l y) : t.Recovers scope l before after e := by
  obtain ⟨ty, hdata⟩ := h.data
  have hjudged : t.judged scope after e =
      (if op.isArithmetic then .undefined else .boolean, []) := by
    have hx := h.operands x (by simp [Expression.operands])
    have hy := h.operands y (by simp [Expression.operands])
    rw [h.judged_binary, CheckM.outcome_binaryType_of_undefined (hundefines.imp hx.lost hy.lost)]
  have hafter : after e = if op.isArithmetic then .undefined else .boolean := by
    rw [← h.retype, hjudged]
  have hcascades := h.not_cascades_of_undefines rfl hone hundefines
  refine ⟨⟨fun hkept => ?_, fun hlost => ?_, fun hmistakes => ?_⟩,
    by rw [hjudged]; exact iff_of_true rfl hcascades⟩
  · have hop : op.isArithmetic = false := by
      by_contra hop
      rw [Bool.not_eq_false] at hop
      rcases hundefines with hu | hu
      · exact hkept (.inl (.node hdata (by simp [Expression.carriers, hop]) hu))
      · exact hkept (.inl (.node hdata (by simp [Expression.carriers, hop]) hu))
    have hconcat : before x ≠ .undefined → before y ≠ .undefined → op ≠ .concat := by
      rintro hx hy rfl
      exact hkept (.inr (.concat hdata hundefines hx hy))
    rw [hafter, hop, h.type_binary, CheckM.type_binaryType_boolean hop hconcat]
    rfl
  · obtain ⟨c, hc, -⟩ := (undefines_iff hdata h.ne).mp hlost
    cases hop : op.isArithmetic with
    | true => rw [hafter, hop]; rfl
    | false => simp [Expression.carriers, hop] at hc
  · rcases (mistakes_iff hdata).mp hmistakes with ⟨x', y', hform, -, hx, hy⟩ | ⟨_, _, _, hform, -⟩
    · cases hform
      refine ⟨?_, hafter⟩
      rw [h.type_binary, (CheckM.outcome_binaryType t scope (t.line e) .concat hx hy).2 rfl]
      rfl
    · cases hform

/-- A boolean in the place of a text makes no difference for the type of an operation, but is
reported if the type of the other operand is known. -/
theorem recovers_binary (h : t.JudgedAgain scope l before after e (.binary op x y))
    (hone : t.Concerned l before x → ¬ t.Concerned l before y) :
    t.Recovers scope l before after e := by
  have hx := h.operands x (by simp [Expression.operands])
  have hy := h.operands y (by simp [Expression.operands])
  by_cases hundefines : t.Undefines l x ∨ t.Undefines l y
  · exact h.recovers_binary_of_undefines hone hundefines
  obtain ⟨hux, huy⟩ := not_or.mp hundefines
  have hnot : ¬ t.Concerned l before e :=
    h.not_concerned (by simp [Expression.operands, hux, huy]) (by simp)
  have hclean := h.clean
  rw [h.judged_binary] at hclean
  by_cases hmx : t.Mistakes l before x
  · obtain ⟨hbefore, hafter⟩ := hx.mistaken hmx
    have hother := hone (.inr hmx)
    rw [hbefore] at hclean
    obtain ⟨htype, hreports⟩ := CheckM.binaryType_boolean_left hclean
    refine h.recovers_of_same hnot ?_ ?_
    · rw [h.judged_binary, hafter, hy.kept hother, htype, h.type_binary, hbefore]
    · rw [h.judged_binary, hafter, hy.kept hother, hreports,
        h.cascades_left rfl hmx fun hmy => hother (.inr hmy)]
  by_cases hmy : t.Mistakes l before y
  · obtain ⟨hbefore, hafter⟩ := hy.mistaken hmy
    have hother : ¬ t.Concerned l before x := fun hcx => hone hcx (.inr hmy)
    rw [hbefore] at hclean
    obtain ⟨htype, hreports⟩ := CheckM.binaryType_boolean_right hclean
    refine h.recovers_of_same hnot ?_ ?_
    · rw [h.judged_binary, hafter, hx.kept hother, htype, h.type_binary, hbefore]
    · rw [h.judged_binary, hafter, hx.kept hother, hreports, h.cascades_right rfl hmx hmy]
  · exact h.recovers_of_kept (by simp [Expression.operands, Concerned, hux, huy, hmx, hmy])

/-! ### Assignments -/

variable {assign : AssignOp}

/-- An assignment has the type of its left side, and the rules of assignment decide what is
reported. -/
theorem judged_assignment (h : t.JudgedAgain scope l before after e (.assignment assign x y))
    (types : NodeId → Ty) : t.judged scope types e = (types x,
      CheckM.assignmentReports (t.classView scope) assign (types x) (types y) (t.line e)) := by
  obtain ⟨ty, hdata⟩ := h.data
  rw [judged, hdata]
  exact CheckM.outcome_assignmentType e assign y (types x) (types y) scope (t.line e) t

/-- The type of an assignment becomes what that of its target becomes. -/
theorem retypes_assignment (h : t.JudgedAgain scope l before after e (.assignment assign x y)) :
    t.Retypes l before after e := by
  obtain ⟨ty, hdata⟩ := h.data
  have hx := h.operands x (by simp [Expression.operands])
  have hbefore : before e = before x := by
    rw [← h.type, h.judged_assignment]
  have hafter : after e = after x := by
    rw [← h.retype, h.judged_assignment]
  have hundefines : t.Undefines l e ↔ t.Undefines l x := by
    rw [undefines_iff hdata h.ne]
    simp [Expression.carriers]
  have hmistakes : t.Mistakes l before e ↔ t.Mistakes l before x := by
    rw [mistakes_iff hdata]
    simp
  refine ⟨fun hkept => ?_, fun hlost => ?_, fun hwrong => ?_⟩
  · rw [Concerned, hundefines, hmistakes] at hkept
    rw [hafter, hbefore, hx.kept hkept]
  · rw [hafter, hx.lost (hundefines.mp hlost)]
  · rw [hbefore, hafter]
    exact hx.mistaken (hmistakes.mp hwrong)

/-- An assignment recovers if no more than one of its sides is concerned. -/
theorem recovers_assignment (h : t.JudgedAgain scope l before after e (.assignment assign x y))
    (hone : t.Concerned l before x → ¬ t.Concerned l before y) :
    t.Recovers scope l before after e := by
  have hx := h.operands x (by simp [Expression.operands])
  have hy := h.operands y (by simp [Expression.operands])
  have hclean := h.clean
  rw [h.judged_assignment] at hclean
  refine ⟨h.retypes_assignment, ?_⟩
  rw [h.judged_assignment]
  by_cases hundefines : t.Undefines l x ∨ t.Undefines l y
  · exact iff_of_true (CheckM.assignmentReports_of_undefined (hundefines.imp hx.lost hy.lost))
      (h.not_cascades_of_undefines rfl hone hundefines)
  obtain ⟨hux, huy⟩ := not_or.mp hundefines
  by_cases hmx : t.Mistakes l before x
  · obtain ⟨hbefore, hafter⟩ := hx.mistaken hmx
    have hother := hone (.inr hmx)
    rw [hbefore] at hclean
    rw [hafter, hy.kept hother, CheckM.assignmentReports_boolean_target hclean,
      h.cascades_left rfl hmx fun hmy => hother (.inr hmy)]
  by_cases hmy : t.Mistakes l before y
  · obtain ⟨hbefore, hafter⟩ := hy.mistaken hmy
    have hother : ¬ t.Concerned l before x := fun hcx => hone hcx (.inr hmy)
    rw [hbefore] at hclean
    rw [hafter, hx.kept hother, CheckM.assignmentReports_boolean_value hclean,
      h.cascades_right rfl hmx hmy]
  · have hkept := h.recovers_of_kept
      (by simp [Expression.operands, Concerned, hux, huy, hmx, hmy])
    have hreports := hkept.reports
    rwa [h.judged_assignment] at hreports

end

/-! ### Operations with one operand -/

section

variable {x : NodeId}

/-- An expression with one operand that is no text. It is not reported if the operand has no type,
and then it has none itself, or the type that it had. -/
theorem recovers_single (h : t.JudgedAgain scope l before after e form)
    (hoperands : form.operands = [x]) (htext : before x ≠ .text)
    (hundefined : after x = .undefined → (t.judged scope after e).2 = [] ∧
      ((form.carriers = [x] ∧ after e = .undefined) ∨
        (form.carriers = [] ∧ after e = before e))) :
    t.Recovers scope l before after e := by
  obtain ⟨ty, hdata⟩ := h.data
  have hx := h.operands x (by simp [hoperands])
  have hmx : ¬ t.Mistakes l before x := fun hm => htext (hx.mistaken hm).1
  by_cases hux : t.Undefines l x
  swap
  · exact h.recovers_of_kept (by simp [hoperands, Concerned, hux, hmx])
  obtain ⟨hreports, hcase⟩ := hundefined (hx.lost hux)
  have hcascades : ¬ t.Cascades l before e := by
    rw [cascades_iff hdata]
    rintro ⟨x', y', hsides, -⟩
    cases hoperands.symm.trans (Expression.operands_of_sides hsides)
  have hmistakes : ¬ t.Mistakes l before e := by
    rw [mistakes_iff hdata]
    rintro (⟨x', y', rfl, -⟩ | ⟨op, x', y', rfl, -⟩) <;> cases hoperands
  refine ⟨⟨fun hkept => ?_, fun hlost => ?_, fun hwrong => absurd hwrong hmistakes⟩,
    iff_of_true hreports hcascades⟩
  · rcases hcase with ⟨hcarriers, -⟩ | ⟨-, hsame⟩
    · exact absurd (.inl (.node hdata (by simp [hcarriers]) hux)) hkept
    · exact hsame
  · rcases hcase with ⟨-, hnone⟩ | ⟨hcarriers, -⟩
    · exact hnone
    · obtain ⟨c, hc, -⟩ := (undefines_iff hdata h.ne).mp hlost
      simp [hcarriers] at hc

/-- A unary operation recovers. -/
theorem recovers_unary {op : UnaryOp} (h : t.JudgedAgain scope l before after e (.unary op x)) :
    t.Recovers scope l before after e := by
  obtain ⟨ty, hdata⟩ := h.data
  have hjudged : ∀ types, t.judged scope types e =
      CheckM.outcome (CheckM.unaryType op (types x) (t.line e)) t := fun types => by
    rw [judged, hdata]
    rfl
  have hclean := h.clean
  rw [hjudged] at hclean
  refine h.recovers_single rfl (fun htext => ?_) fun hundefined => ?_
  · rw [htext] at hclean
    exact CheckM.reports_unaryType_text op hclean
  have hagain : t.judged scope after e = (if op = .not then .boolean else .undefined, []) := by
    rw [hjudged, hundefined, CheckM.outcome_unaryType_undefined]
  refine ⟨by rw [hagain], ?_⟩
  rw [← h.retype, hagain]
  by_cases hop : op = .not
  · refine .inr ⟨by simp [Expression.carriers, hop], ?_⟩
    rw [if_pos hop, ← h.type, hjudged, hop, CheckM.type_unaryType_not]
  · exact .inl ⟨by simp [Expression.carriers, hop], if_neg hop⟩

/-- A remote access recovers. -/
theorem recovers_remote {attr : String} {arguments : List NodeId}
    (h : t.JudgedAgain scope l before after e (.remote x attr arguments)) :
    t.Recovers scope l before after e := by
  obtain ⟨ty, hdata⟩ := h.data
  have hjudged : ∀ types, t.judged scope types e =
      CheckM.outcome (CheckM.remoteType (types x) attr scope (t.line e)) t := fun types => by
    rw [judged, hdata]
    dsimp only
    rw [CheckM.formType, CheckM.typeAll_pure]
    rfl
  have hclean := h.clean
  rw [hjudged] at hclean
  refine h.recovers_single rfl (fun htext => ?_) fun hundefined => ?_
  · rw [htext] at hclean
    exact CheckM.reports_remoteType_text attr hclean
  have hagain : t.judged scope after e = (.undefined, []) := by
    rw [hjudged, hundefined]
    rfl
  exact ⟨by rw [hagain], .inl ⟨rfl, by rw [← h.retype, hagain]⟩⟩

/-- A test or qualification has a type that does not depend on its object. -/
theorem recovers_test {test : ReferenceTest} {result : Ty → Ty} {className : String}
    (h : t.JudgedAgain scope l before after e form) (hoperands : form.operands = [x])
    (hcarriers : form.carriers = [])
    (hjudged : ∀ types, t.judged scope types e = CheckM.outcome
      (CheckM.testType test result className (types x) scope (t.line e)) t) :
    t.Recovers scope l before after e := by
  have hclean := h.clean
  rw [hjudged] at hclean
  obtain ⟨htext, hsame⟩ := CheckM.outcome_testType hclean
  refine h.recovers_single hoperands htext fun hundefined => ?_
  have hagain : t.judged scope after e = (before e, []) := by
    rw [hjudged, hundefined, hsame, ← hjudged, h.type]
  exact ⟨by rw [hagain], .inr ⟨hcarriers, by rw [← h.retype, hagain]⟩⟩

end

/-- At every node but the leaf itself the check recovers. -/
theorem recovers (h : t.JudgedAgain scope l before after e form)
    (hone : ∀ x y, form.sides? = some (x, y) →
      t.Concerned l before x → ¬ t.Concerned l before y) : t.Recovers scope l before after e := by
  obtain ⟨ty, hdata⟩ := h.data
  cases form with
  | constant | nameUse | generator | conversion => exact h.recovers_of_kept nofun
  | binary op x y => exact h.recovers_binary (hone x y rfl)
  | assignment op x y => exact h.recovers_assignment (hone x y rfl)
  | unary op x => exact h.recovers_unary
  | remote x attr arguments => exact h.recovers_remote
  | qualified x className =>
    exact h.recovers_test rfl rfl fun types => by rw [judged, hdata]; rfl
  | relation op x className =>
    exact h.recovers_test rfl rfl fun types => by rw [judged, hdata]; rfl

end JudgedAgain

/-! ## Whole expressions -/

/-- An operand is spanned before the expression that it belongs to. -/
theorem Spans.operand {t : Tree} {b c : NodeId} {ms : List NodeId} {form : Expression} {ty : Ty}
    (h : t.Spans b ms) (hdata : t.data b = .expression form ty) (hc : c ∈ form.operands) :
    ∃ ns, t.Spans c ns ∧ (ns ++ [b]).Sublist ms := by
  cases h with
  | node nodesOf hdata' hbelow =>
    cases hdata.symm.trans hdata'
    have hchild := form.operands_subset_children hc
    refine ⟨nodesOf c, hbelow c hchild, List.Sublist.append_right ?_ _⟩
    exact List.sublist_flatten_of_mem (List.mem_map_of_mem hchild)

section

variable {t : Tree} {l b : NodeId} {before after types : NodeId → Ty}

/-- A leaf that takes the type of a node is one of the nodes that this spans. -/
theorem Undefines.mem (h : t.Undefines l b) {ms : List NodeId} (hspans : t.Spans b ms) :
    l ∈ ms := by
  induction h generalizing ms with
  | leaf => exact hspans.mem_self
  | node hdata hc _ ih =>
    obtain ⟨ns, hns, hsub⟩ := hspans.operand hdata (Expression.carriers_subset _ hc)
    exact hsub.subset (List.mem_append_left _ (ih hns))

/-- So is a leaf that gives it a wrong type. -/
theorem Mistakes.mem (h : t.Mistakes l types b) {ms : List NodeId} (hspans : t.Spans b ms) :
    l ∈ ms := by
  induction h generalizing ms with
  | concat hdata hundefines =>
    rcases hundefines with hu | hu
    · obtain ⟨ns, hns, hsub⟩ := hspans.operand hdata List.mem_cons_self
      exact hsub.subset (List.mem_append_left _ (hu.mem hns))
    · obtain ⟨ns, hns, hsub⟩ := hspans.operand hdata (List.mem_cons_of_mem _ List.mem_cons_self)
      exact hsub.subset (List.mem_append_left _ (hu.mem hns))
  | target hdata _ ih =>
    obtain ⟨ns, hns, hsub⟩ := hspans.operand hdata List.mem_cons_self
    exact hsub.subset (List.mem_append_left _ (ih hns))

/-- Only nodes above the leaf are concerned. -/
theorem Concerned.mem (h : t.Concerned l types b) {ms : List NodeId} (hspans : t.Spans b ms) :
    l ∈ ms :=
  h.elim (·.mem hspans) (·.mem hspans)

/-- A node where a wrong type meets another is typed after the leaf. -/
theorem Cascades.sublist (h : t.Cascades l types b) {ms : List NodeId} (hspans : t.Spans b ms) :
    [l, b].Sublist ms := by
  obtain ⟨form, ty, x, y, hdata, hsides, hmistakes⟩ := h
  have hafter : ∀ c ∈ form.operands, t.Mistakes l types c → [l, b].Sublist ms := by
    intro c hc hmistakes
    obtain ⟨ns, hns, hsub⟩ := hspans.operand hdata hc
    have hl : [l].Sublist ns := List.singleton_sublist.mpr (hmistakes.mem hns)
    exact (hl.append_right [b]).trans hsub
  rw [Expression.operands_of_sides hsides] at hafter
  rcases hmistakes with ⟨hx, -⟩ | ⟨hy, -⟩
  · exact hafter x (by simp) hx
  · exact hafter y (by simp) hy

/-- In a tree without sharing the check recovers at every node but the leaf itself. -/
theorem Spans.recovers {scope e : NodeId} {ns : List NodeId} {x : String} {stored : Ty}
    (h : t.Spans e ns) (hnodup : ns.Nodup)
    (hleaf : t.data l = .expression (.nameUse x []) stored) (hlost : after l = .undefined)
    (hbefore : ∀ b ∈ ns, (t.judged scope before b).1 = before b ∧ (t.judged scope before b).2 = [])
    (hafter : ∀ b ∈ ns, b ≠ l → (t.judged scope after b).1 = after b) :
    ∀ b ∈ ns, t.Retypes l before after b ∧ (b ≠ l → t.Recovers scope l before after b) := by
  induction h with
  | @node e form ty nodesOf hdata hbelow ih =>
    obtain ⟨hnodes, -, -⟩ := List.nodup_append'.mp hnodup
    have hmem : ∀ c ∈ form.children, ∀ b ∈ nodesOf c, b ∈ form.children.flatMap nodesOf ++ [e] :=
      fun c hc b hb => List.mem_append_left _ (List.mem_flatMap.mpr ⟨c, hc, hb⟩)
    have hbelow' : ∀ c ∈ form.children, ∀ b ∈ nodesOf c,
        t.Retypes l before after b ∧ (b ≠ l → t.Recovers scope l before after b) := by
      intro c hc
      refine ih c hc ((List.nodup_flatMap.mp hnodes).1 c hc) (fun b hb => ?_) fun b hb => ?_
      · exact hbefore b (hmem c hc b hb)
      · exact hafter b (hmem c hc b hb)
    intro b hb
    rcases List.mem_append.mp hb with hnode | hself
    · obtain ⟨c, hc, hbc⟩ := List.mem_flatMap.mp hnode
      exact hbelow' c hc b hbc
    obtain rfl := List.mem_singleton.mp hself
    by_cases hbl : b = l
    · subst hbl
      refine ⟨⟨fun hkept => absurd (.inl .leaf) hkept, fun _ => hlost, fun hmistakes => ?_⟩,
        fun hne => absurd rfl hne⟩
      simp [mistakes_iff hleaf] at hmistakes
    have hjudged : t.JudgedAgain scope l before after b form :=
      { data := ⟨ty, hdata⟩
        ne := hbl
        type := (hbefore b hb).1
        clean := (hbefore b hb).2
        retype := hafter b hb hbl
        operands := fun c hc =>
          have hchild := form.operands_subset_children hc
          (hbelow' c hchild c (hbelow c hchild).mem_self).1 }
    -- The leaf lies below one of two operands only, so only one of them is concerned.
    have hrecovers : t.Recovers scope l before after b := hjudged.recovers (by
      intro x y hsides hx hy
      rw [Expression.children_of_sides hsides] at hnodes hbelow
      rw [List.flatMap_cons, List.flatMap_singleton] at hnodes
      have hdisjoint := (List.nodup_append'.mp hnodes).2.2
      exact hdisjoint (hx.mem (hbelow x (by simp))) (hy.mem (hbelow y (by simp))))
    exact ⟨hrecovers.toRetypes, fun _ => hrecovers⟩

end

end Tree

/-- A name without a declaration gets no type and is reported. -/
theorem CheckM.nameType_of_undefined {s : CheckState} {scope : NodeId} {x : String}
    (h : (s.tree.resolve scope x).declaration = none) (line : Nat) :
    nameType x scope line s = .ok .undefined (s.report line (.undefinedIdentifier x)) := by
  simp only [nameType, bind_of_ok (show tree s = .ok s.tree s from rfl), h]
  rfl

/-- Reports that leave no trace are none. -/
theorem Diagnostics.eq_nil_of_foldl_report {ds : List Diagnostic} {before : Diagnostics}
    (h : ds.foldl Diagnostics.report before = before) : ds = [] := by
  have hentries := entries_foldl_report ds before
  rw [h] at hentries
  exact List.self_eq_append_right.mp hentries

/-! ## Another name for the leaf -/

namespace Tree

section

variable {t : Tree} {l : NodeId} {y : String}

/-- Another name in place of a name changes that node only, and nothing but the name. -/
theorem data_withName (t : Tree) (l id : NodeId) (y : String) :
    (t.update l (·.withName y)).data id = t.data id ∨ ∃ x arguments ty,
      t.data id = .expression (.nameUse x arguments) ty ∧
      (t.update l (·.withName y)).data id = .expression (.nameUse y arguments) ty := by
  by_cases hid : id = l
  · subst hid
    by_cases hlt : id < t.size
    · rw [data_update_self _ hlt]
      exact (t.data id).withName_eq y
    · have hle := Nat.le_of_not_lt hlt
      exact .inl ((data_of_size_le (by simpa using hle)).trans (data_of_size_le hle).symm)
  · exact .inl (data_update_of_ne _ hid)

/-- What stands under conversions does not depend on the name. -/
theorem underConversionsWithin_withName (n : Nat) (id : NodeId) :
    CheckM.underConversionsWithin (t.update l (·.withName y)) n id =
      CheckM.underConversionsWithin t n id := by
  induction n generalizing id with
  | zero => rfl
  | succ n ih =>
    rw [CheckM.underConversionsWithin, CheckM.underConversionsWithin]
    rcases data_withName t l id y with hsame | ⟨x, arguments, ty, hold, hnew⟩
    · rw [hsame]
      split
      · exact ih _
      · rfl
    · rw [hold, hnew]

/-- Nor do the parts of an expression. -/
theorem partsOf_withName (id : NodeId) :
    (t.update l (·.withName y)).partsOf id = t.partsOf id := by
  rw [partsOf, partsOf]
  rcases data_withName t l id y with hsame | ⟨x, arguments, ty, hold, hnew⟩
  · rw [hsame]
    split
    · rename_i form ty _
      cases form <;>
        simp only [CheckM.typedParts, CheckM.underConversions, size_update,
          underConversionsWithin_withName]
    · rfl
  · rw [hold, hnew]
    rfl

/-- Nor does the depth to which it is nested. -/
theorem nestsWithin_withName (n : Nat) (e : NodeId) :
    (t.update l (·.withName y)).NestsWithin n e ↔ t.NestsWithin n e := by
  induction n generalizing e with
  | zero => rfl
  | succ n ih => simp only [NestsWithin, partsOf_withName, ih]

/-- Nor do the nodes that it spans. -/
theorem Spans.withName {e : NodeId} {ns : List NodeId} (h : t.Spans e ns) (l : NodeId)
    (y : String) : (t.update l (·.withName y)).Spans e ns := by
  refine h.congr fun b _ form ty hdata => ?_
  rcases data_withName t l b y with hsame | ⟨x, arguments, ty', hold, hnew⟩
  · exact ⟨form, ty, hsame.trans hdata, rfl⟩
  · cases hdata.symm.trans hold
    exact ⟨_, ty, hnew, rfl⟩

/-- The other nodes are judged as before. -/
theorem judged_withName (hunlisted : t.Unlisted l) {b : NodeId} (hne : b ≠ l) (scope : NodeId)
    (types : NodeId → Ty) :
    (t.update l (·.withName y)).judged scope types b = t.judged scope types b := by
  have hview := (hunlisted.sameReads y).sameView
  rw [judged, judged, data_update_of_ne _ hne, line_update]
  split
  · exact CheckM.outcome_formType hview types scope b (t.line b) _ _
  · rfl

/-- The leaf has no type and is reported if its new name is not found. -/
theorem judged_leaf_withName (hunlisted : t.Unlisted l) {scope : NodeId} {x : String} {stored : Ty}
    (hleaf : t.data l = .expression (.nameUse x []) stored)
    (hy : (t.resolve scope y).declaration = none) (types : NodeId → Ty) :
    (t.update l (·.withName y)).judged scope types l =
      (.undefined, [(Finding.undefinedIdentifier y).onLine (t.line l)]) := by
  have hdata : (t.update l (·.withName y)).data l = .expression (.nameUse y []) stored := by
    rw [data_update_self _ (lt_of_data (by simp [hleaf])), hleaf]
    rfl
  have hresolve : ((t.update l (·.withName y)).resolve scope y).declaration = none := by
    rw [(hunlisted.sameReads y).sameView.resolve, hy]
  rw [judged, hdata, line_update]
  exact CheckM.outcome_of_ok (CheckM.nameType_of_undefined hresolve (t.line l)) rfl

end

/-- What comes after a node in a list without repetition does not come before it. -/
theorem notMem_of_later {l b : NodeId} {before after : List NodeId}
    (hnodup : (before ++ l :: after).Nodup) (h : [l, b].Sublist (before ++ l :: after)) :
    b ∉ before := by
  intro hb
  have hdisjoint := (List.nodup_append'.mp hnodup).2.2
  obtain ⟨xs, ys, hxy, hxs, hys⟩ := List.sublist_append_iff.mp h
  cases xs with
  | nil =>
    have hby : b ∈ ys := by rw [← List.nil_append ys, ← hxy]; simp
    exact hdisjoint hb (hys.subset hby)
  | cons z xs =>
    obtain ⟨rfl, -⟩ := List.cons.inj hxy
    exact hdisjoint (hxs.subset List.mem_cons_self) List.mem_cons_self

/-- If the leaf has a report and the other nodes have one exactly where a wrong type meets a known
one, then the report on the leaf comes first. -/
theorem Spans.reports {t : Tree} {e l : NodeId} {ns : List NodeId} {types : NodeId → Ty}
    {x : String} {stored : Ty} {d : Diagnostic} (h : t.Spans e ns) (r : NodeId → List Diagnostic)
    (hnodup : ns.Nodup) (hl : l ∈ ns)
    (hleaf : t.data l = .expression (.nameUse x []) stored) (hd : r l = [d])
    (hreports : ∀ b ∈ ns, b ≠ l → (r b = [] ↔ ¬ t.Cascades l types b)) :
    ∃ more, ns.flatMap r = d :: more ∧ (more = [] ↔ ∀ b ∈ ns, ¬ t.Cascades l types b) := by
  have hcascades : ¬ t.Cascades l types l := by simp [cascades_iff hleaf, Expression.sides?]
  have hlater : ∀ b ∈ ns, t.Cascades l types b → [l, b].Sublist ns := fun b hb hcascades =>
    have ⟨ms, hms, hsub⟩ := h.of_mem hb
    (hcascades.sublist hms).trans hsub
  obtain ⟨before, after, rfl⟩ := List.append_of_mem hl
  obtain ⟨-, hafter, hdisjoint⟩ := List.nodup_append'.mp hnodup
  have hbefore : ∀ b ∈ before, ¬ t.Cascades l types b := fun b hb hcascades =>
    notMem_of_later hnodup (hlater b (List.mem_append_left _ hb) hcascades) hb
  have hclean : before.flatMap r = [] := List.flatMap_eq_nil_iff.mpr fun b hb =>
    (hreports b (List.mem_append_left _ hb) fun hbl =>
      hdisjoint hb (hbl ▸ List.mem_cons_self)).mpr (hbefore b hb)
  refine ⟨after.flatMap r, ?_, ?_⟩
  · rw [List.flatMap_append, hclean, List.flatMap_cons, hd]
    rfl
  have hother : ∀ b ∈ after, (r b = [] ↔ ¬ t.Cascades l types b) := fun b hb =>
    hreports b (List.mem_append_right _ (List.mem_cons_of_mem _ hb)) fun hbl =>
      (List.nodup_cons.mp hafter).1 (hbl ▸ hb)
  rw [List.flatMap_eq_nil_iff, forall₂_congr hother]
  simp only [List.forall_mem_append, List.forall_mem_cons]
  exact ⟨fun h => ⟨hbefore, hcascades, h⟩, fun h => h.2.2⟩

end Tree

namespace CheckM

/-- **One undefined name.** An expression without sharing is typed with no report. If one of its
names is replaced by one that is not found, then it is typed again, and the report on that name is
the first one and the only one, unless a concatenation that is taken for a boolean meets a type that
is known. -/
theorem typeExpr_withName {s s' : CheckState} {depth : Nat} {scope e l : NodeId}
    {ns : List NodeId} {x y : String} {stored ty : Ty} (hspans : s.tree.Spans e ns)
    (hnodup : ns.Nodup) (hl : l ∈ ns)
    (hleaf : s.tree.data l = .expression (.nameUse x []) stored) (hunlisted : s.tree.Unlisted l)
    (hy : (s.tree.resolve scope y).declaration = none)
    (hrun : typeExpr depth scope e s = .ok ty s') (hclean : s'.diagnostics = s.diagnostics) :
    ∃ ty' s'' more, typeExpr depth scope e (s.update l (·.withName y)) = .ok ty' s'' ∧
      s''.diagnostics = ((Finding.undefinedIdentifier y).onLine (s.tree.line l) :: more).foldl
        Diagnostics.report s.diagnostics ∧
      (more = [] ↔ ∀ b ∈ ns, ¬ s.tree.Cascades l s'.tree.typeAt b) := by
  obtain ⟨hnests, -, htypes⟩ :=
    (typeExpr_types scope depth hspans hnodup ⟨.refl _, fun _ _ => rfl⟩).ok hrun
  obtain ⟨hbefore, hreports⟩ := htypes.judged s'.tree.typeAt fun _ _ => rfl
  -- Nothing was reported, so the types recorded in the end were judged without a report everywhere.
  have hnone := Diagnostics.eq_nil_of_foldl_report (hreports.symm.trans hclean)
  have hrename := typeExpr_types scope depth (s := s.update l (·.withName y))
    (hspans.withName l y) hnodup ⟨.refl _, fun _ _ => rfl⟩
  cases hagain : typeExpr depth scope e (s.update l (·.withName y)) with
  | error err s'' =>
    exact absurd ((Tree.nestsWithin_withName depth e).mpr hnests) (hrename.error hagain)
  | ok ty' s'' =>
    obtain ⟨-, -, htypes'⟩ := hrename.ok hagain
    obtain ⟨hafter, hreports'⟩ := htypes'.judged s''.tree.typeAt fun _ _ => rfl
    have hself := Tree.judged_leaf_withName hunlisted hleaf hy s''.tree.typeAt
    have hlost : s''.tree.typeAt l = .undefined := by
      rw [← hafter l hl]
      exact congrArg Prod.fst hself
    have hrecovers := hspans.recovers hnodup hleaf hlost
      (fun b hb => ⟨hbefore b hb, List.flatMap_eq_nil_iff.mp hnone b hb⟩)
      (fun b hb hne => (congrArg Prod.fst (Tree.judged_withName hunlisted hne ..)).symm.trans
        (hafter b hb))
    obtain ⟨more, hmore, hcascades⟩ := hspans.reports
      (fun b => ((s.tree.update l (·.withName y)).judged scope s''.tree.typeAt b).2) hnodup hl hleaf
      (congrArg Prod.snd hself) fun b hb hne => by
        rw [Tree.judged_withName hunlisted hne]
        exact ((hrecovers b hb).2 hne).reports
    exact ⟨ty', s'', more, rfl, hmore ▸ hreports', hcascades⟩

/-- The text `X` concatenated with two constants one after the other, all of a stored type. -/
def concatenations (ty : Ty) : CheckState where
  tree := { nodes := #[
    ⟨1, .declaration "MAIN" none (.block { declarations := ⟨#[("X", 1)]⟩ })⟩,
    ⟨2, .declaration "X" (some 0) (.simpleVariable .text none)⟩,
    ⟨3, .expression (.nameUse "X" []) ty⟩,
    ⟨3, .expression (.constant (.text "a")) ty⟩,
    ⟨3, .expression (.binary .concat 2 3) ty⟩,
    ⟨3, .expression (.constant (.text "b")) ty⟩,
    ⟨3, .expression (.binary .concat 4 5) ty⟩] }

/-- The inner concatenation is taken for a boolean if `Y` is not found, and meets a text. -/
theorem typeExpr_withName_concatenations :
    typeExpr 3 0 6 (concatenations .undefined) = .ok .text (concatenations .text) ∧
    ((concatenations .undefined).tree.resolve 0 "Y").declaration = none ∧
    ∃ ty s more, typeExpr 3 0 6 ((concatenations .undefined).update 2 (·.withName "Y")) = .ok ty s ∧
      s.diagnostics = ((Finding.undefinedIdentifier "Y").onLine 3 :: more).foldl
        Diagnostics.report {} ∧
      more ≠ [] := by
  have hinner : (concatenations .undefined).tree.Spans 4 [2, 3, 4] :=
    .pair rfl rfl (by decide) (.leaf rfl rfl) (.leaf rfl rfl)
  have hspans : (concatenations .undefined).tree.Spans 6 [2, 3, 4, 5, 6] :=
    .pair rfl rfl (by decide) hinner (.leaf rfl rfl)
  have hrun : typeExpr 3 0 6 (concatenations .undefined) = .ok .text (concatenations .text) := by
    rfl
  have hy : ((concatenations .undefined).tree.resolve 0 "Y").declaration = none := by
    decide +kernel
  obtain ⟨ty, s, more, hagain, hreports, hmore⟩ := typeExpr_withName hspans (by decide)
    (show 2 ∈ _ by decide) rfl (by decide +kernel) hy hrun rfl
  have hcascades :
      (concatenations .undefined).tree.Cascades 2 (concatenations .text).tree.typeAt 6 :=
    ⟨_, _, 4, 5, rfl, rfl, .inl ⟨.concat rfl (.inl .leaf) nofun nofun, nofun⟩⟩
  exact ⟨hrun, hy, ty, s, more, hagain, hreports, fun hnil => hmore.mp hnil 6 (by decide) hcascades⟩

end CheckM

end Simula
