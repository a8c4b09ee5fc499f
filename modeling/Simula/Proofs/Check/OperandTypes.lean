import Simula.Proofs.Check.ExpressionTrees

/-!
# Operands of other types

What becomes of the type and the reports of an expression when the type of an operand changes? Two
changes are looked at. An operand of undefined type is never reported, whatever the operation is. A
boolean in the place of a text is always reported, if the other operand has a type at all, since
nothing goes with both.
-/

namespace Simula

/-! ## Types of operations -/

namespace Ty

variable {classes : ClassView} {ty : Ty}

/-- Only text has a type in common with text. -/
theorem isSome_common_text : (text.common classes ty).isSome = true ↔ ty = text := by
  cases ty <;> simp [common, same, folded, arithmeticRank, isSubReference]

/-- On the right side as on the left. -/
theorem isSome_common_text_right : (ty.common classes text).isSome = true ↔ ty = text := by
  cases ty <;> simp [common, same, folded, arithmeticRank, isSubReference]

/-- Nothing but text is converted to text. -/
theorem conversionTo_text (hty : ty ≠ text) : ty.conversionTo classes text = .illegal := by
  cases ty <;> simp_all [conversionTo, isUndefined, same, folded, isArithmetic, arithmeticRank,
    isSubReference]

/-- Text is converted to nothing but text. -/
theorem text_conversionTo (hty : ty ≠ text) (hdefined : ty ≠ undefined) :
    text.conversionTo classes ty = .illegal := by
  cases ty <;> simp_all [conversionTo, isUndefined, same, folded, isArithmetic, arithmeticRank,
    isSubReference]

/-- A truth value is converted to nothing else. -/
theorem boolean_conversionTo (hty : ty ≠ boolean) (hdefined : ty ≠ undefined) :
    boolean.conversionTo classes ty = .illegal := by
  cases ty <;> simp_all [conversionTo, isUndefined, same, folded, isArithmetic, arithmeticRank,
    isSubReference]

end Ty

namespace CheckM

variable {t : Tree} {scope : NodeId} {line : Nat}

/-- An operation with an operand of undefined type is not reported. It has no type if it should
compute a number, and counts as boolean otherwise. -/
theorem outcome_binaryType_of_undefined {lhs rhs : Ty} (h : lhs = .undefined ∨ rhs = .undefined)
    (op : BinaryOp) : outcome (binaryType op lhs rhs scope line) t =
      (if op.isArithmetic then .undefined else .boolean, []) := by
  have hundefined : (lhs.isUndefined || rhs.isUndefined) = true := by
    rcases h with rfl | rfl <;> simp [Ty.isUndefined]
  unfold binaryType
  rw [if_pos hundefined]
  rfl

/-- Whether an operation goes with operands of types that are known. -/
def accepts (classes : ClassView) (op : BinaryOp) (lhs rhs : Ty) : Bool :=
  match op with
  | .intDiv => lhs.same .integer && rhs.same .integer
  | .add | .sub | .mul | .div | .exp => lhs.isArithmetic && rhs.isArithmetic
  | .and | .or | .imp | .eqv => lhs.same .boolean && rhs.same .boolean
  | .concat => lhs.same .text && rhs.same .text
  | .refEq | .refNe => (lhs.isReference || lhs.same .text) && (lhs.common classes rhs).isSome
  | .lt | .le | .eq | .ne | .gt | .ge => (lhs.common classes rhs).isSome

/-- A condition that is required is reported where it fails, and the type does not depend on it. -/
theorem outcome_reportUnless {c : Prop} [Decidable c] (line : Nat) (f : Finding) (ty : Ty) :
    outcome (if c then pure ty else report line f >>= fun _ => pure ty) t =
      (ty, if c then [] else [f.onLine line]) := by
  by_cases hc : c
  · rw [if_pos hc, if_pos hc]
    rfl
  · rw [if_neg hc, if_neg hc]
    rfl

/-- Where one type is required of both sides, a pair of others is reported. -/
theorem outcome_requireBoth (expected lhs rhs ty : Ty) :
    outcome (requireBoth expected lhs rhs line >>= fun _ => pure ty) t =
      (ty, if lhs.same expected && rhs.same expected then []
        else [(Finding.incompatibleTypes lhs rhs).onLine line]) := by
  rw [requireBoth]
  by_cases hc : (lhs.same expected && rhs.same expected) = true
  · rw [if_pos hc, if_pos hc]
    rfl
  · rw [if_neg hc, if_neg hc]
    rfl

/-- An arithmetic operation is reported exactly if a side is not arithmetic. -/
theorem reports_arithmeticType (op : BinaryOp) (lhs rhs : Ty) :
    (outcome (arithmeticType op lhs rhs scope line) t).2 =
      if lhs.isArithmetic && rhs.isArithmetic then []
      else [(Finding.incompatibleTypes lhs rhs).onLine line] := by
  rw [arithmeticType]
  by_cases hc : (lhs.isArithmetic && rhs.isArithmetic) = true
  · rw [if_pos hc, if_pos hc]
    rfl
  · rw [if_neg hc, if_neg hc]
    rfl

/-- An operation on operands of known types is reported unless it goes with them. -/
theorem outcome_binaryType (t : Tree) (scope : NodeId) (line : Nat) (op : BinaryOp) {lhs rhs : Ty}
    (hlhs : lhs ≠ .undefined) (hrhs : rhs ≠ .undefined) :
    ((outcome (binaryType op lhs rhs scope line) t).2 =
      if accepts (t.classView scope) op lhs rhs then []
      else [(Finding.incompatibleTypes lhs rhs).onLine line]) ∧
    (op.isArithmetic = false → (outcome (binaryType op lhs rhs scope line) t).1 =
      if op = .concat then .text else .boolean) := by
  have hundefined : ¬ (lhs.isUndefined || rhs.isUndefined) = true := by
    simp [Ty.isUndefined_iff, hlhs, hrhs]
  unfold binaryType
  rw [if_neg hundefined]
  cases op with
  | intDiv | and | or | imp | eqv | concat =>
    dsimp only
    rw [outcome_requireBoth]
    exact ⟨rfl, by simp [BinaryOp.isArithmetic]⟩
  | add | sub | mul | div | exp =>
    exact ⟨reports_arithmeticType .., by simp [BinaryOp.isArithmetic]⟩
  | refEq | refNe =>
    have houtcome := outcome_reportUnless (t := t)
      (c := accepts (t.classView scope) .refEq lhs rhs) line (.incompatibleTypes lhs rhs) .boolean
    exact ⟨congrArg Prod.snd houtcome, fun _ => congrArg Prod.fst houtcome⟩
  | _ =>
    have houtcome := outcome_reportUnless (t := t)
      (c := accepts (t.classView scope) .eq lhs rhs) line (.incompatibleTypes lhs rhs) .boolean
    exact ⟨congrArg Prod.snd houtcome, fun _ => congrArg Prod.fst houtcome⟩

/-- An operation that computes no number is boolean, unless it is a concatenation of operands whose
types are known. -/
theorem type_binaryType_boolean {op : BinaryOp} {lhs rhs : Ty} (hop : op.isArithmetic = false)
    (h : lhs ≠ .undefined → rhs ≠ .undefined → op ≠ .concat) :
    (outcome (binaryType op lhs rhs scope line) t).1 = .boolean := by
  by_cases hundefined : lhs = .undefined ∨ rhs = .undefined
  · rw [outcome_binaryType_of_undefined hundefined, hop]
    rfl
  · obtain ⟨hlhs, hrhs⟩ := not_or.mp hundefined
    rw [(outcome_binaryType t scope line op hlhs hrhs).2 hop, if_neg (h hlhs hrhs)]

/-- What goes with a text on the left does not go with a boolean there. -/
theorem accepts_text_left {classes : ClassView} {op : BinaryOp} {ty : Ty}
    (h : accepts classes op .text ty = true) :
    op.isArithmetic = false ∧ accepts classes op .boolean ty = false := by
  cases op with
  | add | sub | mul | div | intDiv | exp | and | or | imp | eqv => cases h
  | concat | refEq | refNe => exact ⟨rfl, rfl⟩
  | _ =>
    obtain rfl := Ty.isSome_common_text.mp h
    exact ⟨rfl, rfl⟩

/-- What goes with a text on the right does not go with a boolean there. -/
theorem accepts_text_right {classes : ClassView} {op : BinaryOp} {ty : Ty}
    (h : accepts classes op ty .text = true) :
    op.isArithmetic = false ∧ accepts classes op ty .boolean = false := by
  cases op with
  | add | sub | mul | div | intDiv | exp | and | or | imp | eqv =>
    cases (Bool.and_eq_true_iff.mp h).2
  | concat => exact ⟨rfl, Bool.and_false _⟩
  | refEq | refNe =>
    obtain rfl := Ty.isSome_common_text_right.mp (Bool.and_eq_true_iff.mp h).2
    exact ⟨rfl, rfl⟩
  | _ =>
    obtain rfl := Ty.isSome_common_text_right.mp h
    exact ⟨rfl, rfl⟩

/-- Operands with types that are not reported are accepted by the operator. -/
theorem accepts_of_reports {op : BinaryOp} {lhs rhs : Ty} (hlhs : lhs ≠ .undefined)
    (hrhs : rhs ≠ .undefined) (h : (outcome (binaryType op lhs rhs scope line) t).2 = []) :
    accepts (t.classView scope) op lhs rhs = true := by
  rw [(outcome_binaryType t scope line op hlhs hrhs).1] at h
  by_contra hno
  rw [if_neg hno] at h
  cases h

/-- Where an operator refuses its operands there is a report, but its result has the type that it
has with others. -/
theorem outcome_binaryType_refused {op : BinaryOp} {lhs rhs lhs' rhs' : Ty}
    (hlhs : lhs ≠ .undefined) (hrhs : rhs ≠ .undefined) (hlhs' : lhs' ≠ .undefined)
    (hrhs' : rhs' ≠ .undefined) (hop : op.isArithmetic = false)
    (hno : accepts (t.classView scope) op lhs' rhs' = false) :
    (outcome (binaryType op lhs' rhs' scope line) t).1 =
        (outcome (binaryType op lhs rhs scope line) t).1 ∧
      (outcome (binaryType op lhs' rhs' scope line) t).2 ≠ [] := by
  obtain ⟨-, htype⟩ := outcome_binaryType t scope line op hlhs hrhs
  obtain ⟨hreports', htype'⟩ := outcome_binaryType t scope line op hlhs' hrhs'
  rw [hreports', hno, htype hop, htype' hop]
  exact ⟨rfl, List.cons_ne_nil _ _⟩

/-- A boolean on the left in the place of a text is reported if the type on the right is known. The
type of the operation is the same. -/
theorem binaryType_boolean_left {op : BinaryOp} {ty : Ty}
    (h : (outcome (binaryType op .text ty scope line) t).2 = []) :
    (outcome (binaryType op .boolean ty scope line) t).1 =
        (outcome (binaryType op .text ty scope line) t).1 ∧
      ((outcome (binaryType op .boolean ty scope line) t).2 = [] ↔ ty = .undefined) := by
  by_cases hty : ty = .undefined
  · rw [outcome_binaryType_of_undefined (.inr hty), outcome_binaryType_of_undefined (.inr hty)]
    exact ⟨rfl, iff_of_true rfl hty⟩
  · have htext : Ty.text ≠ .undefined := nofun
    have hboolean : Ty.boolean ≠ .undefined := nofun
    obtain ⟨hop, hno⟩ := accepts_text_left (accepts_of_reports htext hty h)
    exact (outcome_binaryType_refused htext hty hboolean hty hop hno).imp_right
      fun hreports => iff_of_false hreports hty

/-- A boolean on the right in the place of a text is reported if the type on the left is known. The
type of the operation is the same. -/
theorem binaryType_boolean_right {op : BinaryOp} {ty : Ty}
    (h : (outcome (binaryType op ty .text scope line) t).2 = []) :
    (outcome (binaryType op ty .boolean scope line) t).1 =
        (outcome (binaryType op ty .text scope line) t).1 ∧
      ((outcome (binaryType op ty .boolean scope line) t).2 = [] ↔ ty = .undefined) := by
  by_cases hty : ty = .undefined
  · rw [outcome_binaryType_of_undefined (.inl hty), outcome_binaryType_of_undefined (.inl hty)]
    exact ⟨rfl, iff_of_true rfl hty⟩
  · have htext : Ty.text ≠ .undefined := nofun
    have hboolean : Ty.boolean ≠ .undefined := nofun
    obtain ⟨hop, hno⟩ := accepts_text_right (accepts_of_reports hty htext h)
    exact (outcome_binaryType_refused hty htext hty hboolean hop hno).imp_right
      fun hreports => iff_of_false hreports hty

/-! ## Types of other expressions -/

/-- Without the type of its operand only a negation has a type, and nothing is reported. -/
theorem outcome_unaryType_undefined (op : UnaryOp) : outcome (unaryType op .undefined line) t =
    (if op = .not then .boolean else .undefined, []) := by
  cases op <;> rfl

/-- A negation is a truth value. -/
theorem type_unaryType_not (operand : Ty) :
    (outcome (unaryType .not operand line) t).1 = .boolean :=
  congrArg Prod.fst (outcome_reportUnless line (.incompatibleTypes operand .boolean) .boolean)

/-- No unary operation is for text. -/
theorem reports_unaryType_text (op : UnaryOp) : (outcome (unaryType op .text line) t).2 ≠ [] := by
  cases op <;> exact List.cons_ne_nil _ _

/-- Text has no attributes. -/
theorem reports_remoteType_text (attr : String) :
    (outcome (remoteType .text attr scope line) t).2 ≠ [] :=
  List.cons_ne_nil _ _

/-- A test of a reference is reported if its two sides have types and these do not fit. -/
theorem outcome_checkReferenceTest (test : ReferenceTest) (object target ty : Ty) :
    outcome (checkReferenceTest test object target scope line >>= fun _ => pure ty) t =
      (ty, if object.isUndefined || target.isUndefined then []
        else if object.conversionTo (t.classView scope) target = .illegal ||
            !object.isReference then
          [(Finding.illegalReferenceTest test object target).onLine line]
        else []) := by
  rw [checkReferenceTest]
  by_cases hundefined : (object.isUndefined || target.isUndefined) = true
  · rw [if_pos hundefined, if_pos hundefined]
    rfl
  rw [if_neg hundefined, if_neg hundefined]
  change outcome ((if object.conversionTo (t.classView scope) target = .illegal ||
    !object.isReference then report line _ else pure ()) >>= fun _ => pure ty) t = _
  by_cases hrefused : (decide (object.conversionTo (t.classView scope) target = .illegal) ||
      !object.isReference) = true
  · rw [if_pos hrefused, if_pos hrefused]
    rfl
  · rw [if_neg hrefused, if_neg hrefused]
    rfl

/-- The type of an object test or qualification, by that of the class it names. -/
def testType (test : ReferenceTest) (result : Ty → Ty) (className : String) (object : Ty)
    (scope : NodeId) (line : Nat) : CheckM Ty := do
  let target ← classType className scope line
  checkReferenceTest test object target scope line
  return result target

/-- A test by a class that is not there is reported, whatever the object is. -/
theorem outcome_testType_of_none {className : String}
    (h : t.lookupClass scope className = none) (test : ReferenceTest) (result : Ty → Ty)
    (object : Ty) : outcome (testType test result className object scope line) t =
      (result .undefined, [(Finding.undefinedClass className).onLine line]) := by
  have hrun : classType className scope line { tree := t } = .ok .undefined
      (({ tree := t } : CheckState).report line (.undefinedClass className)) := by
    rw [classType, bind_of_ok (show tree { tree := t } = .ok t { tree := t } from rfl), h]
    rfl
  have hpass : checkReferenceTest test object .undefined scope line = pure () := by
    rw [checkReferenceTest, if_pos (by simp [Ty.isUndefined])]
  rw [outcome, testType, bind_of_ok hrun, hpass]
  rfl

/-- A test against a class that is found tests against its reference type. -/
theorem outcome_testType_of_some {className : String} {c : NodeId}
    (h : t.lookupClass scope className = some c) (test : ReferenceTest) (result : Ty → Ty)
    (object : Ty) : outcome (testType test result className object scope line) t =
      outcome (checkReferenceTest test object (.reference ((t.identifier? c).getD className)) scope
        line >>= fun _ => pure (result (.reference ((t.identifier? c).getD className)))) t := by
  have hrun : classType className scope line { tree := t } =
      .ok (.reference ((t.identifier? c).getD className)) { tree := t } := by
    rw [classType, bind_of_ok (show tree { tree := t } = .ok t { tree := t } from rfl), h]
    rfl
  rw [outcome, testType, bind_of_ok hrun]
  rfl

/-- A test that is not reported has an object that is no text. Its type does not depend on the
object, and it is not reported for an object of undefined type. -/
theorem outcome_testType {test : ReferenceTest} {result : Ty → Ty} {className : String}
    {object : Ty} (h : (outcome (testType test result className object scope line) t).2 = []) :
    object ≠ .text ∧ outcome (testType test result className .undefined scope line) t =
      ((outcome (testType test result className object scope line) t).1, []) := by
  cases hclass : t.lookupClass scope className with
  | none =>
    rw [outcome_testType_of_none hclass] at h
    cases h
  | some c =>
    rw [outcome_testType_of_some hclass, outcome_checkReferenceTest] at h
    rw [outcome_testType_of_some hclass, outcome_testType_of_some hclass,
      outcome_checkReferenceTest, outcome_checkReferenceTest]
    refine ⟨?_, rfl⟩
    rintro rfl
    simp [Ty.isUndefined, Ty.reference, Ty.isReference] at h

/-! ## Types of assignments -/

variable {classes : ClassView} {op : AssignOp} {ty : Ty}

/-- Where one side has no type, no assignment is reported. -/
theorem assignmentReports_of_undefined {target value : Ty}
    (h : target = .undefined ∨ value = .undefined) :
    assignmentReports classes op target value line = [] := by
  rcases h with rfl | rfl <;> simp [assignmentReports, Ty.isUndefined]

/-- An assignment of a value that cannot be converted is reported. -/
theorem assignmentReports_of_illegal {target value : Ty} (htarget : target ≠ .undefined)
    (hvalue : value ≠ .undefined) (h : value.conversionTo classes target = .illegal) :
    assignmentReports classes op target value line ≠ [] := by
  simp [assignmentReports, Ty.isUndefined_iff, htarget, hvalue, h]

/-- A boolean in the place of a text that something is assigned to is reported if the type of what
is assigned is known. -/
theorem assignmentReports_boolean_target (h : assignmentReports classes op .text ty line = []) :
    assignmentReports classes op .boolean ty line = [] ↔ ty = .undefined := by
  by_cases hty : ty = .undefined
  · exact iff_of_true (assignmentReports_of_undefined (.inr hty)) hty
  have htext : ty = .text := by
    by_contra hno
    exact absurd h (assignmentReports_of_illegal nofun hty (Ty.conversionTo_text hno))
  subst htext
  exact iff_of_false (assignmentReports_of_illegal nofun nofun (Ty.text_conversionTo nofun nofun))
    hty

/-- A boolean in the place of a text that is assigned is reported if the type of the target is
known. -/
theorem assignmentReports_boolean_value (h : assignmentReports classes op ty .text line = []) :
    assignmentReports classes op ty .boolean line = [] ↔ ty = .undefined := by
  by_cases hty : ty = .undefined
  · exact iff_of_true (assignmentReports_of_undefined (.inl hty)) hty
  have htext : ty = .text := by
    by_contra hno
    exact absurd h (assignmentReports_of_illegal hty nofun (Ty.text_conversionTo hno hty))
  subst htext
  exact iff_of_false
    (assignmentReports_of_illegal nofun nofun (Ty.boolean_conversionTo nofun nofun)) hty

end CheckM

end Simula
