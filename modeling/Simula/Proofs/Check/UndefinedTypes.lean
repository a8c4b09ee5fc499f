import Simula.Proofs.Check.Retyping
import Simula.Proofs.Ty.Lattice

/-!
# Undefined types

An undefined type stands for a mistake. It is handed on by operations on it without a report, so
that a mistake is reported once. In a tree whose declarations all have types it does not come from
elsewhere: whenever an expression has no type, an error is reported on it or on an expression below
it. So a check without errors leaves no expression without a type.
-/

namespace Simula

open Relation

variable {t : Tree} {scope b c e : NodeId} {line : Nat}

/-- All that identifiers can denote has a type, and so have all conversions. -/
structure Tree.DeclaresTypes (t : Tree) : Prop where
  resolve : ∀ scope x d, (t.resolve scope x).declaration = some d →
    (t.data d).declaredType ≠ .undefined
  resolveRemote : ∀ scope c x d, (t.resolveRemote scope c x).declaration = some d →
    (t.data d).declaredType ≠ .undefined
  conversion : ∀ b x kind ty, t.data b = .expression (.conversion x kind) ty → ty ≠ .undefined

/-- Each report that is an error is counted. -/
theorem Diagnostics.errorCount_foldl_report (ds : List Diagnostic) (before : Diagnostics) :
    (ds.foldl Diagnostics.report before).errorCount =
      before.errorCount + ds.countP Diagnostic.isError := by
  rw [errorCount, errorCount, ← Array.countP_toList, ← Array.countP_toList, entries_foldl_report,
    List.countP_append]

/-! ## One expression -/

namespace CheckM

/-- A missing type comes with an error. -/
def Explained (outcome : Ty × List Diagnostic) : Prop :=
  outcome.1 = .undefined → ∃ d ∈ outcome.2, d.isError = true

/-- A type that is there needs no explanation. -/
theorem explained_of_ne {ty : Ty} {ds : List Diagnostic} (h : ty ≠ .undefined) :
    Explained (ty, ds) :=
  fun hundefined => absurd hundefined h

/-- A report that is an error explains everything. -/
theorem explained_report (line : Nat) {f : Finding} (hf : f.severity = .error) (ty : Ty) :
    Explained (outcome (report line f >>= fun _ => pure ty) t) :=
  fun _ => ⟨f.onLine line, List.mem_singleton_self _,
    by rw [Diagnostic.isError, Finding.onLine, hf]; rfl⟩

/-- Nor does one that is given without more ado. -/
theorem explained_pure {ty : Ty} (h : ty ≠ .undefined) :
    Explained (outcome (pure ty) t) :=
  explained_of_ne h

/-- What is made of the tree is made of the tree that is there. -/
theorem outcome_tree (f : Tree → CheckM Ty) (t : Tree) :
    outcome (tree >>= f) t = outcome (f t) t := rfl

/-- A class that is not found is reported. -/
theorem explained_classType (x : String) (scope : NodeId) (line : Nat) (t : Tree) :
    Explained (outcome (classType x scope line) t) := by
  rw [classType, outcome_tree]
  cases t.lookupClass scope x with
  | some c => exact explained_pure (by simp [Ty.reference])
  | none => exact explained_report line rfl _

/-- Where all quantities have types, a name without one is reported. -/
theorem explained_nameType (h : t.DeclaresTypes) (x : String) (scope : NodeId) (line : Nat) :
    Explained (outcome (nameType x scope line) t) := by
  rw [nameType, outcome_tree]
  cases hd : (t.resolve scope x).declaration with
  | some d => exact explained_pure (h.resolve scope x d hd)
  | none => exact explained_report line rfl _

/-- Where all quantities have types, an attribute without one is reported. -/
theorem explained_remoteType (h : t.DeclaresTypes) {object : Ty} (hobject : object ≠ .undefined)
    (attr : String) (scope : NodeId) (line : Nat) :
    Explained (outcome (remoteType object attr scope line) t) := by
  unfold remoteType
  split
  · exact absurd rfl hobject
  · rw [outcome_tree]
    dsimp only
    split
    · exact explained_report line rfl _
    · split
      · next hd _ =>
        have hdefined := h.resolveRemote _ _ _ _ hd
        split
        · exact fun hundefined => absurd hundefined hdefined
        · exact explained_pure hdefined
      · exact explained_report line rfl _
  · exact explained_report line rfl _

/-- A unary operation has a type, or is reported. -/
theorem explained_unaryType (op : UnaryOp) {operand : Ty} (h : operand ≠ .undefined) (line : Nat) :
    Explained (outcome (unaryType op operand line) t) := by
  cases op with
  | not => exact fun hundefined => by rw [type_unaryType_not] at hundefined; cases hundefined
  | plus | minus =>
    simp only [unaryType]
    split
    · exact explained_pure h
    · exact explained_report line rfl _

/-- Two numbers have a common type. -/
theorem explained_arithmeticType (op : BinaryOp) (lhs rhs : Ty) (scope : NodeId) (line : Nat) :
    Explained (outcome (arithmeticType op lhs rhs scope line) t) := by
  rw [arithmeticType]
  split
  · next hnumbers =>
    obtain ⟨hlhs, hrhs⟩ := Bool.and_eq_true_iff.mp hnumbers
    rw [outcome_tree]
    obtain ⟨m, hm⟩ := Option.isSome_iff_exists.mp hlhs
    obtain ⟨n, hn⟩ := Option.isSome_iff_exists.mp hrhs
    have hdefined : ∀ {ty : Ty}, ty.isArithmetic = true → ty ≠ .undefined := by
      rintro _ hty rfl
      cases hty
    rw [Ty.common_of_arithmeticRank hm hn, Option.getD_some]
    refine explained_pure ?_
    by_cases hdiv : (op = .div && (if n ≤ m then lhs else rhs).same .integer) = true
    · rw [if_pos hdiv]
      decide
    · rw [if_neg hdiv]
      split
      · exact hdefined hlhs
      · exact hdefined hrhs
  · exact explained_report line rfl _

/-- A binary operation has a type, or is reported. -/
theorem explained_binaryType (op : BinaryOp) {lhs rhs : Ty} (hlhs : lhs ≠ .undefined)
    (hrhs : rhs ≠ .undefined) (scope : NodeId) (line : Nat) :
    Explained (outcome (binaryType op lhs rhs scope line) t) := by
  cases hop : op.isArithmetic with
  | false =>
    intro hundefined
    rw [(outcome_binaryType t scope line op hlhs hrhs).2 hop] at hundefined
    split at hundefined <;> cases hundefined
  | true =>
    have hknown : ¬ (lhs.isUndefined || rhs.isUndefined) = true := by
      simp [Ty.isUndefined_iff, hlhs, hrhs]
    unfold binaryType
    rw [if_neg hknown]
    cases op with
    | add | sub | mul | div | exp => exact explained_arithmeticType _ lhs rhs scope line
    | intDiv =>
      dsimp only
      rw [outcome_requireBoth]
      exact explained_of_ne (by decide)
    | _ => cases hop

/-- A test of a reference has a type, or its class is reported. -/
theorem explained_testType (test : ReferenceTest) (result : Ty → Ty)
    (hresult : ∀ ty, ty ≠ .undefined → result ty ≠ .undefined) (className : String) (object : Ty)
    (scope : NodeId) (line : Nat) :
    Explained (outcome (testType test result className object scope line) t) := by
  cases hclass : t.lookupClass scope className with
  | none =>
    rw [outcome_testType_of_none hclass]
    exact fun _ => ⟨_, List.mem_singleton_self _, rfl⟩
  | some c =>
    rw [outcome_testType_of_some hclass, outcome_checkReferenceTest]
    exact explained_of_ne (hresult _ (by simp [Ty.reference]))

end CheckM

/-- If all its operands have types, an expression has one or is reported. -/
theorem Tree.DeclaresTypes.judged (h : t.DeclaresTypes) {form : Expression} {stored : Ty}
    {types : NodeId → Ty} (hdata : t.data e = .expression form stored)
    (htypes : ∀ c ∈ form.operands, types c ≠ .undefined) (scope : NodeId) :
    CheckM.Explained (t.judged scope types e) := by
  rw [Tree.judged, hdata]
  dsimp only
  cases form with
  | constant value =>
    refine CheckM.explained_pure ?_
    cases value <;> simp [Constant.ty, Ty.none]
  | nameUse x arguments =>
    rw [CheckM.formType, CheckM.typeAll_pure]
    exact CheckM.explained_nameType h x scope (t.line e)
  | binary op lhs rhs =>
    exact CheckM.explained_binaryType op (htypes lhs (by simp [Expression.operands]))
      (htypes rhs (by simp [Expression.operands])) scope (t.line e)
  | unary op operand =>
    exact CheckM.explained_unaryType op (htypes operand (by simp [Expression.operands])) (t.line e)
  | assignment op lhs rhs =>
    intro hundefined
    have hlhs := htypes lhs (by simp [Expression.operands])
    exact absurd ((congrArg Prod.fst (CheckM.outcome_assignmentType e op rhs (types lhs) (types rhs)
      scope (t.line e) t)).symm.trans hundefined) hlhs
  | generator className arguments =>
    rw [CheckM.formType, CheckM.typeAll_pure]
    exact CheckM.explained_classType className scope (t.line e) t
  | remote object attr arguments =>
    rw [CheckM.formType, CheckM.typeAll_pure]
    exact CheckM.explained_remoteType h (htypes object (by simp [Expression.operands])) attr scope
      (t.line e)
  | qualified object className =>
    exact CheckM.explained_testType .qua id (fun _ h => h) className (types object) scope (t.line e)
  | relation op object className =>
    exact CheckM.explained_testType .isIn (fun _ => .boolean) (fun _ _ => by decide) className
      (types object) scope (t.line e)
  | conversion x kind => exact CheckM.explained_of_ne (h.conversion e x kind stored hdata)

/-! ## Expressions -/

namespace Tree

/-- An expression without a type has an error among its reports. -/
theorem DeclaresTypes.typing (h : t.DeclaresTypes) (he : t.AcyclicBelow e)
    (hbuilt : t.BuiltOfExpressions e) (scope : NodeId) :
    CheckM.Explained (t.typeIn scope e, t.reportsIn scope e) := by
  have hlevels : ∀ n {e}, t.Shallow n e → t.AcyclicBelow e → t.BuiltOfExpressions e →
      CheckM.Explained (t.typeIn scope e, t.reportsIn scope e) := by
    intro n
    induction n with
    | zero => exact fun hshallow => hshallow.elim
    | succ n ih =>
      intro e hshallow he hbuilt hundefined
      dsimp only at hundefined ⊢
      obtain ⟨form, stored, hdata⟩ := hbuilt.expression
      rw [reportsIn_eq he]
      by_cases htypes : ∀ c ∈ form.operands, t.typeIn scope c ≠ .undefined
      · rw [typeIn_eq he] at hundefined
        obtain ⟨d, hd, herror⟩ := h.judged hdata htypes scope hundefined
        exact ⟨d, List.mem_append_right _ hd, herror⟩
      · -- An operand has no type either, and its reports come first.
        push Not at htypes
        obtain ⟨c, hc, hnone⟩ := htypes
        have hpart := operands_subset_partsOf hdata hc
        obtain ⟨b, hb, hreaches⟩ := exists_reaches_of_mem_partsOf hpart
        have hreached : t.Reaches e c := .head hb hreaches
        obtain ⟨d, hd, herror⟩ := ih (hshallow.of_mem_partsOf hpart) (he.of_reaches hreached)
          (hbuilt.of_reaches hreached) hnone
        exact ⟨d, List.mem_append_left _ (List.mem_flatMap.mpr ⟨c, hpart, hd⟩), herror⟩
  exact hlevels _ he.shallow he hbuilt

namespace Annotates

variable {s s' : CheckState} {ds : List Diagnostic}

/-- Conversions that typing puts in have types. -/
theorem declaresTypes (hrun : s.tree.Annotates scope e (s.tree.Reaches e) ds s s')
    (h : s.tree.DeclaresTypes) (he : s.tree.AcyclicBelow e) : s'.tree.DeclaresTypes where
  resolve scope x d hd := by
    rw [hrun.annotated.view.declaredType]
    exact h.resolve scope x d (hrun.annotated.view.resolve scope x ▸ hd)
  resolveRemote scope c x d hd := by
    rw [hrun.annotated.view.declaredType]
    exact h.resolveRemote scope c x d (hrun.annotated.view.resolveRemote scope c x ▸ hd)
  conversion b x kind ty hdata := by
    by_cases hlt : b < s.tree.size
    · by_cases hb : s.tree.Reaches e b
      · have hrefilled := hrun.annotated.data b hb
        generalize hold : s.tree.data b = d at hrefilled
        rw [hdata] at hrefilled
        cases hrefilled with
        | other hd => cases hd
        | typed htype => exact htype x kind rfl ▸ h.conversion b x kind _ hold
      · exact h.conversion b x kind ty
          ((data_congr (hrun.others b hlt hb)).symm.trans hdata)
    · obtain ⟨lhs, rhs, kind', hkind, hconversion⟩ :=
        hrun.annotated.data_of_new he (Nat.le_of_not_lt hlt) (lt_of_data (by simp [hdata]))
      rw [hdata] at hconversion
      cases hconversion
      exact (Ty.insertedConversion?_eq_some.mp hkind).2.1

/-- An expression that typing leaves without a type has an error among its reports. -/
theorem exists_error (hrun : s.tree.Annotates scope e (s.tree.Reaches e) ds s s')
    (h : s.tree.DeclaresTypes) (he : s.tree.AcyclicBelow e) (hbuilt : s.tree.BuiltOfExpressions e)
    (hb : s.tree.Reaches e b) (hundefined : s'.tree.typeAt b = .undefined) :
    ∃ d ∈ s.tree.reportsIn scope b, d.isError = true :=
  h.typing (he.of_reaches hb) (hbuilt.of_reaches hb) scope
    ((hrun.finished b hb).type.symm.trans hundefined)

/-- Typing without an error leaves no expression without a type. -/
theorem typed (hrun : s.tree.Annotates scope e (s.tree.Reaches e) (s.tree.reportsIn scope e) s s')
    (h : s.tree.DeclaresTypes) (he : s.tree.AcyclicBelow e) (hbuilt : s.tree.BuiltOfExpressions e)
    (herrors : s'.diagnostics.errorCount = s.diagnostics.errorCount) (hb : s.tree.Reaches e b) :
    s'.tree.typeAt b ≠ .undefined := by
  intro hundefined
  obtain ⟨d, hd, herror⟩ := hrun.exists_error h he hbuilt hb hundefined
  have hpos : 0 < (s.tree.reportsIn scope e).countP Diagnostic.isError :=
    List.countP_pos_iff.mpr ⟨d, (reportsIn_of_reaches he scope hb).subset hd, herror⟩
  rw [hrun.reports, Diagnostics.errorCount_foldl_report] at herrors
  omega

end Annotates

end Tree

end Simula
