import Simula.Check
import Simula.Proofs.Check.Annotation

/-!
# Typing again

An expression that is met again, because it is shared or because a module is checked a second time,
is not what it was: types have been recorded in it, and conversions have been put around the values
of assignments. This does not matter. A tree in which some of these changes have been made still
leads to the types and reports of the tree at the beginning, an assignment that has its conversion
gets no other one, and where all changes have been made nothing changes any more.
-/

namespace Simula

open Relation

variable {t t' : Tree} {scope root a b e : NodeId} {s s₁ s₂ s' : CheckState}

namespace CheckM

variable {line : Nat}

/-! ## Expressions one after the other -/

/-- Expressions are typed one after the other, and have certain types then. -/
inductive TypesAll (typeOf : NodeId → CheckM Ty) (types : NodeId → Ty) :
    List NodeId → CheckState → CheckState → Prop
  | nil (s : CheckState) : TypesAll typeOf types [] s s
  | cons {c : NodeId} {cs : List NodeId} {s s₁ s₂ : CheckState}
    (hfirst : typeOf c s = .ok (types c) s₁) (hrest : TypesAll typeOf types cs s₁ s₂) :
    TypesAll typeOf types (c :: cs) s s₂

variable {typeOf : NodeId → CheckM Ty} {types : NodeId → Ty}

/-- Expressions that are all typed are typed one after the other. -/
theorem TypesAll.typeAll {cs : List NodeId} (h : TypesAll typeOf types cs s s') :
    typeAll typeOf cs s = .ok () s' := by
  induction h with
  | nil s => rfl
  | cons hfirst _ ih =>
    rw [CheckM.typeAll, discard_eq, bind_assoc, bind_of_ok hfirst, pure_bind, ih]

/-- After the expressions below it an expression is typed by what is known of them. An expression
may be below it more than once. -/
theorem TypesAll.formType {form : Expression} {id : NodeId} {stored : Ty}
    (h : TypesAll typeOf types (typedParts s.tree form) s s') :
    formType typeOf scope id line stored form s =
      formType (fun c => pure (types c)) scope id line stored form s' := by
  cases form with
  | constant value =>
    cases h
    rfl
  | nameUse x arguments | generator className arguments =>
    have hall : CheckM.typeAll typeOf arguments s = .ok () s' := h.typeAll
    rw [CheckM.formType, CheckM.formType, typeAll_pure, bind_of_ok hall, pure_bind]
  | binary op lhs rhs | assignment op lhs rhs =>
    cases h with
    | cons hlhs hrest =>
      cases hrest with
      | cons hrhs hnil =>
        cases hnil
        rw [CheckM.formType, CheckM.formType, bind_of_ok hlhs, bind_of_ok hrhs, pure_bind,
          pure_bind]
  | unary op object | qualified object className | relation op object className =>
    cases h with
    | cons hobject hnil =>
      cases hnil
      rw [CheckM.formType, CheckM.formType, bind_of_ok hobject, pure_bind]
  | remote object attr arguments =>
    cases h with
    | cons hobject hrest =>
      rw [CheckM.formType, CheckM.formType, typeAll_pure, bind_of_ok hobject,
        bind_of_ok hrest.typeAll, pure_bind, pure_bind]
  | conversion x kind =>
    cases h with
    | cons hunder hnil =>
      cases hnil
      rw [CheckM.formType, bind_of_ok (show tree s = .ok s.tree s from rfl), discard_eq,
        bind_assoc, bind_of_ok hunder]
      rfl

/-- Only for a conversion it counts which type it had. -/
theorem formType_of_stored {form : Expression} {id : NodeId} {stored stored' : Ty}
    (h : ∀ x kind, form = .conversion x kind → stored' = stored) :
    CheckM.formType typeOf scope id line stored' form =
      CheckM.formType typeOf scope id line stored form := by
  cases form with
  | conversion x kind => rw [h x kind rfl]
  | _ => rfl

/-- A typed form is stored. -/
theorem typeExpr_of_formType {form : Expression} {stored ty : Ty} {depth : Nat}
    (hdata : s.tree.data e = .expression form stored)
    (hform : CheckM.formType (typeExpr depth scope) scope e (s.tree.line e) stored form s =
      .ok ty s₁) :
    typeExpr (depth + 1) scope e s = .ok ty (s₁.update e fun d => d.withExpressionType ty) := by
  rw [typeExpr, bind_of_ok (show tree s = .ok s.tree s from rfl), hdata]
  exact bind_of_ok hform

end CheckM

namespace Tree

/-! ## One level after the other -/

/-- At every state that typing may be in, expressions of fewer levels get the types and the reports
that the tree gives, at a depth of two for each level: the conversion around a value is a level of
its own. -/
def TypesWithin (t : Tree) (scope root : NodeId) (n : Nat) : Prop :=
  ∀ ⦃e depth s⦄, t.Shallow n e → t.Reaches root e → 2 * n ≤ depth →
    t.Annotated scope root s.tree →
    ∃ s', CheckM.typeExpr depth scope e s = .ok (t.typeIn scope e) s' ∧
      t.Annotates scope root (t.Reaches e) (t.reportsIn scope e) s s'

/-- Typing an expression keeps the view. -/
theorem Annotated.view_of_typeExpr (h : t.Annotated scope root s.tree) {depth : Nat} {ty : Ty}
    (hrun : CheckM.typeExpr depth scope e s = .ok ty s') : t.SameView s'.tree :=
  h.view.trans ((CheckM.typeExpr_typed depth scope e).of_ok hrun).sameLinks.sameView

section

variable {op : AssignOp} {lhs rhs : NodeId} {stored : Ty} (hroot : t.AcyclicBelow root)
  (he : t.Reaches root e) (hdata : t.data e = .expression (.assignment op lhs rhs) stored)
include hroot he hdata

/-- An assignment has the type of its target, and it is reported after both sides. -/
theorem typeIn_assignment (scope : NodeId) :
    t.typeIn scope e = t.typeIn scope lhs ∧
    t.reportsIn scope e = t.reportsIn scope lhs ++ t.reportsIn scope rhs ++
      CheckM.assignmentReports (t.classView scope) op (t.typeIn scope lhs) (t.typeIn scope rhs)
        (t.line e) := by
  have hjudged : t.judged scope (t.typeIn scope) e = (t.typeIn scope lhs,
      CheckM.assignmentReports (t.classView scope) op (t.typeIn scope lhs) (t.typeIn scope rhs)
        (t.line e)) := by
    rw [judged, hdata]
    exact CheckM.outcome_assignmentType ..
  have hparts : t.partsOf e = [lhs, rhs] := partsOf_of_data hdata
  constructor
  · rw [typeIn_eq (hroot.of_reaches he), hjudged]
  · rw [reportsIn_eq (hroot.of_reaches he), hjudged, hparts]
    simp

/-- What an assignment reaches is done once its sides and itself are. -/
theorem annotates_assignment
    (hdone : t.Annotates scope root (fun b => (t.Reaches lhs b ∨ t.Reaches rhs b) ∨ b = e)
      (t.reportsIn scope lhs ++ t.reportsIn scope rhs ++ CheckM.assignmentReports
        (t.classView scope) op (t.typeIn scope lhs) (t.typeIn scope rhs) (t.line e)) s s') :
    t.Annotates scope root (t.Reaches e) (t.reportsIn scope e) s s' := by
  rw [(typeIn_assignment hroot he hdata scope).2]
  have hbelow : t.below e = [lhs, rhs] := below_of_data hdata
  refine hdone.widen (fun b hb => ?_) (fun b hb => he.trans hb) fun b hb => .inl ?_
  · rcases hb with (hb | hb) | rfl
    · exact .head (by simp [Contains, hbelow]) hb
    · exact .head (by simp [Contains, hbelow]) hb
    · exact .refl
  · rcases ReflTransGen.cases_head hb with rfl | ⟨c, hc, hb⟩
    · exact .inr rfl
    · rw [Contains, hbelow, List.mem_pair] at hc
      rcases hc with rfl | rfl
      · exact .inl (.inl hb)
      · exact .inl (.inr hb)

/-- Without cycles an assignment is not below its sides. -/
theorem not_reaches_of_assignment : ¬ (t.Reaches lhs e ∨ t.Reaches rhs e) := by
  have hbelow : t.below e = [lhs, rhs] := below_of_data hdata
  rintro (hreaches | hreaches)
  · exact hroot.acyclic e he (.head' (show t.Contains e lhs by simp [Contains, hbelow]) hreaches)
  · exact hroot.acyclic e he (.head' (show t.Contains e rhs by simp [Contains, hbelow]) hreaches)

section

variable {value : NodeId} {ty stored' : Ty} {depth : Nat}
  (hdata' : s.tree.data e = .expression (.assignment op lhs value) stored')
  (hlhs : CheckM.typeExpr depth scope lhs s = .ok (t.typeIn scope lhs) s₁)
  (hvalue : CheckM.typeExpr depth scope value s₁ = .ok ty s₂)
  (hsides : t.Annotates scope root (fun b => t.Reaches lhs b ∨ t.Reaches rhs b)
    (t.reportsIn scope lhs ++ t.reportsIn scope rhs) s s₂)
include hdata' hlhs hvalue hsides

/-- After its sides an assignment is looked at, and its type is recorded. -/
theorem typeExpr_of_assignmentType
    (hassign : CheckM.assignmentType e op value (t.typeIn scope lhs) ty scope (t.line e) s₂ =
      .ok (t.typeIn scope lhs) s') :
    CheckM.typeExpr (depth + 1) scope e s =
      .ok (t.typeIn scope e) (s'.update e fun d => d.withExpressionType (t.typeIn scope e)) := by
  rw [(typeIn_assignment hroot he hdata scope).1]
  refine CheckM.typeExpr_of_formType hdata' ?_
  rw [CheckM.formType, bind_of_ok hlhs, bind_of_ok hvalue, hsides.start.line e he, hassign]

/-- An assignment whose value needs no conversion any more is left as it is. -/
theorem typeExpr_assignment_of_none
    (hnone : ty.insertedConversion? (t.classView scope) (t.typeIn scope lhs) = none)
    (hreports : CheckM.assignmentReports (t.classView scope) op (t.typeIn scope lhs) ty (t.line e) =
      CheckM.assignmentReports (t.classView scope) op (t.typeIn scope lhs) (t.typeIn scope rhs)
        (t.line e))
    (hbare : value = rhs → t.conversionFor scope lhs rhs = none) :
    ∃ s', CheckM.typeExpr (depth + 1) scope e s = .ok (t.typeIn scope e) s' ∧
      t.Annotates scope root (t.Reaches e) (t.reportsIn scope e) s s' := by
  have hview := hsides.annotated.view.classView scope
  rw [← hview] at hnone
  have hrun := typeExpr_of_assignmentType hroot he hdata hdata' hlhs hvalue hsides
    (CheckM.assignmentType_of_none hnone)
  rw [hview, hreports] at hrun
  refine ⟨_, hrun, annotates_assignment hroot he hdata (hsides.store hroot he
    (not_reaches_of_assignment hroot he hdata) ⟨_, _, hdata⟩ ?_ rfl rfl
    (hsides.start.view_of_typeExpr hrun))⟩
  intro op' lhs' rhs' stored'' hassignment hassigned
  rw [hdata] at hassignment
  cases hassignment
  rw [hdata'] at hassigned
  exact hbare (Option.some.inj hassigned)

end

/-- An assignment in need of a conversion that it has not yet got gets it. -/
theorem typeExpr_assignment_of_some {stored' : Ty} {depth : Nat} {kind : ConversionKind}
    (hdata' : s.tree.data e = .expression (.assignment op lhs rhs) stored')
    (hlhs : CheckM.typeExpr depth scope lhs s = .ok (t.typeIn scope lhs) s₁)
    (hrhs : CheckM.typeExpr depth scope rhs s₁ = .ok (t.typeIn scope rhs) s₂)
    (hsides : t.Annotates scope root (fun b => t.Reaches lhs b ∨ t.Reaches rhs b)
      (t.reportsIn scope lhs ++ t.reportsIn scope rhs) s s₂)
    (hsome : t.conversionFor scope lhs rhs = some kind) :
    ∃ s', CheckM.typeExpr (depth + 1) scope e s = .ok (t.typeIn scope e) s' ∧
      t.Annotates scope root (t.Reaches e) (t.reportsIn scope e) s s' := by
  have hview := hsides.annotated.view.classView scope
  have hkind := hsome
  rw [conversionFor, ← hview] at hkind
  have hrun := typeExpr_of_assignmentType hroot he hdata hdata' hlhs hrhs hsides
    (CheckM.assignmentType_of_some hkind)
  obtain ⟨-, -, hconverts, -, hlegal⟩ := Ty.insertedConversion?_eq_some.mp hsome
  refine ⟨_, hrun, annotates_assignment hroot he hdata ?_⟩
  rw [CheckM.assignmentReports_eq_nil (hconverts ▸ hlegal), List.append_nil]
  exact hsides.insert hroot he (not_reaches_of_assignment hroot he hdata) hdata hsome
    (by rw [hdata']; rfl) rfl rfl (hsides.start.view_of_typeExpr hrun)

end

/-- What is no expression has no type, and there is nothing to do for it. -/
theorem Annotated.typeExpr_other (h : t.Annotated scope root s.tree) (hroot : t.AcyclicBelow root)
    (he : t.Reaches root e) (hother : (t.data e).expressionType? = none)
    (hdata : s.tree.data e = t.data e) (depth : Nat) :
    ∃ s', CheckM.typeExpr (depth + 1) scope e s = .ok (t.typeIn scope e) s' ∧
      t.Annotates scope root (t.Reaches e) (t.reportsIn scope e) s s' := by
  have hnone : t.below e = [] ∧ t.partsOf e = [] ∧
      t.judged scope (t.typeIn scope) e = (.undefined, []) ∧
      CheckM.typeExpr (depth + 1) scope e s = .ok .undefined s := by
    rw [below, partsOf, judged, CheckM.typeExpr,
      bind_of_ok (show CheckM.tree s = .ok s.tree s from rfl), hdata]
    revert hother
    cases t.data e with
    | expression form ty =>
      intro hother
      cases hother
    | _ => exact fun _ => ⟨rfl, rfl, rfl, rfl⟩
  obtain ⟨hbelow, hparts, hjudged, hrun⟩ := hnone
  have hacyclic := hroot.of_reaches he
  have htype : t.typeIn scope e = .undefined := by rw [typeIn_eq hacyclic, hjudged]
  have hfinished : t.Finished scope s.tree e := by
    refine ⟨by rw [typeAt, hdata, hother, htype]; rfl, fun op lhs rhs stored ha => ?_⟩
    rw [ha] at hother
    cases hother
  rw [htype, reportsIn_eq hacyclic, hjudged, hparts]
  refine ⟨s, hrun, (Annotates.refl h).widen (fun _ hb => hb.elim) (fun b hb => he.trans hb)
    fun b hb => .inr ?_⟩
  rcases ReflTransGen.cases_head hb with rfl | ⟨c, hc, -⟩
  · exact hfinished
  · rw [Contains, hbelow] at hc
    cases hc

namespace TypesWithin

variable {n depth : Nat} (h : t.TypesWithin scope root n) (hroot : t.AcyclicBelow root)
include h hroot

/-- Expressions below a root are typed one after the other, with all their reports. -/
theorem typesAll (hdepth : 2 * n ≤ depth) {cs : List NodeId}
    (hcs : ∀ c ∈ cs, t.Shallow n c ∧ t.Reaches root c) (hs : t.Annotated scope root s.tree) :
    ∃ s', CheckM.TypesAll (CheckM.typeExpr depth scope) (t.typeIn scope) cs s s' ∧
      t.Annotates scope root (fun b => ∃ c ∈ cs, t.Reaches c b) (cs.flatMap (t.reportsIn scope))
        s s' := by
  induction cs generalizing s with
  | nil => exact ⟨s, .nil s, (Annotates.refl hs).widen (fun _ hb => hb.elim) (by simp) (by simp)⟩
  | cons c cs ih =>
    obtain ⟨⟨hshallow, hc⟩, hcs⟩ := List.forall_mem_cons.mp hcs
    obtain ⟨s₁, hrun, hfirst⟩ := h hshallow hc hdepth hs
    obtain ⟨s₂, hruns, hrest⟩ := ih hcs hfirst.annotated
    have hdone : (fun b => ∃ d ∈ c :: cs, t.Reaches d b) =
        fun b => t.Reaches c b ∨ ∃ d ∈ cs, t.Reaches d b := funext fun b => by simp
    rw [hdone, List.flatMap_cons]
    exact ⟨s₂, .cons hrun hruns, hfirst.trans hrest hroot⟩

/-- An expression that is no assignment is typed after those below it. -/
theorem form (hshallow : t.Shallow (n + 1) e) (he : t.Reaches root e) (hdepth : 2 * n ≤ depth)
    (hs : t.Annotated scope root s.tree) {form : Expression} {stored stored' : Ty}
    (hdata : t.data e = .expression form stored)
    (hdata' : s.tree.data e = .expression form stored')
    (hstored : ∀ x kind, form = .conversion x kind → stored' = stored)
    (hform : ∀ op lhs rhs, form ≠ .assignment op lhs rhs) :
    ∃ s', CheckM.typeExpr (depth + 1) scope e s = .ok (t.typeIn scope e) s' ∧
      t.Annotates scope root (t.Reaches e) (t.reportsIn scope e) s s' := by
  have hparts : ∀ c ∈ t.partsOf e, t.Shallow n c ∧ t.Reaches root c := fun c hc => by
    obtain ⟨d, hd, hreaches⟩ := exists_reaches_of_mem_partsOf hc
    exact ⟨hshallow.of_mem_partsOf hc, (he.tail hd).trans hreaches⟩
  obtain ⟨s₁, hall, hbelow⟩ := h.typesAll hroot hdepth hparts hs
  obtain ⟨ty, ds, hsettles⟩ :=
    CheckM.formType_settled (t.typeIn scope) scope e (t.line e) stored hform t
  have hjudged : t.judged scope (t.typeIn scope) e = (ty, ds) := by
    rw [judged, hdata]
    exact CheckM.outcome_of_ok (hsettles _ (.refl t)) rfl
  have hty : t.typeIn scope e = ty := by rw [typeIn_eq (hroot.of_reaches he), hjudged]
  have hrun : CheckM.formType (CheckM.typeExpr depth scope) scope e (s.tree.line e) stored' form s =
      .ok ty { s₁ with diagnostics := ds.foldl Diagnostics.report s₁.diagnostics } := by
    rw [CheckM.formType_of_stored hstored, hs.line e he,
      CheckM.TypesAll.formType (hs.typedParts hroot he hdata ▸ hall)]
    exact hsettles s₁ hbelow.annotated.view
  have htyped := CheckM.typeExpr_of_formType hdata' hrun
  rw [← hty] at htyped
  refine ⟨_, htyped, ?_⟩
  have hnot : ¬ ∃ c ∈ t.partsOf e, t.Reaches c e := by
    rintro ⟨c, hc, hreaches⟩
    obtain ⟨d, hd, hdc⟩ := exists_reaches_of_mem_partsOf hc
    exact hroot.acyclic e he (.head' hd (hdc.trans hreaches))
  have hother : ∀ op lhs rhs stored, t.data e ≠ .expression (.assignment op lhs rhs) stored := by
    intro op lhs rhs _ hassignment
    exact hform op lhs rhs (NodeData.expression.inj (hdata.symm.trans hassignment)).1
  have hstored := hbelow.store hroot he hnot ⟨form, stored, hdata⟩
    (fun op lhs rhs _ hassignment => absurd hassignment (hother op lhs rhs _))
    (show _ = ds.foldl Diagnostics.report s₁.diagnostics from rfl) rfl (hs.view_of_typeExpr htyped)
  rw [reportsIn_eq (hroot.of_reaches he), hjudged]
  refine hstored.widen (fun b hb => ?_) (fun b hb => he.trans hb) fun b hb => ?_
  · rcases hb with ⟨c, hc, hb⟩ | rfl
    · obtain ⟨d, hd, hdc⟩ := exists_reaches_of_mem_partsOf hc
      exact .head hd (hdc.trans hb)
    · exact .refl
  · rcases Reaches.cases_partsOf hb with rfl | hb | hconversion
    · exact .inl (.inr rfl)
    · exact .inl (.inl hb)
    · exact .inr (hstored.annotated.finished_of_conversion hroot (he.trans hb) hconversion)

/-- The conversion around the value of an assignment is typed by typing the value. -/
theorem wrapped {rhs value : NodeId} {kind : ConversionKind} {target : Ty} (ha : t.Reaches root a)
    (hrhs : t.Contains a rhs) (hshallow : t.Shallow n rhs) (hdepth : 2 * n ≤ depth)
    (hs : t.Annotated scope root s.tree) (hvalue : t.size ≤ value)
    (hdata : s.tree.data value = .expression (.conversion rhs kind) target) :
    ∃ s', CheckM.typeExpr (depth + 1) scope value s = .ok target s' ∧
      t.Annotates scope root (t.Reaches rhs) (t.reportsIn scope rhs) s s' := by
  have hreached : t.Reaches root rhs := ha.tail hrhs
  have hunder := reaches_underConversionsWithin t t.size rhs
  obtain ⟨s₁, hrun, hbelow⟩ :=
    h (hshallow.of_reaches hunder) (hreached.trans hunder) hdepth hs
  have hparts : CheckM.typedParts s.tree (.conversion rhs kind) = [CheckM.underConversions t rhs] :=
    congrArg (fun z => [z]) (hs.underConversions hroot ha hrhs)
  have hall : CheckM.TypesAll (CheckM.typeExpr depth scope) (t.typeIn scope)
      (CheckM.typedParts s.tree (.conversion rhs kind)) s s₁ := by
    rw [hparts]
    exact .cons hrun (.nil s₁)
  have hform : CheckM.formType (CheckM.typeExpr depth scope) scope value (s.tree.line value) target
      (.conversion rhs kind) s = .ok target s₁ := hall.formType
  have hnot : ¬ t.Reaches (CheckM.underConversions t rhs) value := fun hreaches =>
    Nat.not_lt_of_le hvalue (hroot.lt_size value (hbelow.reached value hreaches))
  have hkept : s₁.tree.data value = .expression (.conversion rhs kind) target :=
    (data_congr (hbelow.others value (lt_of_data (by simp [hdata])) hnot)).trans hdata
  have hstate : (s₁.update value fun d => d.withExpressionType target) = s₁ := by
    rw [CheckState.update, update_eq_self (by rw [hkept]; rfl)]
  refine ⟨s₁, (CheckM.typeExpr_of_formType hdata hform).trans (by rw [hstate]), ?_⟩
  have hshallow' : t.Shallow t.size rhs := (hroot.of_reaches ha).shallow rhs hrhs
  rw [← reportsIn_underConversions (hroot.of_reaches hreached) scope hshallow']
  refine hbelow.widen (fun b hb => hunder.trans hb) (fun b hb => hreached.trans hb) fun b hb => ?_
  exact (Reaches.underConversionsWithin hb t.size).imp_right
    (hbelow.annotated.finished_of_conversion hroot (hreached.trans hb))

/-- An assignment is typed after its sides, and gets a conversion if it needs one and has none. -/
theorem assignment {op : AssignOp} {lhs rhs : NodeId} {stored : Ty}
    (hshallow : t.Shallow (n + 1) e) (he : t.Reaches root e) (hdepth : 2 * n + 1 ≤ depth)
    (hs : t.Annotated scope root s.tree)
    (hdata : t.data e = .expression (.assignment op lhs rhs) stored) :
    ∃ s', CheckM.typeExpr (depth + 1) scope e s = .ok (t.typeIn scope e) s' ∧
      t.Annotates scope root (t.Reaches e) (t.reportsIn scope e) s s' := by
  have hbelow : t.below e = [lhs, rhs] := below_of_data hdata
  have hlhs : t.Contains e lhs := by simp [Contains, hbelow]
  have hrhs : t.Contains e rhs := by simp [Contains, hbelow]
  obtain ⟨s₁, hleftRun, hleft⟩ :=
    h (hshallow lhs hlhs) (he.tail hlhs) (Nat.le_of_succ_le hdepth) hs
  have hrefilled := hs.data e he
  rw [hdata] at hrefilled
  generalize hdata' : s.tree.data e = d at hrefilled
  cases hrefilled with
  | other hd => cases hd
  | typed =>
    obtain ⟨s₂, hrightRun, hright⟩ :=
      h (hshallow rhs hrhs) (he.tail hrhs) (Nat.le_of_succ_le hdepth) hleft.annotated
    have hsides := hleft.trans hright hroot
    cases hkind : t.conversionFor scope lhs rhs with
    | none =>
      exact typeExpr_assignment_of_none hroot he hdata hdata' hleftRun hrightRun hsides hkind rfl
        fun _ => hkind
    | some kind =>
      exact typeExpr_assignment_of_some hroot he hdata hdata' hleftRun hrightRun hsides hkind
  | @wrapped _ _ _ value kind _ _ hvalue hkind hconversion =>
    obtain ⟨depth, rfl⟩ : ∃ d, depth = d + 1 := Nat.exists_eq_add_one.mpr (by omega)
    have hnot : ¬ t.Reaches lhs value := fun hreaches =>
      Nat.not_lt_of_le hvalue (hroot.lt_size value (hleft.reached value hreaches))
    have hconversion₁ : s₁.tree.data value =
        .expression (.conversion rhs kind) (t.typeIn scope lhs) :=
      (data_congr (hleft.others value (lt_of_data (by simp [hconversion])) hnot)).trans hconversion
    obtain ⟨s₂, hrightRun, hright⟩ := h.wrapped hroot he hrhs (hshallow rhs hrhs)
      (Nat.le_of_succ_le_succ hdepth) hleft.annotated hvalue hconversion₁
    obtain ⟨-, -, hconverts, -, hlegal⟩ := Ty.insertedConversion?_eq_some.mp hkind
    refine typeExpr_assignment_of_none hroot he hdata hdata' hleftRun hrightRun
      (hleft.trans hright hroot) (Ty.insertedConversion?_self _ _) ?_ fun hbare => ?_
    · rw [CheckM.assignmentReports_eq_nil (by simp [Ty.conversionTo_self]),
        CheckM.assignmentReports_eq_nil (hconverts ▸ hlegal)]
    · subst hbare
      exact absurd (hroot.lt_size value (he.tail hrhs)) (Nat.not_lt_of_le hvalue)

end TypesWithin

/-- At all states that typing may be in, an expression gets the type and the reports that the tree
at the beginning gives. -/
theorem typesWithin (hroot : t.AcyclicBelow root) (scope : NodeId) (n : Nat) :
    t.TypesWithin scope root n := by
  induction n with
  | zero => exact fun _ _ _ hshallow => hshallow.elim
  | succ n ih =>
    intro e depth s hshallow he hdepth hs
    obtain ⟨depth, rfl⟩ : ∃ d, depth = d + 1 := Nat.exists_eq_add_one.mpr (by omega)
    have hrefilled := hs.data e he
    generalize hdata : t.data e = d, hdata' : s.tree.data e = d' at hrefilled
    cases hrefilled with
    | wrapped => exact ih.assignment hroot hshallow he (by omega) hs hdata
    | @typed form stored stored' hstored =>
      by_cases hassigns : ∃ op lhs rhs, form = .assignment op lhs rhs
      · obtain ⟨op, lhs, rhs, rfl⟩ := hassigns
        exact ih.assignment hroot hshallow he (by omega) hs hdata
      · exact ih.form hroot hshallow he (by omega) hs hdata hdata' hstored
          fun op lhs rhs hform => hassigns ⟨op, lhs, rhs, hform⟩
    | other hd => exact hs.typeExpr_other hroot he (hdata ▸ hd) (hdata'.trans hdata.symm) depth

/-- After everything is done an assignment has its value, or the one conversion that it needs around
it. If the value can be converted, what it has then is directly assignable. -/
theorem Annotated.assignment (h : t.Annotated scope root t') (hroot : t.AcyclicBelow root)
    (hfinished : ∀ b, t.Reaches root b → t.Finished scope t' b) (ha : t.Reaches root a)
    {op : AssignOp} {lhs rhs : NodeId} {stored : Ty}
    (hdata : t.data a = .expression (.assignment op lhs rhs) stored) :
    ∃ rhs', t'.data a = .expression (.assignment op lhs rhs') (t'.typeAt lhs) ∧
      (rhs' = rhs ∨ t.size ≤ rhs' ∧
        ∃ kind, t'.data rhs' = .expression (.conversion rhs kind) (t'.typeAt lhs)) ∧
      (t'.typeAt lhs ≠ .undefined → t'.typeAt rhs ≠ .undefined →
        (t'.typeAt rhs).conversionTo (t'.classView scope) (t'.typeAt lhs) ≠ .illegal →
        (t'.typeAt rhs').conversionTo (t'.classView scope) (t'.typeAt lhs) =
          .directAssignable) := by
  have hbelow : t.below a = [lhs, rhs] := below_of_data hdata
  have hlhs := (hfinished lhs (ha.tail (show t.Contains a lhs by simp [Contains, hbelow]))).type
  have hrhs := (hfinished rhs (ha.tail (show t.Contains a rhs by simp [Contains, hbelow]))).type
  have hfinished := hfinished a ha
  have htype : t'.typeAt a = t'.typeAt lhs := by
    rw [hfinished.type, hlhs, (typeIn_assignment hroot ha hdata scope).1]
  have hrefilled := h.data a ha
  rw [hdata] at hrefilled
  generalize hdata' : t'.data a = d at hrefilled
  cases hrefilled with
  | other hd => cases hd
  | @typed _ _ stored' =>
    obtain rfl : stored' = t'.typeAt lhs := by rw [← htype, typeAt, hdata']; rfl
    refine ⟨rhs, rfl, .inl rfl, fun htarget hvalue hlegal => ?_⟩
    have hnone := hfinished.assigned op lhs rhs stored hdata (by rw [hdata']; rfl)
    rw [conversionFor, ← hlhs, ← hrhs, ← h.view.classView] at hnone
    by_contra hdirect
    have hsome := Ty.insertedConversion?_eq_some.mpr ⟨hvalue, htarget, rfl, hdirect, hlegal⟩
    rw [hnone] at hsome
    cases hsome
  | @wrapped _ _ _ value kind _ stored' hvalue hkind hconversion =>
    obtain rfl : stored' = t'.typeAt lhs := by rw [← htype, typeAt, hdata']; rfl
    rw [← hlhs] at hconversion
    refine ⟨value, rfl, .inr ⟨hvalue, kind, hconversion⟩, fun _ _ _ => ?_⟩
    have htyped : t'.typeAt value = t'.typeAt lhs := by rw [typeAt, hconversion]; rfl
    rw [htyped, Ty.conversionTo_self]

end Tree

namespace CheckM

/-- An expression gets the type and the reports that the tree gives. -/
theorem typeExpr_annotates (h : s.tree.AcyclicBelow e) (scope : NodeId) {depth : Nat}
    (hdepth : nestingLimit s.tree.size ≤ depth) :
    ∃ s', typeExpr depth scope e s = .ok (s.tree.typeIn scope e) s' ∧
      s.tree.Annotates scope e (s.tree.Reaches e) (s.tree.reportsIn scope e) s s' := by
  rw [nestingLimit] at hdepth
  exact Tree.typesWithin h scope _ h.shallow .refl (by omega) (.refl s.tree scope e)

/-- **Typing is idempotent.** Take an expression below which nothing is below itself, whatever its
parts share. It can be typed. When it is typed again in the tree that this leaves, it has the same
type and the same reports in the same order, and no node is changed or added. Each node added the
first time is the conversion of one assignment, which is around the value that the assignment had.
Where the value of an assignment can be converted, what the assignment has in the end is directly
assignable. -/
theorem typeExpr_idempotent (h : s.tree.AcyclicBelow e) (scope : NodeId) {depth : Nat}
    (hdepth : nestingLimit s.tree.size ≤ depth) :
    ∃ (ty : Ty) (ds : List Diagnostic) (s₁ : CheckState), typeExpr depth scope e s = .ok ty s₁ ∧
      s₁.diagnostics = ds.foldl Diagnostics.report s.diagnostics ∧
      (∀ depth', nestingLimit s.tree.size ≤ depth' → typeExpr depth' scope e s₁ =
        .ok ty { s₁ with diagnostics := ds.foldl Diagnostics.report s₁.diagnostics }) ∧
      (∀ c, s.tree.size ≤ c → c < s₁.tree.size →
        ∃! a, s.tree.Reaches e a ∧ (s₁.tree.data a).assigned? = some c) ∧
      ∀ a op lhs rhs stored, s.tree.Reaches e a →
        s.tree.data a = .expression (.assignment op lhs rhs) stored →
        ∃ rhs', s₁.tree.data a = .expression (.assignment op lhs rhs') (s₁.tree.typeAt lhs) ∧
          (rhs' = rhs ∨ s.tree.size ≤ rhs' ∧
            ∃ kind, s₁.tree.data rhs' = .expression (.conversion rhs kind) (s₁.tree.typeAt lhs)) ∧
          (s₁.tree.typeAt lhs ≠ .undefined → s₁.tree.typeAt rhs ≠ .undefined →
            (s₁.tree.typeAt rhs).conversionTo (s₁.tree.classView scope) (s₁.tree.typeAt lhs) ≠
              .illegal →
            (s₁.tree.typeAt rhs').conversionTo (s₁.tree.classView scope) (s₁.tree.typeAt lhs) =
              .directAssignable) := by
  obtain ⟨s₁, hrun, hfirst⟩ := typeExpr_annotates h scope hdepth
  refine ⟨_, _, s₁, hrun, hfirst.reports, fun depth' hdepth' => ?_, hfirst.annotated.new,
    fun a op lhs rhs stored ha hdata => hfirst.annotated.assignment h hfirst.finished ha hdata⟩
  rw [nestingLimit] at hdepth'
  obtain ⟨s₂, hrun', hagain⟩ :=
    Tree.typesWithin h scope _ h.shallow .refl (show 2 * (s.tree.size + 1) ≤ depth' by omega)
      hfirst.annotated
  have htree := hagain.still hfirst.finished
  obtain ⟨tree₂, diagnostics₂⟩ := s₂
  obtain rfl : tree₂ = s₁.tree := htree
  rw [hrun']
  exact congrArg (fun ds => EStateM.Result.ok _ { s₁ with diagnostics := ds }) hagain.reports

end CheckM

/-- A block with a real `R` and an integer `I`, and the expression `R := I and R := I` in which both
operands are one node. -/
def sharedAssignment : CheckState where
  tree := { nodes := #[
    ⟨1, .declaration "MAIN" none (.block { declarations := ⟨#[("R", 1), ("I", 2)]⟩ })⟩,
    ⟨2, .declaration "R" (some 0) (.simpleVariable .real none)⟩,
    ⟨2, .declaration "I" (some 0) (.simpleVariable .integer none)⟩,
    ⟨3, .expression (.nameUse "R" []) .undefined⟩,
    ⟨3, .expression (.nameUse "I" []) .undefined⟩,
    ⟨3, .expression (.assignment .value 3 4) .undefined⟩,
    ⟨3, .expression (.binary .and 5 5) .undefined⟩] }

/-- The shared assignment is met twice and gets one conversion. The operation is reported once in
each of two runs. -/
theorem CheckM.typeExpr_idempotent_sharedAssignment :
    ∃ s₁, typeExpr 24 0 6 sharedAssignment = .ok .boolean s₁ ∧
      s₁.diagnostics.entries.toList = [(Finding.incompatibleTypes .real .real).onLine 3] ∧
      s₁.tree.size = 8 ∧ s₁.tree.data 5 = .expression (.assignment .value 3 7) .real ∧
      s₁.tree.data 7 = .expression (.conversion 4 .convertValue) .real ∧
      ∃ s₂, typeExpr 24 0 6 s₁ = .ok .boolean s₂ ∧ s₂.tree = s₁.tree ∧
        s₂.diagnostics.entries.toList = [(Finding.incompatibleTypes .real .real).onLine 3,
          (Finding.incompatibleTypes .real .real).onLine 3] := by
  have hacyclic : sharedAssignment.tree.AcyclicBelow 6 :=
    Tree.acyclicBelow_of_lt (by decide) (by decide)
  obtain ⟨ty, ds, s₁, hrun, hreports, hagain, -, -⟩ :=
    typeExpr_idempotent hacyclic 0 (show nestingLimit 7 ≤ 24 by decide)
  have htest : succeedsWith (typeExpr 24 0 6) sharedAssignment (fun ty s₁ => ty = .boolean ∧
      s₁.diagnostics.entries.toList = [(Finding.incompatibleTypes .real .real).onLine 3] ∧
      s₁.tree.size = 8 ∧ s₁.tree.data 5 = .expression (.assignment .value 3 7) .real ∧
      s₁.tree.data 7 = .expression (.conversion 4 .convertValue) .real) = true := by
    decide +kernel
  obtain ⟨ty', s₁', hrun', htest⟩ := exists_of_succeedsWith htest
  rw [hrun] at hrun'
  cases hrun'
  obtain ⟨rfl, hentries, hsize, hassignment, hconversion⟩ := of_decide_eq_true htest
  have hds : ds = [(Finding.incompatibleTypes .real .real).onLine 3] := by
    have hfirst := congrArg (·.entries.toList) hreports
    simpa [Diagnostics.entries_foldl_report, hentries, sharedAssignment] using hfirst.symm
  refine ⟨s₁, hrun, hentries, hsize, hassignment, hconversion, _, hagain 24 (by decide), rfl, ?_⟩
  rw [Diagnostics.entries_foldl_report, hentries, hds]
  rfl

end Simula
