import Simula.Proofs.Check.ExpressionGraphs
import Simula.Proofs.Check.OperandTypes

/-!
# What typing leaves behind

Typing changes the expressions that it goes through: it records types, and it puts conversions
around the values of assignments. Here it is told what a tree looks like in which some of these
changes have been made, and what each step of typing adds to them. The types of conversions and the
forms of all other expressions stay, an assignment gets one conversion at most, and each new node is
the conversion of one assignment.
-/

namespace Simula

open Relation

variable {t t₁ t' : Tree} {scope root a b c e : NodeId} {s s₁ s₂ s' : CheckState}

/-! ## Changes that are none -/

/-- A change that changes nothing leaves the tree. -/
theorem Tree.update_eq_self {f : NodeData → NodeData} (h : f (t.data e) = t.data e) :
    t.update e f = t := by
  have hnodes : (t.update e f).nodes = t.nodes := by
    refine Array.ext_getElem? fun i => ?_
    rw [nodes_update]
    split
    · next hi =>
      subst hi
      by_cases hlt : e < t.size
      · rw [node_eq hlt, Option.map_some, h]
      · rw [Array.getElem?_eq_none (Nat.le_of_not_lt hlt), Option.map_none]
    · rfl
  obtain ⟨nodes, rule⟩ := t
  exact congrArg (Tree.mk · rule) hnodes

/-! ## Assignments -/

/-- The conversion that an assignment gets around its value, by the types of its sides. -/
def Ty.insertedConversion? (classes : ClassView) (value target : Ty) : Option ConversionKind :=
  if value.isUndefined || target.isUndefined then Option.none
  else
    match value.conversionTo classes target with
    | .directAssignable | .illegal => Option.none
    | kind => some kind

/-- An assignment gets a conversion if its value can be converted, but not directly assigned. -/
theorem Ty.insertedConversion?_eq_some {classes : ClassView} {value target : Ty}
    {kind : ConversionKind} : value.insertedConversion? classes target = some kind ↔
      value ≠ undefined ∧ target ≠ undefined ∧ value.conversionTo classes target = kind ∧
        kind ≠ .directAssignable ∧ kind ≠ .illegal := by
  by_cases hundefined : (value.isUndefined || target.isUndefined) = true
  · rw [insertedConversion?, if_pos hundefined]
    rw [Bool.or_eq_true, isUndefined_iff, isUndefined_iff] at hundefined
    refine iff_of_false nofun ?_
    rintro ⟨hvalue, htarget, -⟩
    exact hundefined.elim hvalue htarget
  · rw [insertedConversion?, if_neg hundefined]
    rw [Bool.or_eq_true, isUndefined_iff, isUndefined_iff, not_or] at hundefined
    cases value.conversionTo classes target <;> cases kind <;> simp [hundefined]

/-- A type is assigned to itself directly. -/
theorem Ty.conversionTo_self (classes : ClassView) (ty : Ty) :
    ty.conversionTo classes ty = .directAssignable := by
  simp [conversionTo]

/-- A value that has been converted is not converted again. -/
theorem Ty.insertedConversion?_self (classes : ClassView) (ty : Ty) :
    ty.insertedConversion? classes ty = Option.none := by
  refine Option.eq_none_iff_forall_ne_some.mpr fun kind hkind => ?_
  obtain ⟨-, -, hconverts, hdirect, -⟩ := insertedConversion?_eq_some.mp hkind
  exact hdirect (hconverts.symm.trans (conversionTo_self classes ty))

namespace CheckM

variable {op : AssignOp} {target value : Ty} {line : Nat} {rhs : NodeId} {kind : ConversionKind}

/-- An assignment without need of a conversion is only looked at. -/
theorem assignmentType_of_none
    (h : value.insertedConversion? (s.tree.classView scope) target = none) :
    assignmentType e op rhs target value scope line s =
      .ok target { s with
        diagnostics := (assignmentReports (s.tree.classView scope) op target value line).foldl
          Diagnostics.report s.diagnostics } := by
  unfold assignmentType assignmentReports
  dsimp only
  rw [Ty.insertedConversion?] at h
  split
  · rfl
  · next hdefined =>
    rw [if_neg hdefined] at h
    rw [bind_of_ok (show conversionIn scope value target s =
      .ok (value.conversionTo (s.tree.classView scope) target) s from rfl)]
    revert h
    cases value.conversionTo (s.tree.classView scope) target with
    | directAssignable => exact fun _ => rfl
    | convertValue | convertRef =>
      intro h
      cases h
    | illegal => cases op <;> exact fun _ => rfl

/-- An assignment in need of a conversion gets it without a report. -/
theorem assignmentType_of_some
    (h : value.insertedConversion? (s.tree.classView scope) target = some kind) :
    assignmentType e op rhs target value scope line s =
      .ok target { s with
        tree := (s.tree.push ⟨line, .expression (.conversion rhs kind) target⟩).update e
          (withAssigned s.tree.size) } := by
  unfold assignmentType
  dsimp only
  rw [Ty.insertedConversion?] at h
  split
  · next hundefined =>
    rw [if_pos hundefined] at h
    cases h
  · next hdefined =>
    rw [if_neg hdefined] at h
    rw [bind_of_ok (show conversionIn scope value target s =
      .ok (value.conversionTo (s.tree.classView scope) target) s from rfl)]
    revert h
    cases value.conversionTo (s.tree.classView scope) target with
    | convertValue | convertRef =>
      intro h
      cases h
      rfl
    | directAssignable | illegal =>
      intro h
      cases h

/-- Nothing is reported on an assignment whose value can be converted. -/
theorem assignmentReports_eq_nil {classes : ClassView}
    (h : value.conversionTo classes target ≠ .illegal) :
    assignmentReports classes op target value line = [] := by
  rw [assignmentReports, if_neg h, ite_self]

end CheckM

/-! ## Trees with types recorded -/

namespace Tree

/-- What is assigned is below the assignment. -/
theorem contains_of_assigned? (h : (t.data a).assigned? = some b) : t.Contains a b := by
  rw [Contains, below]
  revert h
  rcases t.data a with _ | _ | _ | _ | ⟨form, _⟩
  case expression =>
    cases form with
    | assignment op lhs rhs =>
      intro h
      simp [Expression.children, Option.some.inj h]
    | _ =>
      intro h
      cases h
  all_goals
    intro h
    cases h

/-- What is assigned below an expression without cycles is in the tree. -/
theorem AcyclicBelow.lt_of_assigned? (h : t.AcyclicBelow root) (ha : t.Reaches root a)
    (hc : (t.data a).assigned? = some c) : c < t.size :=
  h.lt_size c (ha.tail (contains_of_assigned? hc))

/-- The conversion that the assignment of one expression to another gets. -/
def conversionFor (t : Tree) (scope lhs rhs : NodeId) : Option ConversionKind :=
  (t.typeIn scope rhs).insertedConversion? (t.classView scope) (t.typeIn scope lhs)

/-- How the content of a node may have changed by typing. An expression may have another type,
unless it is a conversion, and an assignment may have its conversion, which is a new node. -/
inductive Refilled (t : Tree) (scope : NodeId) (t' : Tree) : NodeData → NodeData → Prop
  | other {d : NodeData} (h : d.expressionType? = none) : Refilled t scope t' d d
  | typed {form : Expression} {stored stored' : Ty}
    (h : ∀ x kind, form = .conversion x kind → stored' = stored) :
    Refilled t scope t' (.expression form stored) (.expression form stored')
  | wrapped {op : AssignOp} {lhs rhs value : NodeId} {kind : ConversionKind} {stored stored' : Ty}
    (hvalue : t.size ≤ value) (hkind : t.conversionFor scope lhs rhs = some kind)
    (hdata : t'.data value = .expression (.conversion rhs kind) (t.typeIn scope lhs)) :
    Refilled t scope t' (.expression (.assignment op lhs rhs) stored)
      (.expression (.assignment op lhs value) stored')

namespace Refilled

variable {d d' : NodeData}

/-- Typing may leave a node as it is. -/
theorem refl (t : Tree) (scope : NodeId) (t' : Tree) (d : NodeData) : t.Refilled scope t' d d := by
  cases d with
  | expression form ty => exact .typed fun _ _ _ => rfl
  | _ => exact .other rfl

/-- A change stays one where new nodes stay. -/
theorem mono (h : t.Refilled scope t₁ d d')
    (hnew : ∀ c, t.size ≤ c → t₁.data c ≠ .pending → t'.data c = t₁.data c) :
    t.Refilled scope t' d d' := by
  cases h with
  | other h => exact .other h
  | typed h => exact .typed h
  | wrapped hvalue hkind hdata =>
    exact .wrapped hvalue hkind ((hnew _ hvalue (by simp [hdata])).trans hdata)

/-- Typing changes no conversion. -/
theorem converted? (h : t.Refilled scope t' d d') : d'.converted? = d.converted? := by
  cases h with
  | other => rfl
  | @typed form => cases form <;> rfl
  | wrapped => rfl

/-- An assignment assigns what it did, or a new node. -/
theorem assigned? (h : t.Refilled scope t' d d') :
    d'.assigned? = d.assigned? ∨ ∃ value, d'.assigned? = some value ∧ t.size ≤ value ∧
      value < t'.size := by
  cases h with
  | other => exact .inl rfl
  | @typed form => cases form <;> exact .inl rfl
  | wrapped hvalue _ hdata => exact .inr ⟨_, rfl, hvalue, lt_of_data (by simp [hdata])⟩

/-- Recording the type that an expression has is such a change. -/
theorem withExpressionType (h : t.Refilled scope t' (t.data e) d') (he : t.AcyclicBelow e) :
    t.Refilled scope t' (t.data e) (d'.withExpressionType (t.typeIn scope e)) := by
  generalize hdata : t.data e = d at h
  cases h with
  | other h =>
    cases d' with
    | expression form ty => cases h
    | _ => exact .other rfl
  | typed h =>
    refine .typed fun x kind hform => ?_
    subst hform
    exact typeIn_of_conversion he scope hdata
  | wrapped hvalue hkind hconversion => exact .wrapped hvalue hkind hconversion

end Refilled

/-- The second tree comes from the first by typing what is below an expression, as a whole or in
part: nodes have changed in the ways in which typing changes them, and each new node is the
conversion of one assignment. -/
structure Annotated (t : Tree) (scope root : NodeId) (t' : Tree) : Prop where
  view : t.SameView t'
  size_le : t.size ≤ t'.size
  line : ∀ b, t.Reaches root b → t'.line b = t.line b
  data : ∀ b, t.Reaches root b → t.Refilled scope t' (t.data b) (t'.data b)
  new : ∀ c, t.size ≤ c → c < t'.size →
    ∃! a, t.Reaches root a ∧ (t'.data a).assigned? = some c

/-- All that typing does to a node has been done: it has its type, and a conversion if it needs
one. -/
structure Finished (t : Tree) (scope : NodeId) (t' : Tree) (b : NodeId) : Prop where
  type : t'.typeAt b = t.typeIn scope b
  assigned : ∀ op lhs rhs stored, t.data b = .expression (.assignment op lhs rhs) stored →
    (t'.data b).assigned? = some rhs → t.conversionFor scope lhs rhs = none

/-- Whether a node is finished depends on the node only. -/
theorem Finished.congr (h : t.Finished scope t₁ b) (hnode : t'.nodes[b]? = t₁.nodes[b]?) :
    t.Finished scope t' b where
  type := (typeAt_congr hnode).trans h.type
  assigned := data_congr hnode ▸ h.assigned

namespace Annotated

/-- A tree is annotated in part by leaving it alone. -/
theorem refl (t : Tree) (scope root : NodeId) : t.Annotated scope root t where
  view := .refl t
  size_le := Nat.le_refl _
  line _ _ := rfl
  data b _ := .refl t scope t (t.data b)
  new _ hc hlt := absurd hlt (Nat.not_lt_of_le hc)

variable (h : t.Annotated scope root t₁) (hroot : t.AcyclicBelow root)
include h

/-- There is nothing to do for a conversion. -/
theorem finished_of_conversion (hroot : t.AcyclicBelow root) (hb : t.Reaches root b)
    (hc : (t.data b).converted?.isSome) : t.Finished scope t₁ b := by
  obtain ⟨x, hx⟩ := Option.isSome_iff_exists.mp hc
  obtain ⟨kind, ty, hdata⟩ := NodeData.converted?_eq_some hx
  have hrefilled := h.data b hb
  rw [hdata] at hrefilled
  refine ⟨?_, fun op lhs rhs stored hassignment => ?_⟩
  · rw [typeIn_of_conversion (hroot.of_reaches hb) scope hdata, typeAt]
    generalize t₁.data b = d at hrefilled
    cases hrefilled with
    | other hd => cases hd
    | typed hstored => rw [hstored x kind rfl]; rfl
  · rw [hdata] at hassignment
    cases hassignment

include hroot

/-- The same is under the conversions below an expression. -/
theorem underConversions (ha : t.Reaches root a) (hb : t.Contains a b) :
    CheckM.underConversions t₁ b = CheckM.underConversions t b := by
  have hshallow : t.Shallow t.size b := (hroot.of_reaches ha).shallow b hb
  refine hshallow.underConversionsWithin_eq (fun c hc => ?_) (Nat.le_refl _) h.size_le
  exact (h.data c ((ha.tail hb).trans hc)).converted?

/-- The parts of an expression stay the same under their conversions. -/
theorem typedParts {form : Expression} {ty : Ty} (he : t.Reaches root e)
    (hdata : t.data e = .expression form ty) :
    CheckM.typedParts t₁ form = t.partsOf e := by
  rw [partsOf_of_data hdata]
  cases form with
  | conversion x kind =>
    refine congrArg (fun z => [z]) (h.underConversions hroot he ?_)
    rw [Contains, below_of_data hdata]
    exact List.mem_singleton_self x
  | _ => rfl

/-- A new node is the conversion that an assignment needs. -/
theorem data_of_new (hc : t.size ≤ c) (hlt : c < t₁.size) :
    ∃ lhs rhs kind, t.conversionFor scope lhs rhs = some kind ∧
      t₁.data c = .expression (.conversion rhs kind) (t.typeIn scope lhs) := by
  obtain ⟨a, ⟨ha, hassigned⟩, -⟩ := h.new c hc hlt
  have hold : (t.data a).assigned? ≠ some c := fun hassigned =>
    Nat.not_lt_of_le hc (hroot.lt_of_assigned? ha hassigned)
  have hrefilled := h.data a ha
  generalize t.data a = d, t₁.data a = d' at hassigned hold hrefilled
  cases hrefilled with
  | other => exact absurd hassigned hold
  | @typed form => cases form <;> exact absurd hassigned hold
  | wrapped _ hkind hdata =>
    cases hassigned
    exact ⟨_, _, _, hkind, hdata⟩

/-- A change in one node and in new ones. -/
theorem step (he : t.Reaches root e) (hview : t.SameView t') (hsize : t₁.size ≤ t'.size)
    (hothers : ∀ b < t₁.size, b ≠ e → t'.nodes[b]? = t₁.nodes[b]?)
    (hline : t'.line e = t₁.line e) (hdata : t.Refilled scope t' (t.data e) (t'.data e))
    (hnew : ∀ c, t.size ≤ c → c < t'.size →
      ∃! a, t.Reaches root a ∧ (t'.data a).assigned? = some c) :
    t.Annotated scope root t' where
  view := hview
  size_le := Nat.le_trans h.size_le hsize
  line b hb := by
    by_cases hbe : b = e
    · rw [hbe, hline, h.line e he]
    · rw [← h.line b hb, Tree.line, Tree.line,
        hothers b (Nat.lt_of_lt_of_le (hroot.lt_size b hb) h.size_le) hbe]
  data b hb := by
    by_cases hbe : b = e
    · rw [hbe]
      exact hdata
    · have hlt := Nat.lt_of_lt_of_le (hroot.lt_size b hb) h.size_le
      rw [data_congr (hothers b hlt hbe)]
      refine (h.data b hb).mono fun c hc hpending => ?_
      exact data_congr (hothers c (lt_of_data hpending)
        (Nat.ne_of_gt (Nat.lt_of_lt_of_le (hroot.lt_size e he) hc)))
  new := hnew

/-- An assignment that still has its value is as it was but for its type. -/
theorem data_of_assigned? {op : AssignOp} {lhs rhs : NodeId} {stored : Ty} (he : t.Reaches root e)
    (hdata : t.data e = .expression (.assignment op lhs rhs) stored)
    (hassigned : (t₁.data e).assigned? = some rhs) :
    ∃ ty, t₁.data e = .expression (.assignment op lhs rhs) ty := by
  have hrhs : rhs < t.size := hroot.lt_of_assigned? he (by rw [hdata]; rfl)
  have hrefilled := h.data e he
  rw [hdata] at hrefilled
  generalize t₁.data e = d at hrefilled hassigned
  cases hrefilled with
  | other hd => cases hd
  | typed => exact ⟨_, rfl⟩
  | wrapped hvalue =>
    obtain rfl := Option.some.inj hassigned
    exact absurd hrhs (Nat.not_lt_of_le hvalue)

/-- Nothing assigns a node that is not there. -/
theorem assigned?_ne_size (ha : t.Reaches root a) : (t₁.data a).assigned? ≠ some t₁.size := by
  intro hassigned
  rcases (h.data a ha).assigned? with hsame | ⟨value, hvalue, -, hlt⟩
  · exact Nat.not_lt_of_le h.size_le (hroot.lt_of_assigned? ha (hsame ▸ hassigned))
  · rw [hvalue] at hassigned
    exact Nat.ne_of_lt hlt (Option.some.inj hassigned)

/-- One more node that an assignment has instead of its old value is the value of that assignment
only. -/
theorem new_of_insertion {rhs : NodeId} (he : t.Reaches root e)
    (hold : (t₁.data e).assigned? = some rhs) (hrhs : rhs < t.size) (hsize : t'.size = t₁.size + 1)
    (hself : (t'.data e).assigned? = some t₁.size)
    (hothers : ∀ b < t₁.size, b ≠ e → t'.nodes[b]? = t₁.nodes[b]?) (hc : t.size ≤ c)
    (hlt : c < t'.size) : ∃! a, t.Reaches root a ∧ (t'.data a).assigned? = some c := by
  have hsame : ∀ {a}, t.Reaches root a → a ≠ e →
      (t'.data a).assigned? = (t₁.data a).assigned? := by
    intro a ha hne
    rw [data_congr (hothers a (Nat.lt_of_lt_of_le (hroot.lt_size a ha) h.size_le) hne)]
  by_cases hcsize : c = t₁.size
  · subst hcsize
    refine ⟨e, ⟨he, hself⟩, fun a ha => ?_⟩
    by_contra hne
    exact h.assigned?_ne_size hroot ha.1 ((hsame ha.1 hne).symm.trans ha.2)
  · have hc₁ : c < t₁.size :=
      Nat.lt_of_le_of_ne (Nat.le_of_lt_succ (Nat.lt_of_lt_of_eq hlt hsize)) hcsize
    obtain ⟨a, ⟨ha, hac⟩, hunique⟩ := h.new c hc hc₁
    have hne : a ≠ e := by
      rintro rfl
      rw [hold] at hac
      exact Nat.not_lt_of_le hc (Option.some.inj hac ▸ hrhs)
    refine ⟨a, ⟨ha, (hsame ha hne).trans hac⟩, fun a' ha' => ?_⟩
    have hne' : a' ≠ e := by
      rintro rfl
      exact hcsize (Option.some.inj (ha'.2.symm.trans hself))
    exact hunique a' ⟨ha'.1, (hsame ha'.1 hne').symm.trans ha'.2⟩

end Annotated

/-- A state leads to another one by typing some nodes to the end, with some reports. Other nodes
stay as they are, and so does everything if there is nothing left to do. -/
structure Annotates (t : Tree) (scope root : NodeId) (done : NodeId → Prop) (ds : List Diagnostic)
    (s s' : CheckState) : Prop where
  reached : ∀ b, done b → t.Reaches root b
  start : t.Annotated scope root s.tree
  annotated : t.Annotated scope root s'.tree
  size_le : s.tree.size ≤ s'.tree.size
  reports : s'.diagnostics = ds.foldl Diagnostics.report s.diagnostics
  finished : ∀ b, done b → t.Finished scope s'.tree b
  others : ∀ b < s.tree.size, ¬ done b → s'.tree.nodes[b]? = s.tree.nodes[b]?
  still : (∀ b, done b → t.Finished scope s.tree b) → s'.tree = s.tree

namespace Annotates

variable {done done' : NodeId → Prop} {ds ds' : List Diagnostic}

/-- Nothing is done by doing nothing. -/
theorem refl (h : t.Annotated scope root s.tree) :
    t.Annotates scope root (fun _ => False) [] s s :=
  ⟨nofun, h, h, Nat.le_refl _, rfl, nofun, fun _ _ _ => rfl, fun _ => rfl⟩

/-- What has been done stays so. -/
theorem keeps (h : t.Annotates scope root done ds s s') (hb : b < s.tree.size)
    (hfinished : t.Finished scope s.tree b) : t.Finished scope s'.tree b := by
  by_cases hdone : done b
  · exact h.finished b hdone
  · exact hfinished.congr (h.others b hb hdone)

/-- What is done in two steps is what is done in either. -/
theorem trans (h : t.Annotates scope root done ds s s₁)
    (h' : t.Annotates scope root done' ds' s₁ s₂) (hroot : t.AcyclicBelow root) :
    t.Annotates scope root (fun b => done b ∨ done' b) (ds ++ ds') s s₂ where
  reached b hb := hb.elim (h.reached b) (h'.reached b)
  start := h.start
  annotated := h'.annotated
  size_le := Nat.le_trans h.size_le h'.size_le
  reports := by rw [h'.reports, h.reports, List.foldl_append]
  finished b hb := hb.elim (fun hb => h'.keeps (Nat.lt_of_lt_of_le
    (hroot.lt_size b (h.reached b hb)) h.annotated.size_le) (h.finished b hb)) (h'.finished b)
  others b hb hnot := by
    obtain ⟨hnot, hnot'⟩ := not_or.mp hnot
    rw [h'.others b (Nat.lt_of_lt_of_le hb h.size_le) hnot', h.others b hb hnot]
  still hall := by
    have hfirst := h.still fun b hb => hall b (.inl hb)
    rw [h'.still fun b hb => hfirst ▸ hall b (.inr hb), hfirst]

/-- More nodes are done if there is nothing to do for them. -/
theorem widen (h : t.Annotates scope root done ds s s') (hsub : ∀ b, done b → done' b)
    (hreached : ∀ b, done' b → t.Reaches root b)
    (hmore : ∀ b, done' b → done b ∨ t.Finished scope s'.tree b) :
    t.Annotates scope root done' ds s s' where
  reached := hreached
  start := h.start
  annotated := h.annotated
  size_le := h.size_le
  reports := h.reports
  finished b hb := (hmore b hb).elim (h.finished b) id
  others b hb hnot := h.others b hb fun hdone => hnot (hsub b hdone)
  still hall := h.still fun b hb => hall b (hsub b hb)

section

variable (h : t.Annotates scope root done ds s s₁) (hroot : t.AcyclicBelow root)
  (he : t.Reaches root e) (hnot : ¬ done e)
include h hroot he hnot

/-- The nodes below an expression are typed before it, and leave it as it is. -/
theorem node_eq : s₁.tree.nodes[e]? = s.tree.nodes[e]? :=
  h.others e (Nat.lt_of_lt_of_le (hroot.lt_size e he) h.start.size_le) hnot

/-- One more node is changed. -/
theorem step (hview : t.SameView s₂.tree) (hsize : s₁.tree.size ≤ s₂.tree.size)
    (hreports : s₂.diagnostics = ds'.foldl Diagnostics.report s₁.diagnostics)
    (hothers : ∀ b < s₁.tree.size, b ≠ e → s₂.tree.nodes[b]? = s₁.tree.nodes[b]?)
    (hline : s₂.tree.line e = s₁.tree.line e)
    (hdata : t.Refilled scope s₂.tree (t.data e) (s₂.tree.data e))
    (hnew : ∀ c, t.size ≤ c → c < s₂.tree.size →
      ∃! a, t.Reaches root a ∧ (s₂.tree.data a).assigned? = some c)
    (hfinished : t.Finished scope s₂.tree e)
    (hstill : t.Finished scope s₁.tree e → s₂.tree = s₁.tree) :
    t.Annotates scope root (fun b => done b ∨ b = e) (ds ++ ds') s s₂ where
  reached b hb := hb.elim (h.reached b) fun hbe => hbe ▸ he
  start := h.start
  annotated := h.annotated.step hroot he hview hsize hothers hline hdata hnew
  size_le := Nat.le_trans h.size_le hsize
  reports := by rw [hreports, h.reports, List.foldl_append]
  finished b hb := by
    by_cases hbe : b = e
    · rw [hbe]
      exact hfinished
    · have hdone := hb.resolve_right hbe
      have hlt := Nat.lt_of_lt_of_le (hroot.lt_size b (h.reached b hdone)) h.annotated.size_le
      exact (h.finished b hdone).congr (hothers b hlt hbe)
  others b hb hnot' := by
    obtain ⟨hdone, hbe⟩ := not_or.mp hnot'
    rw [hothers b (Nat.lt_of_lt_of_le hb h.size_le) hbe, h.others b hb hdone]
  still hall := by
    have hbefore := h.still fun b hb => hall b (.inl hb)
    rw [hstill ((hall e (.inr rfl)).congr (h.node_eq hroot he hnot)), hbefore]

/-- The type of an expression that gets no conversion is recorded. -/
theorem store (hexpression : ∃ form ty, t.data e = .expression form ty)
    (hassigned : ∀ op lhs rhs stored, t.data e = .expression (.assignment op lhs rhs) stored →
      (s.tree.data e).assigned? = some rhs → t.conversionFor scope lhs rhs = none)
    (hreports : s₂.diagnostics = ds'.foldl Diagnostics.report s₁.diagnostics)
    (htree : s₂.tree = s₁.tree.update e fun d => d.withExpressionType (t.typeIn scope e))
    (hview : t.SameView s₂.tree) :
    t.Annotates scope root (fun b => done b ∨ b = e) (ds ++ ds') s s₂ := by
  have hlt : e < s₁.tree.size := Nat.lt_of_lt_of_le (hroot.lt_size e he) h.annotated.size_le
  have hexpression₁ : ∃ form ty, s₁.tree.data e = .expression form ty := by
    obtain ⟨form, ty, hdata⟩ := hexpression
    have hrefilled := h.annotated.data e he
    rw [hdata] at hrefilled
    generalize s₁.tree.data e = d at hrefilled
    cases hrefilled with
    | other hd => cases hd
    | typed => exact ⟨_, _, rfl⟩
    | wrapped => exact ⟨_, _, rfl⟩
  obtain ⟨form, stored, hdata⟩ := hexpression₁
  have hassigned₂ : ∀ b, (s₂.tree.data b).assigned? = (s₁.tree.data b).assigned? := fun b => by
    rw [htree]
    exact view_update s₁.tree e (NodeData.assigned?_withExpressionType _) b
  have htype : s₂.tree.typeAt e = t.typeIn scope e := by
    rw [htree]
    exact typeAt_withExpressionType (show (s₁.tree.data e).expressionType? = some stored by
      rw [hdata]; rfl) _
  have hsize : s₂.tree.size = s₁.tree.size := by rw [htree, size_update]
  refine h.step hroot he hnot hview (Nat.le_of_eq hsize.symm) hreports (fun b _ hne => ?_) ?_ ?_
    (fun c hc hlt => ?_) ⟨htype, fun op lhs rhs stored ha hrhs => ?_⟩ fun hfinished => ?_
  · rw [htree, nodes_update_of_ne _ hne]
  · rw [htree, line_update]
  · have hnew : ∀ c, t.size ≤ c → s₁.tree.data c ≠ .pending → s₂.tree.data c = s₁.tree.data c :=
      fun c hc _ => by
        rw [htree, data_update_of_ne _ (Nat.ne_of_gt (Nat.lt_of_lt_of_le (hroot.lt_size e he) hc))]
    rw [show s₂.tree.data e = (s₁.tree.data e).withExpressionType (t.typeIn scope e) by
      rw [htree, data_update_self _ hlt]]
    exact ((h.annotated.data e he).mono hnew).withExpressionType (hroot.of_reaches he)
  · simpa only [hassigned₂] using h.annotated.new c hc (hsize ▸ hlt)
  · rw [hassigned₂, data_congr (h.node_eq hroot he hnot)] at hrhs
    exact hassigned op lhs rhs stored ha hrhs
  · rw [htree]
    refine update_eq_self ?_
    have hstored : stored = t.typeIn scope e := by
      rw [← hfinished.type, typeAt, hdata]
      rfl
    rw [hdata, ← hstored]
    rfl

/-- An assignment gets a conversion around its value, and its type is recorded. -/
theorem insert {op : AssignOp} {lhs rhs : NodeId} {stored : Ty} {kind : ConversionKind} {line : Nat}
    (hdata : t.data e = .expression (.assignment op lhs rhs) stored)
    (hkind : t.conversionFor scope lhs rhs = some kind)
    (hassigned : (s.tree.data e).assigned? = some rhs) (hreports : s₂.diagnostics = s₁.diagnostics)
    (htree : s₂.tree = ((s₁.tree.push ⟨line, .expression (.conversion rhs kind)
      (t.typeIn scope lhs)⟩).update e (CheckM.withAssigned s₁.tree.size)).update e
        fun d => d.withExpressionType (t.typeIn scope e))
    (hview : t.SameView s₂.tree) :
    t.Annotates scope root (fun b => done b ∨ b = e) ds s s₂ := by
  have hlt : e < s₁.tree.size := Nat.lt_of_lt_of_le (hroot.lt_size e he) h.annotated.size_le
  have hrhs : rhs < t.size := hroot.lt_of_assigned? he (by rw [hdata]; rfl)
  rw [← data_congr (h.node_eq hroot he hnot)] at hassigned
  obtain ⟨stored₁, hdata₁⟩ := h.annotated.data_of_assigned? hroot he hdata hassigned
  have hself : s₂.tree.data e =
      .expression (.assignment op lhs s₁.tree.size) (t.typeIn scope e) := by
    rw [htree, data_update_self, data_update_self, data_push, if_neg (Nat.ne_of_lt hlt), hdata₁]
    · rfl
    all_goals
      simp only [size_update, size_push]
      exact Nat.lt_succ_of_lt hlt
  have hconversion : s₂.tree.data s₁.tree.size =
      .expression (.conversion rhs kind) (t.typeIn scope lhs) := by
    rw [htree, data_update_of_ne _ (Nat.ne_of_gt hlt), data_update_of_ne _ (Nat.ne_of_gt hlt),
      data_push, if_pos rfl]
  have hothers : ∀ b < s₁.tree.size, b ≠ e → s₂.tree.nodes[b]? = s₁.tree.nodes[b]? := by
    intro b hb hne
    rw [htree, nodes_update_of_ne _ hne, nodes_update_of_ne _ hne, nodes_push_of_lt _ hb]
  have hnone : t.Finished scope s₁.tree e → False := fun hfinished => by
    have hnone := hfinished.assigned op lhs rhs stored hdata (by rw [hdata₁]; rfl)
    rw [hkind] at hnone
    cases hnone
  refine List.append_nil ds ▸ h.step hroot he hnot hview (by simp [htree]) hreports hothers ?_ ?_
    (fun c hc hlt₂ => ?_) ⟨?_, fun op' lhs' rhs' stored' ha hassigned' => ?_⟩
    fun hfinished => (hnone hfinished).elim
  · rw [htree, line_update, line_update, Tree.line, Tree.line, nodes_push_of_lt _ hlt]
  · rw [hdata, hself]
    exact .wrapped h.annotated.size_le hkind hconversion
  · exact h.annotated.new_of_insertion hroot he hassigned hrhs (by simp [htree])
      (by rw [hself]; rfl) hothers hc hlt₂
  · rw [typeAt, hself]
    rfl
  · rw [hdata] at ha
    cases ha
    rw [hself] at hassigned'
    have hle := h.annotated.size_le
    rw [Option.some.inj hassigned'] at hle
    exact absurd hrhs (Nat.not_lt_of_le hle)

end

end Annotates

end Tree

end Simula
