import Simula.Proofs.Check.Access
import Simula.Proofs.Meaning.Links

/-!
# Reference assignments

A reference assignment is accepted as it stands, accepted with a test of the object, or refused.
The types of its two sides hold class identifiers only. They are compared up to the case of their
letters and looked up from the scope of the assignment, wherever the variables are declared. So an
assignment that is accepted as it stands fits by the names of the classes. It fits by the classes
themselves where both identifiers mean in the scope of the assignment what they mean where the
variables are declared, and where identifiers that differ in case only are one.
-/

namespace Simula

/-! ## Typing leaves every meaning -/

/-- The later state comes from the earlier one by typing: no report is lost, what is offered to
lookups is the same, and nodes other than expressions stay as they are. -/
structure CheckState.Typed (s s' : CheckState) : Prop where
  reports : s.ReportsMore s'
  regrows : s.Regrows s'
  retyped : s.Retyped s'

instance : Std.Refl CheckState.Typed :=
  ⟨fun s => ⟨Std.Refl.refl s, Std.Refl.refl s, Std.Refl.refl s⟩⟩

instance : Trans CheckState.Typed CheckState.Typed CheckState.Typed :=
  ⟨fun h h' => ⟨Trans.trans h.reports h'.reports, Trans.trans h.regrows h'.regrows,
    Trans.trans h.retyped h'.retyped⟩⟩

/-- Typing an expression only types. -/
theorem CheckM.typeExpr_typed (depth : Nat) (scope id : NodeId) :
    Follows CheckState.Typed (typeExpr depth scope id) := fun s =>
  ⟨typeExpr_follows typingFrame_reportsMore depth scope id s,
    checkFrame_regrows.typing depth scope id s,
    typeExpr_follows typingFrame_retyped depth scope id s⟩

/-- A report on top of more reports is more. -/
theorem CheckState.ReportsMore.report_ne {s s' : CheckState} (h : s.ReportsMore s')
    (d : Diagnostic) : s'.diagnostics.report d ≠ s.diagnostics := by
  intro heq
  have hle : s.diagnostics.entries.size ≤ s'.diagnostics.entries.size := by
    simpa using h.length_le
  have hsize := congrArg (·.entries.size) heq
  simp only [Diagnostics.report, Array.size_push] at hsize
  omega

namespace Tree.Retyped

variable {t t' : Tree} (h : t.Retyped t')
include h

/-- What is told of a node but for expressions stays the same. -/
theorem read {β : Type} (f : NodeData → β) (hf : ∀ d : NodeData, f d.unlessExpression = f d)
    (id : NodeId) : f (t'.data id) = f (t.data id) := by
  rw [← hf, h.others, hf]

/-- A tree with types recorded has the same links. -/
theorem sameLinks (hregrown : t.Regrown t') : t.SameLinks t' where
  toRegrown := hregrown
  prefixClass := h.read (fun d => d.class?.bind (·.prefixClass)) fun d => by cases d <;> rfl
  protectedBy := h.protectedBy?
  declaredIn := h.read (·.declaredIn?) fun d => by cases d <;> rfl
  searched id := h.read (·.searchedClass? id) (fun d => by cases d <;> rfl) id

end Tree.Retyped

/-- Typing changes no link. -/
theorem CheckState.Typed.sameLinks {s s' : CheckState} (h : s.Typed s') :
    s.tree.SameLinks s'.tree :=
  h.retyped.sameLinks h.regrows.regrown

/-- The node that an assignment assigns. -/
def NodeData.assigned? : NodeData → Option NodeId
  | expression (.assignment _ _ value) _ => some value
  | _ => none

/-- A new type is no new value. -/
theorem NodeData.assigned?_withExpressionType (ty : Ty) (d : NodeData) :
    (d.withExpressionType ty).assigned? = d.assigned? :=
  view_withExpressionType d fun form _ => by cases form <;> rfl

/-- An assignment stays one to the same target. -/
theorem Tree.Retyped.assignment {t t' : Tree} (h : t.Retyped t') {id lhs rhs : NodeId}
    {op : AssignOp} {ty : Ty} (hid : t.data id = .expression (.assignment op lhs rhs) ty) :
    ∃ rhs' ty', t'.data id = .expression (.assignment op lhs rhs') ty' := by
  obtain ⟨form', ty', hdata, hsame⟩ := h.expression hid
  cases form' with
  | assignment op' lhs' rhs' =>
    cases hsame
    exact ⟨rhs', ty', hdata⟩
  | _ => cases hsame

/-! ## Uses of reference variables -/

/-- From a scope, an expression uses a quantity of a reference type. The class identifier of the
type denotes a class in the scope that declares the quantity. -/
structure Tree.UsesReference (t : Tree) (scope use declaration : NodeId) (className : String)
    (c : NodeId) : Prop where
  names : ∃ x arguments ty, t.data use = .expression (.nameUse x arguments) ty ∧
    (t.resolve scope x).declaration = some declaration
  declaredType : (t.data declaration).declaredType = .reference className
  denotes : ∃ home, t.declaredIn? declaration = some home ∧ t.lookupClass home className = some c

/-- A use of a reference is a node of the tree. -/
theorem Tree.UsesReference.lt_size {t : Tree} {scope use d c : NodeId} {n : String}
    (h : t.UsesReference scope use d n c) : use < t.size := by
  obtain ⟨x, arguments, ty, huse, -⟩ := h.names
  exact lt_of_data (by simp [huse])

/-- A use of a reference is one behind further typing. -/
theorem Tree.UsesReference.typed {s s' : CheckState} {scope use d c : NodeId} {n : String}
    (h : s.tree.UsesReference scope use d n c) (hs : s.Typed s') :
    s'.tree.UsesReference scope use d n c where
  names := by
    obtain ⟨x, arguments, ty, huse, hx⟩ := h.names
    obtain ⟨ty', huse'⟩ := hs.retyped.nameUse huse
    exact ⟨x, arguments, ty', huse', by rw [hs.sameLinks.resolve, hx]⟩
  declaredType := (hs.sameLinks.offers.declaredType d).trans h.declaredType
  denotes := by
    obtain ⟨home, hhome, hc⟩ := h.denotes
    refine ⟨home, ?_, ?_⟩
    · rw [hs.sameLinks.declaredIn, hhome]
    · rw [hs.sameLinks.lookupClass, hc]

namespace CheckM

variable {s s' : CheckState} {depth : Nat} {scope id : NodeId} {ty : Ty}

/-- Typing an expression types its form and stores the type. -/
theorem typeExpr_eq_ok {form : Expression} {stored : Ty}
    (hid : s.tree.data id = .expression form stored)
    (h : typeExpr depth scope id s = .ok ty s') :
    ∃ n s₁, depth = n + 1 ∧
      formType (typeExpr n scope) scope id (s.tree.line id) stored form s = .ok ty s₁ ∧
      s' = s₁.update id fun d => d.withExpressionType ty := by
  cases depth with
  | zero => cases h
  | succ n =>
    rw [typeExpr, bind_of_ok (show tree s = .ok s.tree s from rfl), hid] at h
    obtain ⟨ty', s₁, hform, hstore⟩ := bind_eq_ok.mp h
    cases hstore
    exact ⟨n, s₁, rfl, hform, rfl⟩

/-- The use of a reference variable has the type of the variable, whatever its arguments are. -/
theorem typeExpr_usesReference {d c : NodeId} {n : String}
    (hid : s.tree.UsesReference scope id d n c) (h : typeExpr depth scope id s = .ok ty s') :
    ty = .reference n := by
  obtain ⟨x, arguments, stored, huse, hx⟩ := hid.names
  obtain ⟨k, s₁, -, hform, -⟩ := typeExpr_eq_ok huse h
  obtain ⟨_, s₂, harguments, hname⟩ := bind_eq_ok.mp hform
  have htyped := (typeAll_follows (typeExpr_typed k scope) arguments).of_ok harguments
  have hx₂ : (s₂.tree.resolve scope x).declaration = some d := by
    rw [htyped.sameLinks.resolve, hx]
  rw [nameType_of_resolve hx₂] at hname
  cases hname
  exact (htyped.sameLinks.offers.declaredType d).trans hid.declaredType

end CheckM

/-! ## Conversions of references -/

namespace Tree

/-- From a scope, the first class identifier denotes a subclass of the class that the second
denotes. -/
def BelowByName (t : Tree) (scope : NodeId) (b a : String) : Prop :=
  ∃ c d, t.lookupClass scope b = some c ∧ t.lookupClass scope a = some d ∧
    t.isSubclass c d = true

/-- From a scope, a reference qualified by the first class identifier goes into a variable qualified
by the second as it stands: the identifiers agree up to case, or the first is below the second. -/
def FitsByName (t : Tree) (scope : NodeId) (b a : String) : Prop :=
  upperCase b = upperCase a ∨ t.BelowByName scope b a

variable {t : Tree} {scope : NodeId} {a b : String}

/-- References are subordinate if the names of their classes denote a subclass and a class. -/
theorem isSubReference_reference :
    (Ty.reference b).isSubReference (t.classView scope) (.reference a) = true ↔
      t.BelowByName scope b a := by
  simp only [Ty.reference, Ty.isSubReference, classView, BelowByName]
  cases t.lookupClass scope b <;> cases t.lookupClass scope a <;> simp

/-- References are the same if the names of their classes agree up to case. -/
theorem same_reference :
    (Ty.reference b).same (.reference a) = true ↔ upperCase b = upperCase a := by
  simp [Ty.same_iff, Ty.reference, Ty.folded]

/-- How a reference reaches a variable, the names of their classes decide. -/
theorem conversionTo_reference :
    (t.FitsByName scope b a →
      (Ty.reference b).conversionTo (t.classView scope) (.reference a) = .directAssignable) ∧
    (¬ t.FitsByName scope b a → t.BelowByName scope a b →
      (Ty.reference b).conversionTo (t.classView scope) (.reference a) = .convertRef) ∧
    (¬ t.FitsByName scope b a → ¬ t.BelowByName scope a b →
      (Ty.reference b).conversionTo (t.classView scope) (.reference a) = .illegal) := by
  have harithmetic : ∀ n, (Ty.reference n).isArithmetic = false := fun _ => rfl
  have hundefined : (Ty.reference a).isUndefined = false := rfl
  simp only [Ty.conversionTo, harithmetic, hundefined, FitsByName, ← same_reference,
    ← isSubReference_reference, Bool.false_or, Bool.false_and, Bool.false_eq_true, if_false]
  refine ⟨fun hfits => ?_, fun hnot hbelow => ?_, fun hnot hbelow => ?_⟩
  · rcases hfits with hsame | hsub
    · rw [if_pos hsame]
    · rw [if_pos hsub, ite_self]
  · obtain ⟨hsame, hsub⟩ := not_or.mp hnot
    rw [if_neg hsame, if_neg hsub, if_pos hbelow]
  · obtain ⟨hsame, hsub⟩ := not_or.mp hnot
    rw [if_neg hsame, if_neg hsub, if_neg hbelow]

/-- A reference that fits by the names of the classes fits by the classes, if the names denote them
in the scope and are one identifier where they agree up to case. -/
theorem FitsByName.sound {c d : NodeId} (h : t.FitsByName scope b a)
    (ha : t.lookupClass scope a = some d) (hb : t.lookupClass scope b = some c)
    (hcase : upperCase b = upperCase a → t.sameIdentifier b a = true) :
    c = d ∨ t.isSubclass c d = true := by
  rcases h with hsame | ⟨c', d', hb', ha', hsub⟩
  · left
    rw [lookupClass_congr (hcase hsame)] at hb
    exact Option.some.inj (hb.symm.trans ha)
  · right
    rw [ha] at ha'
    rw [hb] at hb'
    cases ha'
    cases hb'
    exact hsub

end Tree

namespace CheckM

variable {s s' : CheckState} {depth : Nat} {scope id lhs rhs : NodeId} {a b : String}

/-- The state in which a reference assignment leaves the check once its sides are typed, by the way
in which the value reaches the target. -/
def afterAssigning (id rhs : NodeId) (line : Nat) (b a : String) (s : CheckState) :
    ConversionKind → CheckState
  | .directAssignable => s
  | .illegal => s.report line (.illegalReferenceConversion (.reference b) (.reference a))
  | kind => leaves (insertConversion id rhs kind (.reference a) line) s

/-- How the assignment of a reference ends depends on the conversion that it needs. -/
theorem assignmentType_reference (line : Nat) :
    assignmentType id .reference rhs (.reference a) (.reference b) scope line s =
      .ok (.reference a) (afterAssigning id rhs line b a s
        ((Ty.reference b).conversionTo (s.tree.classView scope) (.reference a))) := by
  have hconversion : conversionIn scope (.reference b) (.reference a) s =
      .ok ((Ty.reference b).conversionTo (s.tree.classView scope) (.reference a)) s := rfl
  have hdefined : ∀ n, (Ty.reference n).isUndefined = false := fun _ => rfl
  simp only [assignmentType, hdefined, Bool.or_false, Bool.false_eq_true, if_false]
  rw [bind_of_ok hconversion]
  cases (Ty.reference b).conversionTo (s.tree.classView scope) (.reference a) <;> rfl

/-- The typing of a reference assignment types both sides and then compares them as they are seen
from the scope. -/
theorem exists_typed_sides {dv dw cv cw : NodeId} {stored ty : Ty}
    (hform : s.tree.data id = .expression (.assignment .reference lhs rhs) stored)
    (hv : s.tree.UsesReference scope lhs dv a cv) (hw : s.tree.UsesReference scope rhs dw b cw)
    (hrun : typeExpr (depth + 1) scope id s = .ok ty s') :
    ∃ s₁ s₂, typeExpr depth scope lhs s = .ok (.reference a) s₁ ∧
      typeExpr depth scope rhs s₁ = .ok (.reference b) s₂ ∧ s.Typed s₂ ∧
      s' = (afterAssigning id rhs (s.tree.line id) b a s₂
        ((Ty.reference b).conversionTo (s.tree.classView scope) (.reference a))).update id
          fun d => d.withExpressionType (.reference a) := by
  obtain ⟨_, s₃, hdepth, htype, rfl⟩ := typeExpr_eq_ok hform hrun
  cases hdepth
  obtain ⟨target, s₁, hlhs, hrest⟩ := bind_eq_ok.mp htype
  obtain ⟨value, s₂, hrhs, hassign⟩ := bind_eq_ok.mp hrest
  have htyped₁ := (typeExpr_typed depth scope lhs).of_ok hlhs
  have htyped : s.Typed s₂ := Trans.trans htyped₁ ((typeExpr_typed depth scope rhs).of_ok hrhs)
  have htarget := typeExpr_usesReference hv hlhs
  have hvalue := typeExpr_usesReference (hw.typed htyped₁) hrhs
  rw [htarget, hvalue, assignmentType_reference, htyped.sameLinks.classView] at hassign
  cases hassign
  exact ⟨s₁, s₂, htarget ▸ hlhs, hvalue ▸ hrhs, htyped, rfl⟩

/-- A conversion is put in the place of the value, as a new node. -/
theorem assigned?_insertConversion {op : AssignOp} {value : NodeId} {kind : ConversionKind}
    {stored target : Ty} {line : Nat}
    (hid : s.tree.data id = .expression (.assignment op lhs value) stored) :
    ((leaves (insertConversion id rhs kind target line) s).tree.data id).assigned? =
      some s.tree.size := by
  have hlt : id < s.tree.size := Tree.lt_of_data (by simp [hid])
  change (((s.tree.push ⟨line, .expression (.conversion rhs kind) target⟩).update id
    (withAssigned s.tree.size)).data id).assigned? = some s.tree.size
  have hlt' : id < (s.tree.push ⟨line, .expression (.conversion rhs kind) target⟩).size := by
    rw [Tree.size_push]
    exact Nat.lt_succ_of_lt hlt
  rw [Tree.data_update_self _ hlt', Tree.data_push, if_neg (Nat.ne_of_lt hlt), hid]
  rfl

/-- **Reference assignments.** Let a reference variable be assigned to another, and let the typing
of the assignment come to its end. The assignment stays as it is if the two types fit by name from
its scope, it gets a conversion if they fit by name the other way round, and it is reported
otherwise. Hence if nothing is reported and no conversion is inserted, the types fit by name. The
class of the value is then that of the target or a subclass of it, provided that both class
identifiers denote from the scope of the assignment what they denote where the variables are
declared, and are one identifier if they agree up to case. -/
theorem referenceAssignment_fits {dv dw cv cw : NodeId} {stored ty : Ty}
    (hform : s.tree.data id = .expression (.assignment .reference lhs rhs) stored)
    (hv : s.tree.UsesReference scope lhs dv a cv) (hw : s.tree.UsesReference scope rhs dw b cw)
    (hrun : typeExpr (depth + 1) scope id s = .ok ty s') :
    ∃ s₁ s₂, typeExpr depth scope lhs s = .ok (.reference a) s₁ ∧
      typeExpr depth scope rhs s₁ = .ok (.reference b) s₂ ∧
      (s.tree.FitsByName scope b a →
        s' = s₂.update id fun d => d.withExpressionType (.reference a)) ∧
      (¬ s.tree.FitsByName scope b a → s.tree.BelowByName scope a b →
        s' = (leaves (insertConversion id rhs .convertRef (.reference a) (s.tree.line id))
          s₂).update id fun d => d.withExpressionType (.reference a)) ∧
      (¬ s.tree.FitsByName scope b a → ¬ s.tree.BelowByName scope a b →
        s' = (s₂.report (s.tree.line id)
          (.illegalReferenceConversion (.reference b) (.reference a))).update id
            fun d => d.withExpressionType (.reference a)) ∧
      (s'.diagnostics = s.diagnostics → (s'.tree.data id).assigned? = some rhs →
        s.tree.FitsByName scope b a ∧
        (s.tree.lookupClass scope a = some cv → s.tree.lookupClass scope b = some cw →
          (upperCase b = upperCase a → s.tree.sameIdentifier b a = true) →
          cw = cv ∨ s.tree.isSubclass cw cv = true)) := by
  obtain ⟨s₁, s₂, hlhs, hrhs, htyped, rfl⟩ := exists_typed_sides hform hv hw hrun
  obtain ⟨hdirect, hconvert, hillegal⟩ := @Tree.conversionTo_reference s.tree scope a b
  refine ⟨s₁, s₂, hlhs, hrhs, fun hfits => ?_, fun hnot hbelow => ?_, fun hnot hbelow => ?_,
    fun hquiet hplain => ?_⟩
  · rw [hdirect hfits, afterAssigning]
  · rw [hconvert hnot hbelow]
    rfl
  · rw [hillegal hnot hbelow, afterAssigning]
  · have hfits : s.tree.FitsByName scope b a := by
      by_contra hnot
      by_cases hbelow : s.tree.BelowByName scope a b
      · -- A conversion would be the assigned value now, and it is a later node than `rhs`.
        obtain ⟨_, _, hform₂⟩ := htyped.retyped.assignment hform
        rw [hconvert hnot hbelow] at hplain
        have hassigned := (Tree.view_update _ id
          (NodeData.assigned?_withExpressionType (.reference a)) id).symm.trans hplain
        have hlast : some s₂.tree.size = some rhs :=
          (assigned?_insertConversion hform₂).symm.trans hassigned
        have hlt : rhs < s₂.tree.size :=
          Nat.lt_of_lt_of_le hw.lt_size htyped.retyped.kept.size_le
        exact Nat.ne_of_gt hlt (Option.some.inj hlast)
      · rw [hillegal hnot hbelow] at hquiet
        exact htyped.reports.report_ne _ hquiet
    exact ⟨hfits, fun ha hb hcase => hfits.sound ha hb hcase⟩

/-- A block in which case counts, with a class `A`, a subclass `B` of it and another class `a`, and
with variables `v`, `u` and `x` for their objects. An inner block declares a further class `A` and a
variable `w` for its objects. The outer block assigns `u` and `x` to `v`, the inner one assigns `w`
to `v`. -/
def namesakes : CheckState where
  tree := { caseRule := .sensitive, nodes := #[
    ⟨1, .declaration "main" none (.block { declarations := ⟨#[("A", 1), ("B", 2), ("a", 3),
      ("v", 4), ("u", 5), ("x", 6)]⟩ })⟩,
    ⟨2, .declaration "A" (some 0) (.classDeclaration {})⟩,
    ⟨3, .declaration "B" (some 0) (.classDeclaration
      { prefixName := some "A", prefixClass := some 1 })⟩,
    ⟨4, .declaration "a" (some 0) (.classDeclaration {})⟩,
    ⟨5, .declaration "v" (some 0) (.simpleVariable (.reference "A") none)⟩,
    ⟨6, .declaration "u" (some 0) (.simpleVariable (.reference "B") none)⟩,
    ⟨7, .declaration "x" (some 0) (.simpleVariable (.reference "a") none)⟩,
    ⟨8, .declaration "inner" (some 0) (.block { declarations := ⟨#[("A", 8), ("w", 9)]⟩ })⟩,
    ⟨9, .declaration "A" (some 7) (.classDeclaration {})⟩,
    ⟨10, .declaration "w" (some 7) (.simpleVariable (.reference "A") none)⟩,
    ⟨11, .expression (.nameUse "v" []) .undefined⟩,
    ⟨11, .expression (.nameUse "u" []) .undefined⟩,
    ⟨11, .expression (.assignment .reference 10 11) .undefined⟩,
    ⟨12, .expression (.nameUse "x" []) .undefined⟩,
    ⟨12, .expression (.assignment .reference 10 13) .undefined⟩,
    ⟨13, .expression (.nameUse "w" []) .undefined⟩,
    ⟨13, .expression (.assignment .reference 10 15) .undefined⟩] }

/-- Where `A` and `B` mean what they mean at the declarations of `v` and `u`, the assignment is
accepted as it stands and the class of the value is a subclass of that of the target. -/
theorem referenceAssignment_fits_namesakes :
    ∃ s', typeExpr 2 0 12 namesakes = .ok (.reference "A") s' ∧
      s'.diagnostics = namesakes.diagnostics ∧ (s'.tree.data 12).assigned? = some 11 ∧
      namesakes.tree.FitsByName 0 "B" "A" ∧
      (2 = 1 ∨ namesakes.tree.isSubclass 2 1 = true) := by
  have htyped : succeedsWith (typeExpr 2 0 12) namesakes (fun ty s' =>
      ty = .reference "A" ∧ s'.diagnostics = namesakes.diagnostics ∧
      (s'.tree.data 12).assigned? = some 11) = true := by
    decide +kernel
  have hv : namesakes.tree.UsesReference 0 10 4 "A" 1 :=
    ⟨⟨"v", [], .undefined, rfl, by decide +kernel⟩, rfl, 0, rfl, by decide +kernel⟩
  have hu : namesakes.tree.UsesReference 0 11 5 "B" 2 :=
    ⟨⟨"u", [], .undefined, rfl, by decide +kernel⟩, rfl, 0, rfl, by decide +kernel⟩
  obtain ⟨ty, s', hrun, htest⟩ := exists_of_succeedsWith htyped
  obtain ⟨rfl, hquiet, hplain⟩ := of_decide_eq_true htest
  obtain ⟨_, _, -, -, -, -, -, haccepted⟩ := referenceAssignment_fits rfl hv hu hrun
  obtain ⟨hfits, hsound⟩ := haccepted hquiet hplain
  exact ⟨s', hrun, hquiet, hplain, hfits,
    hsound (by decide +kernel) (by decide +kernel) (by decide +kernel)⟩

/-- The other two assignments are accepted as they stand, too, although their classes have no more
than the name in common: from the inner block `A` is not the class of `v`, and `a` agrees with `A`
only up to case. No prefix class has a prefix class in turn. -/
theorem referenceAssignment_of_namesakes :
    (∀ c p, namesakes.tree.prefixClass? c = some p → namesakes.tree.prefixClass? p = none) ∧
    (∃ s', namesakes.tree.UsesReference 7 10 4 "A" 1 ∧
      namesakes.tree.UsesReference 7 15 9 "A" 8 ∧
      typeExpr 2 7 16 namesakes = .ok (.reference "A") s' ∧
      s'.diagnostics = namesakes.diagnostics ∧ (s'.tree.data 16).assigned? = some 15 ∧
      ¬ (8 = 1 ∨ namesakes.tree.isSubclass 8 1 = true)) ∧
    ∃ s', namesakes.tree.UsesReference 0 10 4 "A" 1 ∧
      namesakes.tree.UsesReference 0 13 6 "a" 3 ∧
      typeExpr 2 0 14 namesakes = .ok (.reference "A") s' ∧
      s'.diagnostics = namesakes.diagnostics ∧ (s'.tree.data 14).assigned? = some 13 ∧
      ¬ (3 = 1 ∨ namesakes.tree.isSubclass 3 1 = true) := by
  have hinner : succeedsWith (typeExpr 2 7 16) namesakes (fun ty s' =>
      ty = .reference "A" ∧ s'.diagnostics = namesakes.diagnostics ∧
      (s'.tree.data 16).assigned? = some 15) = true := by
    decide +kernel
  have hcase : succeedsWith (typeExpr 2 0 14) namesakes (fun ty s' =>
      ty = .reference "A" ∧ s'.diagnostics = namesakes.diagnostics ∧
      (s'.tree.data 14).assigned? = some 13) = true := by
    decide +kernel
  refine ⟨fun c p hp => ?_, ?_, ?_⟩
  · have hlt : c < namesakes.tree.size := Tree.lt_of_data fun hpending => by
      simp [Tree.prefixClass?, Tree.class?, hpending, NodeData.class?] at hp
    have hall : ∀ c < 17, ∀ p ∈ namesakes.tree.prefixClass? c,
        namesakes.tree.prefixClass? p = none := by
      decide +kernel
    exact hall c hlt p hp
  · obtain ⟨ty, s', hrun, htest⟩ := exists_of_succeedsWith hinner
    obtain ⟨rfl, hquiet, hplain⟩ := of_decide_eq_true htest
    exact ⟨s', ⟨⟨"v", [], .undefined, rfl, by decide +kernel⟩, rfl, 0, rfl, by decide +kernel⟩,
      ⟨⟨"w", [], .undefined, rfl, by decide +kernel⟩, rfl, 7, rfl, by decide +kernel⟩,
      hrun, hquiet, hplain, by decide +kernel⟩
  · obtain ⟨ty, s', hrun, htest⟩ := exists_of_succeedsWith hcase
    obtain ⟨rfl, hquiet, hplain⟩ := of_decide_eq_true htest
    exact ⟨s', ⟨⟨"v", [], .undefined, rfl, by decide +kernel⟩, rfl, 0, rfl, by decide +kernel⟩,
      ⟨⟨"x", [], .undefined, rfl, by decide +kernel⟩, rfl, 0, rfl, by decide +kernel⟩,
      hrun, hquiet, hplain, by decide +kernel⟩

end CheckM

end Simula
