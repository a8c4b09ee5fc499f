import Simula.Proofs.Check.Marks
import Simula.Proofs.Check.Reports
import Simula.Proofs.Tree.Nodes

/-!
# What a check leaves alone

A check changes its state in a few ways only: it reports, links specifications, records types,
conversions and connected classes, and numbers labels. A relation between states that each of these
changes follows is followed by the check as a whole, whether it ends well or not. The first use is
of relations that keep a view: whatever can be told of a node without looking at the changes stays
as it is once prefixes are resolved.
-/

namespace Simula

/-- What each step follows a run of steps follows. -/
theorem foldl_follows {σ : Type} {R : σ → σ → Prop} [Std.Refl R] [Trans R R R]
    {step : σ → NodeId → σ} (h : ∀ s id, R s (step s id)) (ids : List NodeId) (s : σ) :
    R s (ids.foldl step s) := by
  induction ids generalizing s with
  | nil => exact Std.Refl.refl s
  | cons id ids ih => exact Trans.trans (h s id) (ih (step s id))

/-- A relation that the changes made by typing follow. -/
structure TypingFrame (R : CheckState → CheckState → Prop) : Prop where
  report : ∀ (s : CheckState) (d : Diagnostic),
    R s { s with diagnostics := s.diagnostics.report d }
  expressionType : ∀ (s : CheckState) (id : NodeId) (ty : Ty),
    R s (s.update id fun d => d.withExpressionType ty)
  conversion : ∀ (s : CheckState) (assignment rhs : NodeId) (kind : ConversionKind) (target : Ty)
    (line : Nat), R s { s with
      tree := (s.tree.push ⟨line, .expression (.conversion rhs kind) target⟩).update assignment
        (CheckM.withAssigned s.tree.size) }

/-- A relation that typing and the changes made by checking scopes and statements follow. -/
structure CheckFrame (R : CheckState → CheckState → Prop) : Prop where
  report : ∀ (s : CheckState) (d : Diagnostic),
    R s { s with diagnostics := s.diagnostics.report d }
  typing : ∀ (depth : Nat) (scope id : NodeId), Follows R (CheckM.typeExpr depth scope id)
  connectedClass : ∀ (s : CheckState) (id : NodeId) (c : Option NodeId) (scope : NodeId),
    R s (s.update id (CheckM.withConnectedClass c scope))
  scope : ∀ (s : CheckState) (id scope : NodeId), R s (s.update id (CheckM.withScope scope))
  labelIndex : ∀ (s : CheckState) (id : NodeId) (index : Nat),
    R s (s.update id (Tree.withLabelIndex index))
  labels : ∀ (s : CheckState) (id : NodeId) (f : LabelList → LabelList),
    (∀ l, (f l).own = l.own) →
      R s (s.update id fun d => d.modifyBody fun b => { b with labels := f b.labels })

/-- A relation that typing, the finishing of labels and the other changes made by checking scopes and
statements follow. -/
structure ScopeFrame (R : CheckState → CheckState → Prop) : Prop where
  report : ∀ (s : CheckState) (d : Diagnostic),
    R s { s with diagnostics := s.diagnostics.report d }
  typing : ∀ (depth : Nat) (scope id : NodeId), Follows R (CheckM.typeExpr depth scope id)
  connectedClass : ∀ (s : CheckState) (id : NodeId) (c : Option NodeId) (scope : NodeId),
    R s (s.update id (CheckM.withConnectedClass c scope))
  scope : ∀ (s : CheckState) (id scope : NodeId), R s (s.update id (CheckM.withScope scope))
  finishLabels : ∀ scope : NodeId, Follows R (CheckM.finishLabels scope)

namespace CheckM

variable {R : CheckState → CheckState → Prop} [Std.Refl R] [Trans R R R]

/-! ## Types -/

section

variable (hreport : ∀ (s : CheckState) (d : Diagnostic),
  R s { s with diagnostics := s.diagnostics.report d })
include hreport

/-- A step that only reports follows what reports follow. -/
theorem OnlyReports.follows {α : Type} {x : CheckM α} (h : OnlyReports x) : Follows R x := by
  intro s
  obtain ⟨a, ds, hx⟩ := h s
  rw [leaves_of_ok hx]
  clear hx h
  induction ds generalizing s with
  | nil => exact Std.Refl.refl s
  | cons d ds ih =>
    exact Trans.trans (hreport s d) (ih { s with diagnostics := s.diagnostics.report d })

/-- A settled action makes reports only. -/
theorem Settled.follows {α : Type} {x : CheckM α} (h : Settled x) : Follows R x :=
  h.onlyReports.follows hreport

end

omit [Std.Refl R] [Trans R R R] in
/-- Changing one node is one of the changes. -/
theorem update_follows {id : NodeId} {f : NodeData → NodeData} (h : ∀ s, R s (s.update id f)) :
    Follows R (update id f) :=
  .of_modify h

/-- Typing several expressions follows what typing each follows. -/
theorem typeAll_follows {typeOf : NodeId → CheckM Ty} (h : ∀ id, Follows R (typeOf id))
    (ids : List NodeId) : Follows R (typeAll typeOf ids) := by
  induction ids with
  | nil => exact .pure _
  | cons id ids ih => exact .bind (.bind (h id) fun _ => .pure _) fun _ => ih

section

variable (h : TypingFrame R)
include h

/-- An assignment may get a conversion, and a report. -/
theorem assignmentType_follows (assignment : NodeId) (op : AssignOp) (rhs : NodeId)
    (target value : Ty) (scope : NodeId) (line : Nat) :
    Follows R (assignmentType assignment op rhs target value scope line) := by
  unfold assignmentType
  dsimp only
  split
  · exact .pure _
  · refine .bind ((conversionIn_settled _ _ _).follows h.report) fun conversion => ?_
    cases conversion with
    | directAssignable => exact .pure _
    | convertValue | convertRef =>
      exact .bind (.of_modify fun s => h.conversion s _ _ _ _ _) fun _ => .pure _
    | illegal =>
      cases op <;> exact .bind ((OnlyReports.report _ _).follows h.report) fun _ => .pure _

/-- Typing an expression follows what typing its parts follows. -/
theorem formType_follows {typeOf : NodeId → CheckM Ty} (htype : ∀ id, Follows R (typeOf id))
    (scope id : NodeId) (line : Nat) (stored : Ty) (form : Expression) :
    Follows R (formType typeOf scope id line stored form) := by
  cases form with
  | constant value => exact .pure _
  | nameUse identifier arguments =>
    exact .bind (typeAll_follows htype _) fun _ => (nameType_settled _ _ _).follows h.report
  | binary op lhs rhs =>
    exact .bind (htype _) fun _ => .bind (htype _) fun _ =>
      (binaryType_settled _ _ _ _ _).follows h.report
  | unary op operand =>
    exact .bind (htype _) fun _ => (unaryType_settled _ _ _).follows h.report
  | assignment op lhs rhs =>
    exact .bind (htype _) fun _ => .bind (htype _) fun _ => assignmentType_follows h _ _ _ _ _ _ _
  | generator className arguments =>
    exact .bind (typeAll_follows htype _) fun _ => (classType_settled _ _ _).follows h.report
  | remote object attr arguments =>
    exact .bind (htype _) fun _ => .bind (typeAll_follows htype _) fun _ =>
      (remoteType_settled _ _ _ _).follows h.report
  | qualified object className =>
    exact .bind (htype _) fun _ => .bind ((classType_settled _ _ _).follows h.report) fun _ =>
      .bind ((checkReferenceTest_settled _ _ _ _ _).follows h.report) fun _ => .pure _
  | relation op object className =>
    exact .bind (htype _) fun _ => .bind ((classType_settled _ _ _).follows h.report) fun _ =>
      .bind ((checkReferenceTest_settled _ _ _ _ _).follows h.report) fun _ => .pure _
  | conversion expression kind =>
    exact .bind (OnlyReports.tree.follows h.report) fun _ =>
      .bind (.bind (htype _) fun _ => .pure _) fun _ => .pure _

/-- Typing an expression follows what its changes follow. -/
theorem typeExpr_follows (depth : Nat) (scope id : NodeId) :
    Follows R (typeExpr depth scope id) := by
  induction depth generalizing id with
  | zero => exact .throw _
  | succ depth ih =>
    refine .bind (OnlyReports.tree.follows h.report) fun t => ?_
    split
    · exact .bind (formType_follows h ih _ _ _ _ _) fun ty =>
        .bind (update_follows fun s => h.expressionType s _ ty) fun _ => .pure _
    · exact .pure _

end

/-! ## Scopes and statements -/

/-- Going through a list follows what each step follows. -/
theorem forEach_follows {step : NodeId → CheckM Unit} (hstep : ∀ id, Follows R (step id))
    (ids : List NodeId) : Follows R (forEach step ids) := by
  induction ids with
  | nil => exact .pure _
  | cons id ids ih => exact .bind (hstep id) fun _ => ih

/-- Finishing the labels of a scope numbers labels and changes label lists, but no list of the
scope's own labels. -/
theorem finishLabels_follows
    (hindex : ∀ (s : CheckState) (id : NodeId) (index : Nat),
      R s (s.update id (Tree.withLabelIndex index)))
    (hlabels : ∀ (s : CheckState) (id : NodeId) (f : LabelList → LabelList),
      (∀ l, (f l).own = l.own) →
        R s (s.update id fun d => d.modifyBody fun b => { b with labels := f b.labels }))
    (scope : NodeId) : Follows R (finishLabels scope) := by
  have hnumber : ∀ (labels : List NodeId) (index : Nat) (s : CheckState),
      R s { s with tree := Tree.numberLabels index labels s.tree } := by
    intro labels
    induction labels with
    | nil => exact fun _ s => Std.Refl.refl s
    | cons label labels ih =>
      intro index s
      exact Trans.trans (hindex s label index)
        (ih (index + 1) (s.update label (Tree.withLabelIndex index)))
  have haccumulated : Follows R (onTree (Tree.accumulatedLabels scope)) := by
    rintro ⟨t, d⟩
    simp only [leaves, onTree, Tree.accumulatedLabels]
    cases (t.data scope).labels?.bind (·.accumulated) with
    | some labels => exact Std.Refl.refl _
    | none =>
      cases (t.labelOwners scope).mapM t.ownLabels with
      | error e => exact Std.Refl.refl _
      | ok lists =>
        dsimp only
        by_cases hmany : lists.flatten.length > Tree.maxLabels
        · rw [if_pos hmany]
          exact Std.Refl.refl _
        · rw [if_neg hmany]
          have hremember := hlabels ⟨Tree.numberLabels 1 lists.flatten t, d⟩ scope
            (fun l => { l with accumulated := some lists.flatten.toArray }) fun _ => rfl
          exact Trans.trans (hnumber lists.flatten 1 ⟨t, d⟩) hremember
  refine .bind (fun s => Std.Refl.refl s) fun t => ?_
  split
  · refine .bind (.bind haccumulated fun _ => .pure _) fun _ => .of_modify fun s => ?_
    exact hlabels s scope (fun l => { l with ready := true }) fun _ => rfl
  · exact .pure _

section

variable (h : ScopeFrame R)
include h

/-- Checking a condition follows what typing follows. -/
theorem checkCondition_follows (depth : Nat) (scope condition : NodeId) :
    Follows R (checkCondition depth scope condition) := by
  refine .bind (h.typing _ _ _) fun ty => ?_
  split
  · exact .pure _
  · exact .bind (OnlyReports.tree.follows h.report) fun _ =>
      (OnlyReports.report _ _).follows h.report

/-- Checking the value of a constant follows what typing follows. -/
theorem checkConstantDeclaration_follows (depth : Nat) (scope decl : NodeId) :
    Follows R (checkConstantDeclaration depth scope decl) := by
  refine .bind (OnlyReports.tree.follows h.report) fun t => ?_
  split
  · exact .bind (h.typing _ _ _) fun _ => .bind (OnlyReports.tree.follows h.report) fun _ =>
      (requireAssignable_settled _ _ _ _).follows h.report
  · exact .pure _

/-- Checking a branch of an inspect statement follows what checking its statement follows. -/
theorem checkConnection_follows {checkStatement : NodeId → NodeId → CheckM Unit}
    (hcheck : ∀ scope id, Follows R (checkStatement scope id)) (objectType : Ty)
    (scope connection : NodeId) :
    Follows R (checkConnection checkStatement objectType scope connection) := by
  refine .bind (OnlyReports.tree.follows h.report) fun t => ?_
  split
  · refine .bind ((connectedClass_settled _ _ _ _).follows h.report) fun c =>
      .bind (update_follows fun s => h.connectedClass s _ c scope) fun _ => ?_
    split
    · exact hcheck _ _
    · exact .pure _
  · exact .throw _

/-- Checking what is declared in a scope follows what checking scopes follows. -/
theorem checkDeclared_follows {depth : Nat} (hscope : ∀ scope, Follows R (checkScope depth scope))
    (scope decl : NodeId) :
    Follows R (do
      match (← tree).kind decl with
      | .classDeclaration | .procedure | .block => checkScope depth decl
      | .simpleVariable => checkConstantDeclaration depth scope decl
      | _ => pure ()) := by
  refine .bind (OnlyReports.tree.follows h.report) fun t => ?_
  split
  · exact hscope decl
  · exact hscope decl
  · exact hscope decl
  · exact checkConstantDeclaration_follows h _ _ _
  · exact .pure _

/-- Checking scopes and statements follows what its changes follow. -/
theorem checkWithin_follows (depth : Nat) :
    (∀ scope, Follows R (checkScope depth scope)) ∧
      ∀ scope id, Follows R (checkStatement depth scope id) := by
  have htree : Follows R tree := OnlyReports.tree.follows h.report
  induction depth with
  | zero => exact ⟨fun _ => .throw _, fun _ _ => .throw _⟩
  | succ depth ih =>
    obtain ⟨hscope, hstatement⟩ := ih
    refine ⟨fun scope => ?_, fun scope id => ?_⟩
    · exact .bind htree fun t => .bind (forEach_follows (checkDeclared_follows h hscope scope) _)
        fun _ => .bind (forEach_follows (hstatement scope) _) fun _ => h.finishLabels scope
    · refine .bind htree fun t => ?_
      dsimp only
      split
      · exact .bind (h.typing _ _ _) fun _ => .pure _
      · exact .bind (checkCondition_follows h _ _ _) fun _ => .bind (hstatement _ _) fun _ =>
          forEach_follows (hstatement scope) _
      · exact .bind (checkCondition_follows h _ _ _) fun _ => hstatement _ _
      · exact .bind (h.typing _ _ _) fun _ => .pure _
      · exact hstatement _ _
      · exact forEach_follows (hstatement scope) _
      · exact .bind (h.typing _ _ _) fun _ =>
          .bind (forEach_follows (checkConnection_follows h hstatement _ scope) _) fun _ =>
            forEach_follows (hstatement scope) _
      · exact .pure _
      · exact .bind (h.typing _ _ _) fun _ => .pure _
      · split
        · exact .bind (update_follows fun s => h.scope s _ scope) fun _ => hscope _
        · exact .throw _

end

end CheckM

/-! ## Classes -/

namespace CheckState

variable {R : CheckState → CheckState → Prop} [Std.Refl R] [Trans R R R]

section

variable (hreport : ∀ (s : CheckState) (d : Diagnostic),
  R s { s with diagnostics := s.diagnostics.report d })
include hreport

omit [Trans R R R] in
/-- Resolving a prefix reports, or records the prefix class. -/
theorem resolvePrefix_follows (hprefixClass : ∀ (s : CheckState) (id : NodeId) (p : Option NodeId),
      R s (s.update id fun d => d.modifyClass (·.withPrefixClass p)))
    (s : CheckState) (c : NodeId) : R s (s.resolvePrefix c) := by
  simp only [resolvePrefix]
  split
  · split
    · exact hreport s _
    · split
      · exact hprefixClass s c _
      · exact hreport s _
  · exact Std.Refl.refl s

/-- Cutting a circular chain reports and removes the prefix class. -/
theorem cutPrefixCycle_follows (hprefixClass : ∀ (s : CheckState) (id : NodeId) (p : Option NodeId),
      R s (s.update id fun d => d.modifyClass (·.withPrefixClass p)))
    (s : CheckState) (c : NodeId) : R s (s.cutPrefixCycle c) := by
  simp only [cutPrefixCycle]
  split
  · exact Trans.trans (hreport s _) (hprefixClass (s.report _ _) c none)
  · exact Std.Refl.refl s

/-- Pairing the specifications of a class reports, or links specifications. -/
theorem pairSpecifications_follows
    (hprotectedBy : ∀ (s : CheckState) (id p : NodeId), R s (s.update id (withProtectedBy p)))
    (hhiddenBy : ∀ (s : CheckState) (id h : NodeId), R s (s.update id (withHiddenBy h)))
    (s : CheckState) (c : NodeId) : R s (s.pairSpecifications c) := by
  have hhidden : ∀ (s : CheckState) (id : NodeId), R s (pairHidden c s id) := by
    intro s id
    simp only [pairHidden]
    split
    · next p _ =>
      exact Trans.trans (hprotectedBy s id p) (hhiddenBy (s.update id (withProtectedBy p)) p id)
    · exact hreport s _
  have hprotected : ∀ (s : CheckState) (id : NodeId), R s (checkProtected c s id) := by
    intro s id
    simp only [checkProtected]
    split
    · exact Std.Refl.refl s
    · exact hreport s _
  rw [pairSpecifications]
  split
  · exact Std.Refl.refl s
  · next parts _ =>
    exact Trans.trans (foldl_follows hhidden parts.hidden.toList s)
      (foldl_follows hprotected parts.guarded.toList _)

end

/-- The state of a check once the prefixes of the classes below a module are resolved and circular
chains are cut. -/
def withPrefixes (s : CheckState) (module : NodeId) : CheckState :=
  (s.forClasses resolvePrefix (s.tree.classesBelow module)).forClasses cutPrefixCycle
    (s.tree.classesBelow module)

end CheckState

/-- It is enough that a relation follows every numbering and every change of label lists that keeps
the labels of a scope's own. -/
theorem CheckFrame.scopeFrame {R : CheckState → CheckState → Prop} [Std.Refl R] [Trans R R R]
    (h : CheckFrame R) : ScopeFrame R where
  report := h.report
  typing := h.typing
  connectedClass := h.connectedClass
  scope := h.scope
  finishLabels := CheckM.finishLabels_follows h.labelIndex h.labels

section

variable {R : CheckState → CheckState → Prop} [Std.Refl R] [Trans R R R]
  (hprotectedBy : ∀ (s : CheckState) (id p : NodeId),
    R s (s.update id (CheckState.withProtectedBy p)))
  (hhiddenBy : ∀ (s : CheckState) (id h : NodeId), R s (s.update id (CheckState.withHiddenBy h)))
include hprotectedBy hhiddenBy

/-- Behind its first two phases a check follows what links of specifications and the checking of
scopes and statements follow. -/
theorem ScopeFrame.check_follows (h : ScopeFrame R) (module : NodeId) (s : CheckState) :
    R (s.withPrefixes module) (leaves (CheckM.check module) s) :=
  Trans.trans (foldl_follows (CheckState.pairSpecifications_follows h.report hprotectedBy hhiddenBy)
      (s.tree.classesBelow module) (s.withPrefixes module))
    ((CheckM.checkWithin_follows h _).1 module (s.prepareClasses module))

/-- Behind its first two phases a check follows what links of specifications and the changes made by
checking scopes and statements follow. -/
theorem CheckM.check_follows (h : CheckFrame R) (module : NodeId) (s : CheckState) :
    R (s.withPrefixes module) (leaves (check module) s) :=
  h.scopeFrame.check_follows hprotectedBy hhiddenBy module s

end

/-! ## Views of nodes -/

/-- Something told of a node that the later phases of a check do not change. -/
structure Undisturbed {β : Type} (view : NodeData → β) : Prop where
  protectedBy : ∀ p d, view (CheckState.withProtectedBy p d) = view d
  hiddenBy : ∀ h d, view (CheckState.withHiddenBy h d) = view d
  expressionType : ∀ ty d, view (d.withExpressionType ty) = view d
  assigned : ∀ value d, view (CheckM.withAssigned value d) = view d
  connectedClass : ∀ c scope d, view (CheckM.withConnectedClass c scope d) = view d
  scope : ∀ scope d, view (CheckM.withScope scope d) = view d
  labelIndex : ∀ index d, view (Tree.withLabelIndex index d) = view d
  labels : ∀ (f : LabelList → LabelList), (∀ l, (f l).own = l.own) → ∀ d,
    view (d.modifyBody fun b => { b with labels := f b.labels }) = view d

/-- Every node still looks the same in the later state. -/
def CheckState.Keeps {β : Type} (view : NodeData → β) (s s' : CheckState) : Prop :=
  s.tree.Keeps view s'.tree

section

variable {β : Type} {view : NodeData → β}

instance : Std.Refl (CheckState.Keeps view) := ⟨fun s => .refl s.tree⟩

instance : Trans (CheckState.Keeps view) (CheckState.Keeps view) (CheckState.Keeps view) :=
  ⟨Tree.Keeps.trans⟩

namespace CheckState

/-- Pairing the specifications of a class links specifications only. -/
theorem pairSpecifications_keeps (hprotectedBy : ∀ p d, view (withProtectedBy p d) = view d)
    (hhiddenBy : ∀ h d, view (withHiddenBy h d) = view d) (s : CheckState) (c : NodeId) :
    s.Keeps view (s.pairSpecifications c) :=
  pairSpecifications_follows (fun s _ => .refl s.tree)
    (fun s id p => .update s.tree id (hprotectedBy p))
    (fun s id h => .update s.tree id (hhiddenBy h)) s c

end CheckState

/-- Typing keeps what neither recorded types nor new conversions show. -/
theorem typingFrame_keeps (hexpressionType : ∀ ty d, view (d.withExpressionType ty) = view d)
    (hassigned : ∀ value d, view (CheckM.withAssigned value d) = view d) :
    TypingFrame (CheckState.Keeps view) where
  report s _ := .refl s.tree
  expressionType s id ty := .update s.tree id (hexpressionType ty)
  conversion s _ _ _ _ _ := (Tree.Keeps.push s.tree _).trans (.update _ _ (hassigned _))

/-- Checking scopes and statements keeps every view that is not disturbed. -/
theorem Undisturbed.checkFrame (h : Undisturbed view) : CheckFrame (CheckState.Keeps view) where
  report s _ := .refl s.tree
  typing := CheckM.typeExpr_follows (typingFrame_keeps h.expressionType h.assigned)
  connectedClass s id c scope := .update s.tree id (h.connectedClass c scope)
  scope s id scope := .update s.tree id (h.scope scope)
  labelIndex s id index := .update s.tree id (h.labelIndex index)
  labels s id f hf := .update s.tree id (h.labels f hf)

/-- Behind its first two phases a check keeps every view that is not disturbed. -/
theorem CheckM.check_keeps (h : Undisturbed view) (module : NodeId) (s : CheckState) :
    CheckState.Keeps view (s.withPrefixes module) (leaves (check module) s) :=
  check_follows (fun s id p => .update s.tree id (h.protectedBy p))
    (fun s id hidden => .update s.tree id (h.hiddenBy hidden)) h.checkFrame module s

end

/-- The prefix class of the node, if it is a class that has one. -/
def NodeData.prefixClass? (d : NodeData) : Option NodeId := d.class?.bind (·.prefixClass)

/-- A check does not touch prefix classes once they are resolved. -/
theorem undisturbed_prefixClass : Undisturbed NodeData.prefixClass? where
  protectedBy _ d := NodeData.view_withProtectedBy d fun _ _ _ => rfl
  hiddenBy _ d := NodeData.view_withHiddenBy d fun _ _ _ => rfl
  expressionType _ d := NodeData.view_withExpressionType d fun _ _ => rfl
  assigned _ d := NodeData.view_withAssigned d fun _ _ _ _ => rfl
  connectedClass _ _ d := NodeData.view_withConnectedClass d fun _ _ => rfl
  scope _ d := NodeData.view_withScope d (fun _ _ form => by cases form <;> rfl) fun _ => rfl
  labelIndex _ d := NodeData.view_withLabelIndex d fun _ _ _ => rfl
  labels _ _ d :=
    NodeData.view_modifyBody d (fun _ _ _ => rfl) (fun _ _ _ _ _ => rfl) fun _ _ _ => rfl

end Simula
