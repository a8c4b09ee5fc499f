import Simula.Proofs.Check.Preparation
import Simula.Proofs.Check.Termination
import Simula.Proofs.Graph.DepthFirst
import Simula.Proofs.Recording

/-!
# The scopes that a check enters

The classes of a module are collected on a walk along all children of its nodes, before anything is
looked at. The check of scopes and statements goes down another way, which starts from the module
too but follows declarations, statements and the branches of inspect statements, in a tree that it
changes while it goes. To tell what it enters it is written once more with a record of the scopes
entered and of the state at each entry, and the record is shown to make no difference. All scopes in
the record lie on the walk, and what the first phases have done with the classes is still there.
-/

namespace Simula

/-! ## What stays as it is -/

/-- What the check of scopes and statements goes down to. Expressions are typed and not entered. -/
def NodeData.descent (d : NodeData) : Nesting :=
  match d.nesting with
  | .expression _ => .leaf
  | n => n

/-- What is gone down to is nested in the node. -/
theorem NodeData.nodes_descent_subset (d : NodeData) : d.descent.nodes ⊆ d.nesting.nodes := by
  rw [descent]
  split
  · exact List.nil_subset _
  · exact List.Subset.refl _

/-- From a scope a check goes down to its declarations. -/
theorem NodeData.declared_descent (d : NodeData) :
    d.descent.declared = (d.declarations?.map (·.nodes)).getD [] := by
  rw [descent, ← declared_nesting]
  split
  · next hnesting => rw [hnesting]; rfl
  · rfl

/-- From a scope a check goes down to its statements. -/
theorem NodeData.statements_descent (d : NodeData) : d.descent.statements = d.statements := by
  rw [descent, ← statements_nesting]
  split
  · next hnesting => rw [hnesting]; rfl
  · rfl

/-- What is known of a node once its class is prepared and scopes are checked: where to go down,
whether it is a class, and the links that the first phases have recorded. -/
def NodeData.standing (d : NodeData) : Nesting × Bool × Option NodeId × Option NodeId :=
  (d.descent, d.class?.isSome, d.class?.bind (·.prefixClass), d.protectedBy?)

namespace CheckState

/-- The second state still shows what the first phases have recorded in the first, and all reports
of theirs. -/
structure Retains (s s' : CheckState) : Prop where
  standing : s.tree.Keeps NodeData.standing s'.tree
  reports : s.ReportsMore s'

instance : Std.Refl Retains := ⟨fun s => ⟨.refl s.tree, List.prefix_rfl⟩⟩

instance : Trans Retains Retains Retains :=
  ⟨fun h h' => ⟨h.standing.trans h'.standing, h.reports.trans h'.reports⟩⟩

/-- A change that does not show in the standing of nodes retains what has been recorded. -/
theorem Retains.update (s : CheckState) (id : NodeId) {f : NodeData → NodeData}
    (hf : ∀ d, (f d).standing = d.standing) : s.Retains (s.update id f) :=
  ⟨.update s.tree id hf, List.prefix_rfl⟩

end CheckState

/-- Typing retains what has been recorded. -/
theorem typingFrame_retains : TypingFrame CheckState.Retains where
  report s d := ⟨.refl s.tree, .report s d⟩
  expressionType s id _ := .update s id fun d => NodeData.view_withExpressionType d fun _ _ => rfl
  conversion s _ _ _ _ _ := ⟨(Tree.Keeps.push s.tree _).trans
    (.update _ _ fun d => NodeData.view_withAssigned d fun _ _ _ _ => rfl), List.prefix_rfl⟩

/-- Checking scopes and statements undoes nothing of what the first phases have done. -/
theorem scopeFrame_retains : ScopeFrame CheckState.Retains := by
  refine CheckFrame.scopeFrame ⟨typingFrame_retains.report,
    CheckM.typeExpr_follows typingFrame_retains, fun s id c scope => .update s id fun d => ?_,
    fun s id scope => .update s id fun d => ?_, fun s id index => .update s id fun d => ?_,
    fun s id f _ => .update s id fun d => ?_⟩
  · exact NodeData.view_withConnectedClass d fun _ _ => rfl
  · exact NodeData.view_withScope d (fun _ _ form => by cases form <;> rfl) fun _ => rfl
  · exact NodeData.view_withLabelIndex d fun _ _ _ => rfl
  · exact NodeData.view_modifyBody d (fun _ _ _ => rfl) (fun _ _ _ _ _ => rfl) fun _ _ _ => rfl

/-! ## The record -/

namespace CheckM

/-- The scopes that have been entered, each with the state at its entry. -/
abbrev Entries := List (NodeId × CheckState)

/-- An action of a check that keeps a record of the scopes entered. -/
abbrev ScopeRecorder := Recording Error CheckState (NodeId × CheckState)

open Recording (plain)

/-- Records that a scope is entered. -/
def enter (scope : NodeId) : ScopeRecorder Unit := Recording.note fun s => (scope, s)

/-- `checkConnection` with a record. -/
def recordConnection (recordStatement : NodeId → NodeId → ScopeRecorder Unit) (objectType : Ty)
    (scope connection : NodeId) : ScopeRecorder Unit := do
  let t ← plain tree
  match t.data connection with
  | .connection block =>
    let c ← plain (connectedClass block.whenClass objectType scope (t.line connection))
    plain (update connection (withConnectedClass c scope))
    match block.statement with
    | some statement => recordStatement connection statement
    | none => pure ()
  | _ => throw (.internal .notAConnection)

mutual

/-- `checkScope` with a record. -/
def recordScope : Nat → NodeId → ScopeRecorder Unit
  | 0, scope => do
    enter scope
    throw (.internal (.endlessNesting scope))
  | depth + 1, scope => do
    enter scope
    let data := (← plain tree).data scope
    ((data.declarations?.map (·.nodes)).getD []).forM fun decl => do
      match (← plain tree).kind decl with
      | .classDeclaration | .procedure | .block => recordScope depth decl
      | .simpleVariable => plain (checkConstantDeclaration depth scope decl)
      | _ => pure ()
    data.statements.forM (recordStatement depth scope)
    plain (finishLabels scope)

/-- `checkStatement` with a record. -/
def recordStatement : Nat → NodeId → NodeId → ScopeRecorder Unit
  | 0, _, id => throw (.internal (.endlessNesting id))
  | depth + 1, scope, id => do
    let data := (← plain tree).data id
    match data with
    | .statement (.standalone e) => discard <| plain (typeExpr depth scope e)
    | .statement (.ifThenElse condition thenBranch elseBranch) =>
      plain (checkCondition depth scope condition)
      recordStatement depth scope thenBranch
      elseBranch.toList.forM (recordStatement depth scope)
    | .statement (.whileDo condition body) =>
      plain (checkCondition depth scope condition)
      recordStatement depth scope body
    | .statement (.goto target) => discard <| plain (typeExpr depth scope target)
    | .statement (.labeled _ inner) => recordStatement depth scope inner
    | .statement (.compound inner) => inner.toList.forM (recordStatement depth scope)
    | .statement (.inspect object connections otherwise) =>
      let objectType ← plain (typeExpr depth scope object)
      connections.forM (recordConnection (recordStatement depth) objectType scope)
      otherwise.toList.forM (recordStatement depth scope)
    | .statement .dummy => pure ()
    | .expression _ _ => discard <| plain (typeExpr depth scope id)
    | _ =>
      if data.body?.isSome then
        plain (update id (withScope scope))
        recordScope depth id
      else throw (.internal (.notAStatement data.kind))

end

/-! ## The way down -/

section

variable {start : CheckState} {within : NodeId → Prop} {s : CheckState} {depth : Nat}

/-- What the record says: every scope that is entered is one of the given nodes, and the state at its
entry still shows what has been prepared. -/
def EntersWithin (start : CheckState) (within : NodeId → Prop) (_ : CheckState) (entered : Entries)
    (_ : CheckState) : Prop :=
  ∀ e ∈ entered, within e.1 ∧ start.Retains e.2

instance : RecordTrail (EntersWithin start within) where
  nil _ := List.forall_mem_nil _
  append h h' := List.forall_mem_append.mpr ⟨h, h'⟩

/-- An action that enters no scope is recorded as it is. -/
theorem records_plain {α : Type} (x : CheckM α) : Records (EntersWithin start within) (plain x) x s :=
  .plain x (List.forall_mem_nil _)

/-- Looking at the tree enters no scope. -/
theorem records_tree {β : Type} {f : Tree → ScopeRecorder β} {g : Tree → CheckM β}
    (h : Records (EntersWithin start within) (f s.tree) (g s.tree) s) :
    Records (EntersWithin start within) (plain tree >>= f) (tree >>= g) s :=
  .bind (records_plain tree) fun htree => by cases htree; exact h

/-- The type of an expression is not looked at when the expression stands alone. -/
theorem records_discard {α : Type} (x : CheckM α) :
    Records (EntersWithin start within) (Functor.discard (plain x)) (Functor.discard x) s :=
  .bind (records_plain x) fun _ => .pure _

/-- A scope that is entered is recorded. -/
theorem records_enter {α : Type} {id : NodeId} {x : ScopeRecorder α} {y : CheckM α} (hid : within id)
    (hs : start.Retains s) (h : Records (EntersWithin start within) x y s) :
    Records (EntersWithin start within) (do enter id; x) y s :=
  .note (List.forall_mem_singleton.mpr ⟨hid, hs⟩) h

/-- What a step of the check leads to still shows what has been prepared. -/
theorem retains_of_ok {α : Type} {x : CheckM α} {a : α} {s' : CheckState} (h : start.Retains s)
    (hx : Follows CheckState.Retains x) (hok : x s = .ok a s') : start.Retains s' :=
  Trans.trans h (hx.of_ok hok)

/-- Checks to a given depth do with a record what they do without, and enter the given nodes
only. -/
structure RecordsCalls (start : CheckState) (within : NodeId → Prop) (depth : Nat) : Prop where
  scope : ∀ {id s}, within id → start.Retains s →
    Records (EntersWithin start within) (recordScope depth id) (checkScope depth id) s
  statement : ∀ {scope id s}, within id → start.Retains s →
    Records (EntersWithin start within) (recordStatement depth scope id)
      (checkStatement depth scope id) s

/-- Each step of a list is recorded. -/
theorem records_forEach {x : NodeId → ScopeRecorder Unit} {y : NodeId → CheckM Unit}
    {ids : List NodeId} (h : start.Retains s) (hy : ∀ id, Follows CheckState.Retains (y id))
    (hrecords : ∀ id ∈ ids, ∀ {s}, start.Retains s →
      Records (EntersWithin start within) (x id) (y id) s) :
    Records (EntersWithin start within) (ids.forM x) (forEach y ids) s := by
  induction ids generalizing s with
  | nil => exact .pure ()
  | cons id ids ih =>
    refine .bind (hrecords id List.mem_cons_self h) fun hok => ih (retains_of_ok h (hy id) hok) ?_
    exact fun i hi => hrecords i (List.mem_cons_of_mem _ hi)

section

variable (hcalls : RecordsCalls start within depth)
include hcalls

/-- Recording the statements of a list is checking them. -/
theorem records_statements {scope : NodeId} {ids : List NodeId} (h : start.Retains s)
    (hids : ∀ id ∈ ids, within id) :
    Records (EntersWithin start within) (ids.forM (recordStatement depth scope))
      (forEach (checkStatement depth scope) ids) s :=
  records_forEach h ((checkWithin_follows scopeFrame_retains depth).2 scope) fun id hid {_} h =>
    hcalls.statement (hids id hid) h

variable (hregion : start.tree.Region within)
include hregion

omit hcalls in
/-- Scopes and statements lead to the given nodes whatever the check has changed so far. -/
theorem within_of_mem_descent (h : start.Retains s) {id n : NodeId} (hid : within id)
    (hn : n ∈ (s.tree.data id).descent.nodes) : within n := by
  have hstanding := h.standing.same id (hregion.lt hid)
  have hdescent : (s.tree.data id).descent = (start.tree.data id).descent :=
    congrArg Prod.fst hstanding
  rw [hdescent] at hn
  exact hregion.closed hid n (NodeData.nodes_descent_subset _ hn)

/-- Recording a branch of an inspect statement is checking it. -/
theorem records_connection {objectType : Ty} {scope connection : NodeId} (h : start.Retains s)
    (hconnection : within connection) :
    Records (EntersWithin start within)
      (recordConnection (recordStatement depth) objectType scope connection)
      (checkConnection (checkStatement depth) objectType scope connection) s := by
  have hwithin := fun {n} => within_of_mem_descent hregion (n := n) h hconnection
  refine records_tree ?_
  cases hdata : s.tree.data connection with
  | connection block =>
    rw [hdata] at hwithin
    refine .bind (records_plain _) fun {c _} hclass => .bind (records_plain _) fun hupdate => ?_
    have h₁ := retains_of_ok h ((connectedClass_settled _ _ _ _).follows scopeFrame_retains.report)
      hclass
    have h₂ := retains_of_ok h₁
      (update_follows fun s => scopeFrame_retains.connectedClass s connection c scope) hupdate
    cases hinner : block.statement with
    | none => exact .pure ()
    | some statement =>
      refine hcalls.statement (hwithin ?_) h₂
      rw [NodeData.descent, NodeData.nesting, hinner]
      exact List.mem_singleton_self _
  | _ => exact .throw _

omit hregion in
/-- Recording what is declared in a scope is checking it. -/
theorem records_declared {scope decl : NodeId} (h : start.Retains s) (hdecl : within decl) :
    Records (EntersWithin start within)
      (do
        match (← plain tree).kind decl with
        | .classDeclaration | .procedure | .block => recordScope depth decl
        | .simpleVariable => plain (checkConstantDeclaration depth scope decl)
        | _ => pure ())
      (do
        match (← tree).kind decl with
        | .classDeclaration | .procedure | .block => checkScope depth decl
        | .simpleVariable => checkConstantDeclaration depth scope decl
        | _ => pure ()) s := by
  refine records_tree ?_
  split
  · exact hcalls.scope hdecl h
  · exact hcalls.scope hdecl h
  · exact hcalls.scope hdecl h
  · exact records_plain _
  · exact .pure ()

/-- Recording a scope is checking it, with one entry more. -/
theorem records_scope {id : NodeId} (h : start.Retains s) (hid : within id) :
    Records (EntersWithin start within) (recordScope (depth + 1) id)
      (checkScope (depth + 1) id) s := by
  have hwithin := fun {n} => within_of_mem_descent hregion (n := n) h hid
  have hdeclared := checkDeclared_follows scopeFrame_retains
    (checkWithin_follows scopeFrame_retains depth).1 id
  refine records_enter hid h (records_tree (.bind ?_ fun hok => .bind ?_ fun _ => records_plain _))
  · refine records_forEach h hdeclared fun decl hdecl {_} h =>
      records_declared hcalls h (hwithin ?_)
    rw [← NodeData.declared_descent] at hdecl
    exact Nesting.declared_subset _ hdecl
  · refine records_statements hcalls (retains_of_ok h (forEach_follows hdeclared _) hok) fun i hi =>
      hwithin ?_
    rw [← NodeData.statements_descent] at hi
    exact Nesting.statements_subset _ hi

/-- Recording a statement is checking it. -/
theorem records_statement {scope id : NodeId} (h : start.Retains s) (hid : within id) :
    Records (EntersWithin start within) (recordStatement (depth + 1) scope id)
      (checkStatement (depth + 1) scope id) s := by
  have hwithin := fun {n} => within_of_mem_descent hregion (n := n) h hid
  have hframe := scopeFrame_retains
  obtain ⟨-, hstatements⟩ := checkWithin_follows hframe depth
  refine records_tree ?_
  cases hdata : s.tree.data id with
  | statement form =>
    rw [hdata] at hwithin
    have hchildren : ∀ n ∈ form.children, within n := fun n hn => hwithin hn
    cases form with
    | standalone e | goto e => exact records_discard _
    | labeled labels inner => exact hcalls.statement (hchildren inner List.mem_cons_self) h
    | compound inner => exact records_statements hcalls h hchildren
    | dummy => exact .pure ()
    | whileDo condition body =>
      obtain ⟨-, hbody⟩ := List.forall_mem_cons.mp hchildren
      exact .bind (records_plain _) fun hok => hcalls.statement (hbody body List.mem_cons_self)
        (retains_of_ok h (checkCondition_follows hframe _ _ _) hok)
    | ifThenElse condition thenBranch elseBranch =>
      obtain ⟨-, hbranches⟩ := List.forall_mem_cons.mp hchildren
      obtain ⟨hthen, helse⟩ := List.forall_mem_cons.mp hbranches
      refine .bind (records_plain _) fun hok => ?_
      have h₁ := retains_of_ok h (checkCondition_follows hframe _ _ _) hok
      exact .bind (hcalls.statement hthen h₁) fun hok =>
        records_statements hcalls (retains_of_ok h₁ (hstatements _ _) hok) helse
    | inspect object connections otherwise =>
      obtain ⟨-, hrest⟩ := List.forall_mem_cons.mp hchildren
      obtain ⟨hconnections, hotherwise⟩ := List.forall_mem_append.mp hrest
      refine .bind (records_plain _) fun {objectType _} hok => ?_
      have h₁ := retains_of_ok h (hframe.typing _ _ _) hok
      have hbranch := checkConnection_follows hframe hstatements objectType scope
      refine .bind (records_forEach h₁ hbranch fun c hc {_} h =>
        records_connection hcalls hregion h (hconnections c hc)) fun hok => ?_
      exact records_statements hcalls (retains_of_ok h₁ (forEach_follows hbranch _) hok) hotherwise
  | expression form stored => exact records_discard _
  | _ =>
    dsimp only
    split
    · refine .bind (records_plain _) fun hok => hcalls.scope hid ?_
      exact retains_of_ok h (update_follows fun s => hframe.scope s id scope) hok
    · exact .throw _

end

/-- Checking with a record is checking, and the scopes that are entered are among the given
nodes. -/
theorem recordsCalls (hregion : start.tree.Region within) (depth : Nat) :
    RecordsCalls start within depth := by
  induction depth with
  | zero => exact ⟨fun hid h => records_enter hid h (.throw _), fun _ _ => .throw _⟩
  | succ depth ih =>
    exact ⟨fun hid h => records_scope ih hregion h hid,
      fun hid h => records_statement ih hregion h hid⟩

end

end CheckM

/-! ## The classes of a module -/

/-- The nodes that the nesting of a node names are among its children. -/
theorem NodeData.nodes_nesting_subset_children (d : NodeData) : d.nesting.nodes ⊆ d.children := by
  have hbody : ∀ b : Body, b.nesting.nodes ⊆ b.children := fun b =>
    List.append_subset.mpr ⟨fun _ hid => List.mem_append_left _ (List.mem_append_left _ hid),
      List.subset_append_right _ _⟩
  rcases d with _ | ⟨i, scope, form⟩ | b | form | ⟨form, ty⟩
  case declaration =>
    cases form with
    | classDeclaration c => exact fun _ hid => List.mem_append_right _ (hbody c.body hid)
    | procedure ty ps b => exact fun _ hid => List.mem_append_right _ (hbody b hid)
    | block b => exact hbody b
    | simpleVariable ty constant => exact List.Subset.refl _
    | _ => exact List.nil_subset _
  all_goals exact List.Subset.refl _

namespace Tree

variable {t : Tree}

/-- What can be reached along children is a region of the tree. -/
theorem region_reaches (hchildren : ∀ id < t.size, ∀ n ∈ t.children id, n < t.size)
    (roots : List NodeId) : t.Region (Graph.Reaches t.size t.children roots) where
  lt hid := by cases hid <;> assumption
  closed {id} hid n hn := by
    have hlt : id < t.size := by cases hid <;> assumption
    have hchild : n ∈ t.children id := NodeData.nodes_nesting_subset_children _ hn
    exact .step hid hchild (hchildren id hlt n hchild)

/-- The classes below a node are those that its children lead to. -/
theorem mem_classesBelow_iff {root c : NodeId} : c ∈ t.classesBelow root ↔
    t.isClass c = true ∧ Graph.Reaches t.size t.children [root] c := by
  rw [classesBelow, List.mem_filter, Graph.mem_preorder_iff, and_comm]

end Tree

/-- Preparing classes makes no node a class. -/
theorem CheckState.isClass_prepareClasses {s : CheckState} {c : NodeId} (hc : c < s.tree.size)
    (module : NodeId) : (s.prepareClasses module).tree.isClass c = s.tree.isClass c := by
  have hkeeps : s.Keeps (·.class?.isSome) (s.prepareClasses module) := by
    refine prepareClasses_keeps (fun _ d => ?_) (fun _ d => ?_) (fun _ d => ?_) s module
    · exact NodeData.view_modifyClass (v := (·.class?.isSome)) d fun _ _ _ => rfl
    · exact NodeData.view_withProtectedBy (v := (·.class?.isSome)) d fun _ _ _ => rfl
    · exact NodeData.view_withHiddenBy (v := (·.class?.isSome)) d fun _ _ _ => rfl
  exact hkeeps.same c hc

namespace CheckM

/-- A block with a class `A` that is its own prefix and hides `X` without protecting it. In a branch
of its inspect statement stands a block with a class `B`, and the body of `B` is that same inspect
statement. -/
def inspectedInside : CheckState where
  tree := { nodes := #[
    ⟨1, .declaration "MAIN" none (.block { declarations := ⟨#[("A", 1)]⟩, statements := #[3] })⟩,
    ⟨2, .declaration "A" (some 0) (.classDeclaration { prefixName := some "A", hidden := #[2] })⟩,
    ⟨2, .declaration "X" (some 1) (.hiddenSpec none)⟩,
    ⟨3, .statement (.inspect 4 [5] none)⟩,
    ⟨3, .expression (.nameUse "R" []) .undefined⟩,
    ⟨4, .connection { declaredIn := some 0, statement := some 6 }⟩,
    ⟨4, .declaration "" (some 5) (.block { declarations := ⟨#[("B", 7)]⟩ })⟩,
    ⟨5, .declaration "B" (some 6) (.classDeclaration
      { prefixName := some "A", body := { statements := #[3] } })⟩] }

end CheckM

end Simula
