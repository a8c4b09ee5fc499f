import Simula.Proofs.Check.Nesting

/-!
# Rules for calls

The check of a scope or statement goes down to some others and does little between them: it looks at
the tree, reports, and records where a node stands, what a block is connected to and which labels a
scope has. Many things can be told of such a check by telling them of the calls that it makes, if
only they hold for these few steps and go over from two actions to one after the other. The rules
that are needed are collected here, and the way down from scopes and statements is followed once for
all that obeys them.
-/

namespace Simula.CheckM

/-- Statements on the calls that actions make while a tree is checked. The steps of a check that are
no calls make none, and one action after another makes the calls of both. -/
structure CallRules (t₀ : Tree) (J : (α : Type) → List Call → CheckM α → CheckState → Prop) :
    Prop where
  bind : ∀ {α β : Type} {cs ds : List Call} {x : CheckM α} {f : α → CheckM β} {s : CheckState},
    J α cs x s → (∀ {a s'}, t₀.Refitted s'.tree → J β ds (f a) s') → J β (cs ++ ds) (x >>= f) s
  /-- Looking at the tree changes nothing. -/
  tree : ∀ {β : Type} {cs : List Call} {f : Tree → CheckM β} {s : CheckState},
    J β cs (f s.tree) s → J β cs (CheckM.tree >>= f) s
  onlyReports : ∀ {α : Type} {x : CheckM α} {s : CheckState},
    t₀.Refitted s.tree → OnlyReports x → J α [] x s
  connectedClass : ∀ {s : CheckState} (id : NodeId) (c : Option NodeId) (scope : NodeId),
    t₀.Refitted s.tree → J Unit [] (update id (withConnectedClass c scope)) s
  scope : ∀ {s : CheckState} (id scope : NodeId),
    t₀.Refitted s.tree → J Unit [] (update id (withScope scope)) s
  finishLabels : ∀ {s : CheckState} (scope : NodeId),
    t₀.Refitted s.tree → J Unit [] (CheckM.finishLabels scope) s
  /-- A mistake in the tree ends a check, but not because of its depth. -/
  throw : ∀ {α : Type} {cs : List Call} {e : Error} {s : CheckState},
    (∀ id, e ≠ .internal (.endlessNesting id)) → J α cs (throw e) s

/-- The statements hold for the calls themselves, to a given depth. -/
structure JudgesCalls (t₀ : Tree) (J : (α : Type) → List Call → CheckM α → CheckState → Prop)
    (within : NodeId → Prop) (depth : Nat) : Prop where
  scope : ∀ {id s}, within id → t₀.Refitted s.tree → J Unit [.scope id] (checkScope depth id) s
  statement : ∀ {scope id s}, within id → t₀.Refitted s.tree →
    J Unit [.statement id] (checkStatement depth scope id) s
  expression : ∀ {scope e s}, within e → t₀.Refitted s.tree →
    J Ty [.expression e] (typeExpr depth scope e) s

namespace CallRules

variable {t₀ : Tree} {J : (α : Type) → List Call → CheckM α → CheckState → Prop}
variable {α β : Type} {cs : List Call} {s : CheckState}
variable (hrules : CallRules t₀ J)
include hrules

/-- Steps that make no calls may come before. -/
theorem before {x : CheckM α} {f : α → CheckM β} (hx : J α [] x s)
    (hf : ∀ {a s'}, t₀.Refitted s'.tree → J β cs (f a) s') : J β cs (x >>= f) s :=
  hrules.bind hx hf

/-- Steps that make no calls may follow. -/
theorem andThen {x : CheckM α} {f : α → CheckM β} (hx : J α cs x s)
    (hf : ∀ {a s'}, t₀.Refitted s'.tree → J β [] (f a) s') : J β cs (x >>= f) s :=
  List.append_nil cs ▸ hrules.bind hx hf

/-- Going through a list makes the calls of its steps. -/
theorem forEach {step : NodeId → CheckM Unit} {calls : NodeId → List Call} {ids : List NodeId}
    (h : t₀.Refitted s.tree)
    (hstep : ∀ id ∈ ids, ∀ {s}, t₀.Refitted s.tree → J Unit (calls id) (step id) s) :
    J Unit (ids.flatMap calls) (CheckM.forEach step ids) s := by
  induction ids generalizing s with
  | nil => exact hrules.onlyReports h (.pure ())
  | cons id ids ih =>
    rw [List.flatMap_cons]
    refine hrules.bind (hstep id List.mem_cons_self h) fun h => ih h ?_
    exact fun id hid => hstep id (List.mem_cons_of_mem _ hid)

variable {within : NodeId → Prop} {depth : Nat}
variable (hcalls : JudgesCalls t₀ J within depth)
include hcalls

/-- Checking statements makes a call for each. -/
theorem statements {scope : NodeId} {ids : List NodeId} (h : t₀.Refitted s.tree)
    (hids : ∀ id ∈ ids, within id) :
    J Unit (ids.map .statement) (CheckM.forEach (checkStatement depth scope) ids) s := by
  rw [List.map_eq_flatMap]
  exact hrules.forEach h fun id hid {_} h => hcalls.statement (hids id hid) h

/-- Checking a condition makes a call for it. -/
theorem checkCondition {scope condition : NodeId} (h : t₀.Refitted s.tree)
    (hcondition : within condition) :
    J Unit [.expression condition] (CheckM.checkCondition depth scope condition) s := by
  refine hrules.andThen (hcalls.expression hcondition h) fun h => ?_
  split
  · exact hrules.onlyReports h (.pure _)
  · exact hrules.onlyReports h (.bind .tree fun _ => .report _ _)

variable (hregion : t₀.Region within)
include hregion

/-- Checking a branch of an inspect statement makes the calls of the branch. -/
theorem checkConnection {scope connection : NodeId} (objectType : Ty) (h : t₀.Refitted s.tree)
    (hconnection : within connection) :
    J Unit (t₀.nesting connection).callsBranch
      (CheckM.checkConnection (checkStatement depth) objectType scope connection) s := by
  refine hrules.tree ?_
  cases hdata : s.tree.data connection with
  | connection block =>
    have hnesting : t₀.nesting connection = .connection block.statement := by
      have hn : s.tree.nesting connection = .connection block.statement := by
        rw [Tree.nesting, hdata]
        rfl
      rw [h.nesting_eq (hregion.lt hconnection) (by simp [hn]), hn]
    have hclosed := hregion.closed hconnection
    rw [hnesting] at hclosed ⊢
    refine hrules.before (hrules.onlyReports h (connectedClass_settled _ _ _ _).onlyReports)
      fun {c _} h => ?_
    refine hrules.before (hrules.connectedClass connection c scope h) fun h => ?_
    cases hstatement : block.statement with
    | some statement =>
      rw [hstatement] at hclosed
      exact hcalls.statement (hclosed statement (List.mem_singleton_self _)) h
    | none => exact hrules.onlyReports h (.pure _)
  | _ => exact hrules.throw fun _ => by rintro ⟨⟩

/-- What a scope declares is checked as a scope or typed as a constant, or not at all. -/
theorem checkDeclared {scope decl : NodeId} (h : t₀.Refitted s.tree) (hdecl : within decl) :
    J Unit ((t₀.nesting decl).callsDeclared decl) (do
      match (← CheckM.tree).kind decl with
      | .classDeclaration | .procedure | .block => checkScope depth decl
      | .simpleVariable => checkConstantDeclaration depth scope decl
      | _ => pure ()) s := by
  have hclosed := hregion.closed hdecl
  have hold := h.old decl (hregion.lt hdecl)
  refine hrules.tree ?_
  rw [hold.callsDeclared_eq, Tree.nesting, Tree.kind]
  cases hdata : s.tree.data decl with
  | declaration i sc form =>
    have hnesting : t₀.nesting decl = (NodeData.declaration i sc form).nesting := by
      rw [← hdata]
      refine h.nesting_eq (hregion.lt hdecl) fun _ _ _ => ?_
      rw [Tree.nesting, hdata]
      exact NodeData.nesting_declaration_ne _ _ _ _
    cases form with
    | classDeclaration | procedure | block => exact hcalls.scope hdecl h
    | simpleVariable ty constant =>
      rw [hnesting] at hclosed
      refine hrules.tree ?_
      rw [hdata]
      cases constant with
      | none => exact hrules.onlyReports h (.pure _)
      | some e =>
        refine hrules.andThen (hcalls.expression (hclosed e List.mem_cons_self) h) fun h => ?_
        exact hrules.onlyReports h (.bind .tree fun _ =>
          (requireAssignable_settled _ _ _ _).onlyReports)
    | _ => exact hrules.onlyReports h (.pure _)
  | expression form ty => cases form <;> exact hrules.onlyReports h (.pure _)
  | statement form => cases form <;> exact hrules.onlyReports h (.pure _)
  | _ => exact hrules.onlyReports h (.pure _)

/-- A scope is checked by checking what it declares and its statements. -/
theorem checkScope {id : NodeId} (h : t₀.Refitted s.tree) (hid : within id) :
    J Unit (t₀.calls (.scope id)) (CheckM.checkScope (depth + 1) id) s := by
  have hold := h.old id (hregion.lt hid)
  have hclosed := hregion.closed hid
  refine hrules.tree ?_
  rw [Tree.calls, hold.declared_eq, hold.statements_eq, Tree.nesting, NodeData.declared_nesting,
    NodeData.statements_nesting]
  refine hrules.bind (hrules.forEach h fun decl hdecl {_} h =>
    hrules.checkDeclared hcalls hregion h ?_) fun h => ?_
  · refine hclosed decl (Nesting.declared_subset _ ?_)
    rw [hold.declared_eq, Tree.nesting, NodeData.declared_nesting]
    exact hdecl
  · refine hrules.andThen (hrules.statements hcalls h fun i hi => ?_) fun h =>
      hrules.finishLabels id h
    refine hclosed i (Nesting.statements_subset _ ?_)
    rw [hold.statements_eq, Tree.nesting, NodeData.statements_nesting]
    exact hi

/-- A statement is checked by checking what its form names. -/
theorem checkStatement {scope id : NodeId} (h : t₀.Refitted s.tree) (hid : within id) :
    J Unit (t₀.calls (.statement id)) (CheckM.checkStatement (depth + 1) scope id) s := by
  have hold := h.old id (hregion.lt hid)
  have hclosed := hregion.closed hid
  refine hrules.tree ?_
  rw [Tree.calls]
  cases hdata : s.tree.data id with
  | statement form =>
    have hnesting : t₀.nesting id = .statement form := by
      have hn : s.tree.nesting id = .statement form := by
        rw [Tree.nesting, hdata]
        rfl
      rw [h.nesting_eq (hregion.lt hid) (by simp [hn]), hn]
    rw [hnesting] at hclosed ⊢
    cases form with
    | standalone e | goto e =>
      exact hrules.andThen (hcalls.expression (hclosed e List.mem_cons_self) h) fun h =>
        hrules.onlyReports h (.pure _)
    | labeled labels inner => exact hcalls.statement (hclosed inner List.mem_cons_self) h
    | compound inner => exact hrules.statements hcalls h hclosed
    | dummy => exact hrules.onlyReports h (.pure _)
    | whileDo condition body =>
      obtain ⟨hcondition, hbody⟩ := List.forall_mem_cons.mp hclosed
      exact hrules.bind (hrules.checkCondition hcalls h hcondition) fun h =>
        hcalls.statement (hbody body List.mem_cons_self) h
    | ifThenElse condition thenBranch elseBranch =>
      obtain ⟨hcondition, hbranches⟩ := List.forall_mem_cons.mp hclosed
      obtain ⟨hthen, helse⟩ := List.forall_mem_cons.mp hbranches
      refine hrules.bind (hrules.checkCondition hcalls h hcondition) fun h => ?_
      exact hrules.bind (hcalls.statement hthen h) fun h => hrules.statements hcalls h helse
    | inspect object connections otherwise =>
      obtain ⟨hobject, hrest⟩ := List.forall_mem_cons.mp hclosed
      obtain ⟨hconnections, hotherwise⟩ := List.forall_mem_append.mp hrest
      refine hrules.bind (hcalls.expression hobject h) fun h => ?_
      refine hrules.bind (hrules.forEach h fun c hc {_} h =>
        hrules.checkConnection hcalls hregion _ h (hconnections c hc)) fun h => ?_
      exact hrules.statements hcalls h hotherwise
  | expression form stored =>
    have hform : s.tree.nesting id = .expression form := by
      rw [Tree.nesting, hdata]
      rfl
    obtain ⟨form₀, hform₀⟩ := (hform ▸ hold).exists_expression
    rw [hform₀]
    exact hrules.andThen (hcalls.expression hid h) fun h => hrules.onlyReports h (.pure _)
  | declaration i sc form =>
    have hnesting : t₀.nesting id = (NodeData.declaration i sc form).nesting := by
      rw [← hdata]
      refine h.nesting_eq (hregion.lt hid) fun _ _ _ => ?_
      rw [Tree.nesting, hdata]
      exact NodeData.nesting_declaration_ne _ _ _ _
    rw [hnesting]
    cases form with
    | classDeclaration | procedure | block =>
      exact hrules.before (hrules.scope id scope h) fun h => hcalls.scope hid h
    | _ => exact hrules.throw fun _ => by rintro ⟨⟩
  | _ => exact hrules.throw fun _ => by rintro ⟨⟩

end CallRules

end Simula.CheckM
