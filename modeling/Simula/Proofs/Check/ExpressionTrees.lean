import Mathlib.Data.List.Nodup
import Simula.Proofs.Check.ReferenceAssignments
import Simula.Proofs.Check.Views

/-!
# Types in a tree of expressions

Typing an expression stores the types of all expressions below it. Where these form a tree, in which
no node is met twice, the stored types explain the outcome: each node has the type that its form
gives to it from the types of the nodes below it, and the reports are those that each node gives
rise to, in the order in which the nodes are typed. So what typing does can be told node by node,
with no regard to the states that it passes through.
-/

namespace Simula

/-- Reports are appended in their order. -/
theorem Diagnostics.entries_foldl_report (ds : List Diagnostic) (before : Diagnostics) :
    (ds.foldl Diagnostics.report before).entries.toList = before.entries.toList ++ ds := by
  induction ds generalizing before with
  | nil => simp
  | cons d ds ih => rw [List.foldl_cons, ih]; simp [Diagnostics.report]

/-! ## Trees of expressions -/

/-- The expressions directly below an expression whose types count for its own type. -/
def Expression.operands : Expression → List NodeId
  | binary _ lhs rhs | assignment _ lhs rhs => [lhs, rhs]
  | unary _ operand => [operand]
  | remote object _ _ | qualified object _ | relation _ object _ => [object]
  | constant _ | nameUse _ _ | generator _ _ | conversion _ _ => []

namespace Tree

/-- The nodes of an expression in the order in which they are typed: those of the expressions below
it one after the other, and then the expression itself. -/
inductive Spans (t : Tree) : NodeId → List NodeId → Prop
  | node {e : NodeId} {form : Expression} {ty : Ty} (nodesOf : NodeId → List NodeId)
      (hdata : t.data e = .expression form ty)
      (hbelow : ∀ c ∈ form.children, t.Spans c (nodesOf c)) :
      t.Spans e (form.children.flatMap nodesOf ++ [e])

namespace Spans

variable {t t' : Tree} {e : NodeId} {ns : List NodeId}

/-- An expression without parts spans itself alone. -/
theorem leaf {form : Expression} {ty : Ty} (hdata : t.data e = .expression form ty)
    (hform : form.children = []) : t.Spans e [e] := by
  have hnode := Spans.node (t := t) (fun _ => []) hdata (by simp [hform])
  rwa [hform] at hnode

/-- An expression with two parts spans what they span, and then itself. -/
theorem pair {form : Expression} {ty : Ty} {x y : NodeId} {ms : List NodeId}
    (hdata : t.data e = .expression form ty) (hform : form.children = [x, y]) (hne : x ≠ y)
    (hx : t.Spans x ms) (hy : t.Spans y ns) : t.Spans e (ms ++ ns ++ [e]) := by
  have hnode := Spans.node (t := t) (fun c => if c = x then ms else ns) hdata (by
    simpa [hform, hne.symm] using ⟨hx, hy⟩)
  simpa [hform, hne.symm] using hnode

/-- An expression spans itself. -/
theorem mem_self (h : t.Spans e ns) : e ∈ ns := by
  cases h
  exact List.mem_append_right _ (List.mem_singleton_self e)

/-- What spans nodes is an expression. -/
theorem expression (h : t.Spans e ns) : ∃ form ty, t.data e = .expression form ty := by
  cases h with
  | node _ hdata _ => exact ⟨_, _, hdata⟩

/-- Each node of an expression is an expression with nodes of its own. -/
theorem of_mem (h : t.Spans e ns) {b : NodeId} (hb : b ∈ ns) :
    ∃ ms, t.Spans b ms ∧ ms.Sublist ns := by
  induction h with
  | @node e form ty nodesOf hdata hbelow ih =>
    rcases List.mem_append.mp hb with hb | hb
    · obtain ⟨c, hc, hbc⟩ := List.mem_flatMap.mp hb
      obtain ⟨ms, hms, hsub⟩ := ih c hc hbc
      refine ⟨ms, hms, (hsub.trans ?_).trans (List.sublist_append_left _ _)⟩
      exact List.sublist_flatten_of_mem (List.mem_map_of_mem hc)
    · obtain rfl := List.mem_singleton.mp hb
      exact ⟨_, .node nodesOf hdata hbelow, List.Sublist.refl _⟩

/-- All nodes that an expression spans are in the tree. -/
theorem lt_size (h : t.Spans e ns) {b : NodeId} (hb : b ∈ ns) : b < t.size := by
  obtain ⟨ms, hms, -⟩ := h.of_mem hb
  obtain ⟨form, ty, hdata⟩ := hms.expression
  exact lt_of_data (by simp [hdata])

/-- A tree without sharing has no more nodes than there are. -/
theorem length_le (h : t.Spans e ns) (hnodup : ns.Nodup) : ns.length ≤ t.size := by
  have hsub : ns ⊆ List.range t.size := fun b hb => List.mem_range.mpr (h.lt_size hb)
  simpa using (List.subperm_of_subset hnodup hsub).length_le

/-- The nodes are the same where the forms have the same nodes below them. -/
theorem congr (h : t.Spans e ns) (hsame : ∀ b ∈ ns, ∀ form ty, t.data b = .expression form ty →
    ∃ form' ty', t'.data b = .expression form' ty' ∧ form'.children = form.children) :
    t'.Spans e ns := by
  induction h with
  | @node e form ty nodesOf hdata hbelow ih =>
    obtain ⟨form', ty', hdata', hchildren⟩ := hsame e (by simp) form ty hdata
    rw [← hchildren]
    refine .node nodesOf hdata' fun c hc => ?_
    rw [hchildren] at hc
    refine ih c hc fun b hb => hsame b (List.mem_append_left _ ?_)
    exact List.mem_flatMap.mpr ⟨c, hc, hb⟩

/-- Under a run of conversions there is an expression whose nodes come first. -/
theorem underConversionsWithin (h : t.Spans e ns) {k : Nat} (hk : ns.length ≤ k) :
    ∃ ms conversions, t.Spans (CheckM.underConversionsWithin t k e) ms ∧ ns = ms ++ conversions ∧
      ∀ b ∈ conversions, ∃ x kind ty, t.data b = .expression (.conversion x kind) ty := by
  induction h generalizing k with
  | @node e form ty nodesOf hdata hbelow ih =>
    obtain ⟨k, rfl⟩ : ∃ k', k = k' + 1 := Nat.exists_eq_add_one.mpr (by simp at hk; omega)
    rw [CheckM.underConversionsWithin, hdata]
    cases form with
    | conversion x kind =>
      simp only [Expression.children, List.flatMap_cons, List.flatMap_nil, List.append_nil,
        List.length_append, List.length_singleton] at hk ih ⊢
      obtain ⟨ms, conversions, hms, heq, hall⟩ := ih x (List.mem_singleton_self x)
        (Nat.le_of_succ_le_succ hk)
      refine ⟨ms, conversions ++ [e], hms, by rw [heq, List.append_assoc], fun b hb => ?_⟩
      rcases List.mem_append.mp hb with hb | hb
      · exact hall b hb
      · exact ⟨x, kind, ty, List.mem_singleton.mp hb ▸ hdata⟩
    | _ => exact ⟨_, [], .node nodesOf hdata hbelow, by simp, nofun⟩

/-- What is under a run of conversions does not depend on the nodes elsewhere. -/
theorem underConversionsWithin_congr (h : t.Spans e ns) (hsame : ∀ b ∈ ns, t'.data b = t.data b)
    {k k' : Nat} (hk : ns.length ≤ k) (hk' : ns.length ≤ k') :
    CheckM.underConversionsWithin t' k' e = CheckM.underConversionsWithin t k e := by
  induction h generalizing k k' with
  | @node e form ty nodesOf hdata hbelow ih =>
    obtain ⟨k, rfl⟩ : ∃ n, k = n + 1 := Nat.exists_eq_add_one.mpr (by simp at hk; omega)
    obtain ⟨k', rfl⟩ : ∃ n, k' = n + 1 := Nat.exists_eq_add_one.mpr (by simp at hk'; omega)
    rw [CheckM.underConversionsWithin, CheckM.underConversionsWithin, hsame e (by simp), hdata]
    cases form with
    | conversion x kind =>
      simp only [Expression.children, List.flatMap_cons, List.flatMap_nil, List.append_nil,
        List.length_append, List.length_singleton] at hk hk' hsame ih
      exact ih x (List.mem_singleton_self x) (fun b hb => hsame b (List.mem_append_left _ hb))
        (Nat.le_of_succ_le_succ hk) (Nat.le_of_succ_le_succ hk')
    | _ => rfl

end Spans

end Tree

/-! ## One node -/

namespace CheckM

/-- What an action gives and reports on a tree. -/
def outcome (x : CheckM Ty) (t : Tree) : Ty × List Diagnostic :=
  match x { tree := t } with
  | .ok ty s => (ty, s.diagnostics.entries.toList)
  | .error _ s => (.undefined, s.diagnostics.entries.toList)

/-- The type and the reports of an action that succeeds make its outcome. -/
theorem outcome_of_ok {x : CheckM Ty} {t : Tree} {ty : Ty} {s : CheckState} {ds : List Diagnostic}
    (hx : x { tree := t } = .ok ty s) (hs : s.diagnostics = ds.foldl Diagnostics.report {}) :
    outcome x t = (ty, ds) := by
  simp only [outcome, hx, hs, Diagnostics.entries_foldl_report]
  rfl

/-- The later tree differs from the earlier one in one node and in new nodes only, and the types
that nodes have are the same. -/
structure Alters (id : NodeId) (t t' : Tree) : Prop where
  size_le : t.size ≤ t'.size
  others : ∀ b < t.size, b ≠ id → t'.nodes[b]? = t.nodes[b]?
  types : ∀ b < t.size, (t'.data b).expressionType? = (t.data b).expressionType?

/-- A tree that is left alone is altered nowhere. -/
theorem Alters.refl (id : NodeId) (t : Tree) : Alters id t t :=
  ⟨Nat.le_refl _, fun _ _ _ => rfl, fun _ _ => rfl⟩

/-- An action does at a state what it does on a tree, with no more than one node altered. -/
structure Finishes (x : CheckM Ty) (t : Tree) (id : NodeId) (s s' : CheckState) : Prop where
  run : x s = .ok (outcome x t).1 s'
  reports : s'.diagnostics = (outcome x t).2.foldl Diagnostics.report s.diagnostics
  alters : Alters id s.tree s'.tree

/-- A settled action ends with its outcome, whatever else is in the state. -/
theorem Settled.finishes {x : CheckM Ty} (h : Settled x) {t : Tree} {s : CheckState}
    (hview : t.SameView s.tree) (id : NodeId) : ∃ s', Finishes x t id s s' := by
  obtain ⟨a, ds, hsettles⟩ := h t
  have houtcome : outcome x t = (a, ds) := outcome_of_ok (hsettles _ (.refl t)) rfl
  refine ⟨{ s with diagnostics := ds.foldl Diagnostics.report s.diagnostics }, ?_, ?_,
    .refl id s.tree⟩
  · rw [houtcome, hsettles s hview]
  · rw [houtcome]

/-- How the refusal of an assignment is reported. -/
def refusal : AssignOp → Ty → Ty → Finding
  | .reference, value, target => .illegalReferenceConversion value target
  | .value, value, target => .incompatibleTypes value target

/-- The reports on an assignment, by the types of its sides. -/
def assignmentReports (classes : ClassView) (op : AssignOp) (target value : Ty) (line : Nat) :
    List Diagnostic :=
  if value.isUndefined || target.isUndefined then []
  else if value.conversionTo classes target = .illegal then
    [(refusal op value target).onLine line]
  else []

/-- Inserting a conversion alters the assignment and adds one node. -/
theorem alters_insertConversion (t : Tree) (id rhs : NodeId) (kind : ConversionKind) (target : Ty)
    (line : Nat) : Alters id t ((t.push ⟨line, .expression (.conversion rhs kind) target⟩).update id
      (withAssigned t.size)) where
  size_le := by simp
  others b hb hne := (Tree.nodes_update_of_ne _ hne).trans (Tree.nodes_push_of_lt _ hb)
  types b hb := by
    have hkept : ∀ d, (withAssigned t.size d).expressionType? = d.expressionType? := by
      rintro (_ | _ | _ | _ | ⟨form, _⟩)
      case expression => cases form <;> rfl
      all_goals rfl
    rw [Tree.view_update _ id hkept b, Tree.data_push, if_neg (Nat.ne_of_lt hb)]

/-- An assignment has the type of its target. It may get a conversion around its value. -/
theorem assignmentType_run (id : NodeId) (op : AssignOp) (rhs : NodeId) (target value : Ty)
    (scope : NodeId) (line : Nat) (s : CheckState) :
    ∃ s', assignmentType id op rhs target value scope line s = .ok target s' ∧
      s'.diagnostics = (assignmentReports (s.tree.classView scope) op target value line).foldl
        Diagnostics.report s.diagnostics ∧ Alters id s.tree s'.tree := by
  unfold assignmentType assignmentReports
  dsimp only
  split
  · exact ⟨s, rfl, rfl, .refl id s.tree⟩
  · rw [bind_of_ok (show conversionIn scope value target s =
      .ok (value.conversionTo (s.tree.classView scope) target) s from rfl)]
    cases value.conversionTo (s.tree.classView scope) target with
    | directAssignable => exact ⟨s, rfl, rfl, .refl id s.tree⟩
    | convertValue | convertRef =>
      exact ⟨_, rfl, rfl, alters_insertConversion s.tree id rhs _ target line⟩
    | illegal => cases op <;> exact ⟨_, rfl, rfl, .refl id s.tree⟩

/-- An assignment has the type of its left side, and what is reported does not depend on the
tree. -/
theorem outcome_assignmentType (id : NodeId) (op : AssignOp) (rhs : NodeId) (target value : Ty)
    (scope : NodeId) (line : Nat) (t : Tree) :
    outcome (assignmentType id op rhs target value scope line) t =
      (target, assignmentReports (t.classView scope) op target value line) := by
  obtain ⟨s', hrun, hreports, -⟩ :=
    assignmentType_run id op rhs target value scope line { tree := t }
  exact outcome_of_ok hrun hreports

/-- Typing expressions whose types are known does nothing. -/
@[simp] theorem typeAll_pure (types : NodeId → Ty) (ids : List NodeId) :
    typeAll (fun c => pure (types c)) ids = pure () := by
  induction ids with
  | nil => rfl
  | cons id ids ih => exact ih

/-- Once the types of the expressions below it are known, a node that is no assignment is typed by
looking things up and reporting. -/
theorem formType_settled (types : NodeId → Ty) (scope id : NodeId) (line : Nat) (stored : Ty)
    {form : Expression} (h : ∀ op lhs rhs, form ≠ .assignment op lhs rhs) :
    Settled (formType (fun c => pure (types c)) scope id line stored form) := by
  cases form with
  | constant value => exact .pure _
  | nameUse x arguments =>
    rw [formType, typeAll_pure]
    exact nameType_settled x scope line
  | binary op lhs rhs => exact binaryType_settled _ _ _ _ _
  | unary op operand => exact unaryType_settled _ _ _
  | generator className arguments =>
    rw [formType, typeAll_pure]
    exact classType_settled className scope line
  | remote object attr arguments =>
    rw [formType, typeAll_pure]
    exact remoteType_settled (types object) attr scope line
  | qualified object className | relation op object className =>
    exact .bind (.pure _) fun _ => .bind (classType_settled _ _ _) fun _ =>
      .bind (checkReferenceTest_settled _ _ _ _ _) fun _ => .pure _
  | conversion expression kind => exact .tree (fun _ _ _ => rfl) fun _ => .pure _
  | assignment op lhs rhs => exact absurd rfl (h op lhs rhs)

/-- Once the types of the expressions below it are known, a node is typed as on any tree with the
same view. -/
theorem formType_finishes {t : Tree} {s : CheckState} (hview : t.SameView s.tree)
    (types : NodeId → Ty) (scope id : NodeId) (line : Nat) (stored : Ty) (form : Expression) :
    ∃ s', Finishes (formType (fun c => pure (types c)) scope id line stored form) t id s s' := by
  by_cases hassigns : ∃ op lhs rhs, form = .assignment op lhs rhs
  · obtain ⟨op, lhs, rhs, rfl⟩ := hassigns
    obtain ⟨s', hrun, hreports, halters⟩ :=
      assignmentType_run id op rhs (types lhs) (types rhs) scope line s
    have houtcome := outcome_assignmentType id op rhs (types lhs) (types rhs) scope line t
    refine ⟨s', ?_, ?_, halters⟩
    · change assignmentType id op rhs (types lhs) (types rhs) scope line s =
        .ok (outcome (assignmentType id op rhs (types lhs) (types rhs) scope line) t).1 s'
      rw [houtcome, hrun]
    · change s'.diagnostics = (outcome (assignmentType id op rhs (types lhs) (types rhs) scope
        line) t).2.foldl _ _
      rw [houtcome, hreports, hview.classView]
  · refine (formType_settled types scope id line stored fun op lhs rhs h => ?_).finishes hview id
    exact hassigns ⟨op, lhs, rhs, h⟩

/-- The outcome of an expression depends only on the view of the tree and the types of its parts. -/
theorem outcome_formType {t t' : Tree} (hview : t.SameView t') (types : NodeId → Ty)
    (scope id : NodeId) (line : Nat) (stored : Ty) (form : Expression) :
    outcome (formType (fun c => pure (types c)) scope id line stored form) t' =
      outcome (formType (fun c => pure (types c)) scope id line stored form) t := by
  obtain ⟨s', hfinishes⟩ :=
    formType_finishes (s := { tree := t' }) hview types scope id line stored form
  exact outcome_of_ok hfinishes.run hfinishes.reports

/-! ## The nodes below -/

/-- The types of some expressions, which are typed one after the other. -/
def typesOf (typeOf : NodeId → CheckM Ty) : List NodeId → CheckM (NodeId → Ty)
  | [] => pure fun _ => .undefined
  | e :: rest => do
    let ty ← typeOf e
    let types ← typesOf typeOf rest
    return Function.update types e ty

/-- A result is discarded by going on without it. -/
theorem discard_eq {α : Type} (x : CheckM α) : discard x = (x >>= fun _ => pure ()) := by
  rw [discard, map_const, Function.comp_apply, map_eq_pure_bind]

/-- Typing expressions is finding their types and forgetting them. -/
theorem typeAll_eq (typeOf : NodeId → CheckM Ty) (ids : List NodeId) :
    typeAll typeOf ids = (typesOf typeOf ids >>= fun _ => pure ()) := by
  induction ids with
  | nil => rfl
  | cons id ids ih =>
    rw [typeAll, typesOf, ih, discard_eq]
    simp only [bind_assoc, pure_bind]

/-- The expressions that are typed for the type of an expression of a form. -/
def typedParts (t : Tree) : Expression → List NodeId
  | .conversion e _ => [underConversions t e]
  | form => form.children

/-- An expression is typed by typing the expressions below it and then looking at their types. -/
theorem formType_eq (typeOf : NodeId → CheckM Ty) (scope id : NodeId) (line : Nat) (stored : Ty)
    {form : Expression} {s : CheckState} (hnodup : (typedParts s.tree form).Nodup) :
    formType typeOf scope id line stored form s =
      (typesOf typeOf (typedParts s.tree form) >>= fun types =>
        formType (fun c => pure (types c)) scope id line stored form) s := by
  cases form with
  | constant value => rfl
  | nameUse x arguments => simp [formType, typeAll_eq typeOf, typedParts, Expression.children]
  | binary op lhs rhs =>
    have hne : rhs ≠ lhs := by
      simp [typedParts, Expression.children] at hnodup
      exact Ne.symm hnodup
    simp [formType, typesOf, typedParts, Expression.children, Function.update_of_ne hne]
  | unary op operand => simp [formType, typesOf, typedParts, Expression.children]
  | assignment op lhs rhs =>
    have hne : rhs ≠ lhs := by
      simp [typedParts, Expression.children] at hnodup
      exact Ne.symm hnodup
    simp [formType, typesOf, typedParts, Expression.children, Function.update_of_ne hne]
  | generator className arguments =>
    simp [formType, typeAll_eq typeOf, typedParts, Expression.children]
  | remote object attr arguments =>
    simp [formType, typeAll_eq typeOf, typesOf, typedParts, Expression.children]
  | qualified object className => simp [formType, typesOf, typedParts, Expression.children]
  | relation op object className => simp [formType, typesOf, typedParts, Expression.children]
  | conversion expression kind =>
    rw [formType, bind_of_ok (show tree s = .ok s.tree s from rfl)]
    simp only [typedParts, typesOf, formType, discard_eq, bind_assoc, pure_bind]
    cases hrun : typeOf (underConversions s.tree expression) s with
    | ok ty s' => rw [bind_of_ok hrun, bind_of_ok hrun]; rfl
    | error e s' => rw [bind_of_error hrun, bind_of_error hrun]

/-- Operands are typed. -/
theorem operands_subset (t : Tree) (form : Expression) : form.operands ⊆ typedParts t form := by
  cases form <;> simp [Expression.operands, typedParts, Expression.children]

/-- Only the types of its operands count for an expression. -/
theorem formType_congr {types types' : NodeId → Ty} {form : Expression}
    (h : ∀ c ∈ form.operands, types' c = types c) (scope id : NodeId) (line : Nat)
    (stored : Ty) : formType (fun c => pure (types' c)) scope id line stored form =
      formType (fun c => pure (types c)) scope id line stored form := by
  cases form with
  | constant value => rfl
  | nameUse x arguments => rw [formType, formType, typeAll_pure, typeAll_pure]
  | generator className arguments => rw [formType, formType, typeAll_pure, typeAll_pure]
  | conversion expression kind => rfl
  | binary | unary | assignment | remote | qualified | relation =>
    simp only [Expression.operands, List.forall_mem_cons] at h
    simp only [formType, h, pure_bind, typeAll_pure]

end CheckM

namespace Tree

/-- The type recorded on a node. -/
def typeAt (t : Tree) (id : NodeId) : Ty := (t.data id).expressionType?.getD .undefined

/-- The type of a node depends on that node only. -/
theorem typeAt_congr {t t' : Tree} {id : NodeId} (h : t'.nodes[id]? = t.nodes[id]?) :
    t'.typeAt id = t.typeAt id := by
  rw [typeAt, typeAt, data_congr h]

/-- A type that is stored can be read. -/
theorem typeAt_withExpressionType {t : Tree} {id : NodeId} {stored : Ty}
    (h : (t.data id).expressionType? = some stored) (ty : Ty) :
    (t.update id fun d => d.withExpressionType ty).typeAt id = ty := by
  have hlt : id < t.size := by
    refine lt_of_data fun hvacant => ?_
    rw [hvacant] at h
    cases h
  rw [typeAt, data_update_self _ hlt]
  cases hdata : t.data id with
  | expression form ty' => rfl
  | _ => rw [hdata] at h; cases h

/-- The type that a node gets from those of the nodes below it, and the reports on the way. -/
def judged (t : Tree) (scope : NodeId) (types : NodeId → Ty) (id : NodeId) :
    Ty × List Diagnostic :=
  match t.data id with
  | .expression form stored =>
    (CheckM.formType (fun c => pure (types c)) scope id (t.line id) stored form).outcome t
  | _ => (.undefined, [])

/-- Only the types of the operands count. -/
theorem judged_congr {t : Tree} {id : NodeId} {form : Expression} {stored : Ty}
    {types types' : NodeId → Ty} (hdata : t.data id = .expression form stored)
    (h : ∀ c ∈ form.operands, types' c = types c) (scope : NodeId) :
    t.judged scope types' id = t.judged scope types id := by
  rw [judged, judged, hdata]
  dsimp only
  rw [CheckM.formType_congr h]

/-- The expressions that are typed for the type of a node. -/
def partsOf (t : Tree) (id : NodeId) : List NodeId :=
  match t.data id with
  | .expression form _ => CheckM.typedParts t form
  | _ => []

/-- Whether a number of levels is enough to type an expression. -/
def NestsWithin (t : Tree) : Nat → NodeId → Prop
  | 0, _ => False
  | n + 1, e => ∀ c ∈ t.partsOf e, t.NestsWithin n c

/-- The nodes of an expression are those of its typed parts, in order, then conversions around them
and at last the expression itself. -/
theorem Spans.parts {t : Tree} {e : NodeId} {ns : List NodeId} (h : t.Spans e ns)
    (hnodup : ns.Nodup) :
    ∃ form ty nodesOf conversions, t.data e = .expression form ty ∧
      (∀ c ∈ CheckM.typedParts t form, t.Spans c (nodesOf c)) ∧
      ns = (CheckM.typedParts t form).flatMap nodesOf ++ conversions ++ [e] ∧
      ∀ b ∈ conversions, ∃ x kind ty, t.data b = .expression (.conversion x kind) ty := by
  have hlength := h.length_le hnodup
  cases h with
  | @node _ form ty nodesOf hdata hbelow =>
    cases form with
    | conversion x kind =>
      simp only [Expression.children, List.flatMap_cons, List.flatMap_nil, List.append_nil,
        List.length_append, List.length_singleton] at hlength hnodup ⊢
      have hx := hbelow x (List.mem_singleton_self x)
      obtain ⟨ms, conversions, hms, heq, hall⟩ :=
        hx.underConversionsWithin (Nat.le_of_succ_le hlength)
      refine ⟨_, ty, fun _ => ms, conversions, hdata, fun c hc => ?_, ?_, hall⟩
      · exact List.mem_singleton.mp hc ▸ hms
      · simp [CheckM.typedParts, heq]
    | _ => exact ⟨_, ty, nodesOf, [], hdata, hbelow, by simp [CheckM.typedParts], nofun⟩

/-- The same expressions are typed for an expression in all trees in which its nodes are the
same. -/
theorem Spans.typedParts_eq {t t' : Tree} {e : NodeId} {ns : List NodeId} {form : Expression}
    {ty : Ty} (h : t.Spans e ns) (hnodup : ns.Nodup) (hsame : ∀ b ∈ ns, t'.data b = t.data b)
    (hdata : t.data e = .expression form ty) :
    CheckM.typedParts t' form = CheckM.typedParts t form := by
  have hlength := h.length_le hnodup
  have hlength' : ns.length ≤ t'.size :=
    (h.congr fun b hb form ty hb' => ⟨form, ty, (hsame b hb).trans hb', rfl⟩).length_le hnodup
  cases h with
  | @node _ form' _ nodesOf hdata' hbelow =>
    obtain ⟨rfl, -⟩ := NodeData.expression.inj (hdata.symm.trans hdata')
    cases form with
    | conversion x kind =>
      simp only [Expression.children, List.flatMap_cons, List.flatMap_nil, List.append_nil,
        List.length_append, List.length_singleton] at hlength hlength' hsame
      have hx := hbelow x (List.mem_singleton_self x)
      have hunder := hx.underConversionsWithin_congr
        (fun b hb => hsame b (List.mem_append_left _ hb)) (Nat.le_of_succ_le hlength)
        (Nat.le_of_succ_le hlength')
      exact congrArg (fun z => [z]) hunder
    | _ => rfl

/-- Parts that share no node are different. -/
theorem nodup_of_spans {t : Tree} {cs : List NodeId} {nodesOf : NodeId → List NodeId}
    (hspans : ∀ c ∈ cs, t.Spans c (nodesOf c)) (hnodup : (cs.flatMap nodesOf).Nodup) :
    cs.Nodup := by
  refine (List.nodup_flatMap.mp hnodup).2.imp_of_mem fun {a b} ha hb hdisjoint heq => ?_
  exact hdisjoint (hspans a ha).mem_self (heq ▸ (hspans b hb).mem_self)

/-- The second tree has the view of the first and the same nodes in some places. -/
structure Shows (t : Tree) (ns : List NodeId) (t' : Tree) : Prop where
  view : t.SameView t'
  nodes : ∀ b ∈ ns, t'.nodes[b]? = t.nodes[b]?

/-- A tree that shows some nodes shows any part of them. -/
theorem Shows.mono {t t' : Tree} {ms ns : List NodeId} (h : t.Shows ns t') (hsub : ms ⊆ ns) :
    t.Shows ms t' :=
  ⟨h.view, fun b hb => h.nodes b (hsub hb)⟩

/-- Shown nodes are in the later tree. -/
theorem Shows.lt_size {t t' : Tree} {ns : List NodeId} (h : t.Shows ns t') {b : NodeId}
    (hb : b ∈ ns) (hlt : b < t.size) : b < t'.size :=
  lt_of_node ((h.nodes b hb).trans (node_eq hlt))

end Tree

/-- Typing some nodes leads from one state to another: the other nodes are as they were, and the
types recorded in the end are those that the nodes get from each other, with the reports of all. The
last part holds of all types that agree with the recorded ones, so that nodes that are typed later
need not be looked at. -/
structure CheckState.TypesNodes (t : Tree) (scope : NodeId) (ns : List NodeId)
    (s s' : CheckState) : Prop where
  size_le : s.tree.size ≤ s'.tree.size
  others : ∀ b < s.tree.size, b ∉ ns → s'.tree.nodes[b]? = s.tree.nodes[b]?
  judged : ∀ types : NodeId → Ty, (∀ b ∈ ns, types b = s'.tree.typeAt b) →
    (∀ b ∈ ns, (t.judged scope types b).1 = types b) ∧
    s'.diagnostics = (ns.flatMap fun b => (t.judged scope types b).2).foldl Diagnostics.report
      s.diagnostics

namespace CheckState.TypesNodes

variable {t : Tree} {scope : NodeId} {ms ns : List NodeId} {s s₁ s₂ : CheckState}

/-- No node is typed at first. -/
theorem nil (t : Tree) (scope : NodeId) (s : CheckState) : TypesNodes t scope [] s s :=
  ⟨Nat.le_refl _, fun _ _ _ => rfl, fun _ _ => ⟨nofun, rfl⟩⟩

/-- Nodes that are typed one after the other are typed. -/
theorem append (h : TypesNodes t scope ms s s₁) (h' : TypesNodes t scope ns s₁ s₂)
    (hdisjoint : ms.Disjoint ns) (hms : ∀ b ∈ ms, b < s.tree.size) :
    TypesNodes t scope (ms ++ ns) s s₂ where
  size_le := Nat.le_trans h.size_le h'.size_le
  others b hb hnot := by
    obtain ⟨hbms, hbns⟩ := not_or.mp (mt List.mem_append.mpr hnot)
    rw [h'.others b (Nat.lt_of_lt_of_le hb h.size_le) hbns, h.others b hb hbms]
  judged types htypes := by
    obtain ⟨hall', hreports'⟩ := h'.judged types fun b hb =>
      htypes b (List.mem_append_right _ hb)
    obtain ⟨hall, hreports⟩ := h.judged types fun b hb => by
      have hlt := Nat.lt_of_lt_of_le (hms b hb) h.size_le
      rw [htypes b (List.mem_append_left _ hb), Tree.typeAt_congr (h'.others b hlt (hdisjoint hb))]
    refine ⟨fun b hb => (List.mem_append.mp hb).elim (hall b) (hall' b), ?_⟩
    rw [hreports', hreports, List.flatMap_append, List.foldl_append]

/-- Conversions have the types that they had and are not reported. -/
theorem conversions (hview : t.Shows ms s.tree)
    (hall : ∀ b ∈ ms, ∃ x kind ty, t.data b = .expression (.conversion x kind) ty) :
    TypesNodes t scope ms s s where
  size_le := Nat.le_refl _
  others _ _ _ := rfl
  judged types htypes := by
    have hjudged : ∀ b ∈ ms, t.judged scope types b = (types b, []) := by
      intro b hb
      obtain ⟨x, kind, ty, hdata⟩ := hall b hb
      rw [htypes b hb, Tree.typeAt_congr (hview.nodes b hb), Tree.typeAt, Tree.judged, hdata]
      rfl
    have hreports : (ms.flatMap fun b => (t.judged scope types b).2) = [] :=
      List.flatMap_eq_nil_iff.mpr fun b hb => by rw [hjudged b hb]
    refine ⟨fun b hb => by rw [hjudged b hb], ?_⟩
    rw [hreports]
    rfl

/-- After the nodes below it a node gets its type, which is stored. -/
theorem node {e : NodeId} {form : Expression} {stored : Ty} {types : NodeId → Ty}
    (h : TypesNodes t scope ms s s₁) (hms : ∀ b ∈ ms, b < s.tree.size) (he : e ∉ ms)
    (hshown : s₁.tree.nodes[e]? = t.nodes[e]?) (hdata : t.data e = .expression form stored)
    (hparts : ∀ c ∈ CheckM.typedParts t form, c ∈ ms ∧ types c = s₁.tree.typeAt c)
    (hfinishes : CheckM.Finishes (CheckM.formType (fun c => pure (types c)) scope e (t.line e)
      stored form) t e s₁ s₂) :
    let ty := (CheckM.outcome (CheckM.formType (fun c => pure (types c)) scope e (t.line e)
      stored form) t).1
    TypesNodes t scope (ms ++ [e]) s (s₂.update e fun d => d.withExpressionType ty) ∧
      (s₂.update e fun d => d.withExpressionType ty).tree.typeAt e = ty := by
  intro ty
  have helt : e < s₁.tree.size := by
    refine Tree.lt_of_data ?_
    simp [Tree.data_congr hshown, hdata]
  have htype : (s₂.tree.data e).expressionType? = some stored := by
    rw [hfinishes.alters.types e helt, Tree.data_congr hshown, hdata]
    rfl
  have hstored : (s₂.update e fun d => d.withExpressionType ty).tree.typeAt e = ty :=
    Tree.typeAt_withExpressionType htype ty
  have hothers : ∀ b < s₁.tree.size, b ≠ e →
      (s₂.update e fun d => d.withExpressionType ty).tree.nodes[b]? = s₁.tree.nodes[b]? :=
    fun b hb hne => (Tree.nodes_update_of_ne _ hne).trans (hfinishes.alters.others b hb hne)
  refine ⟨⟨?_, fun b hb hnot => ?_, fun types' htypes' => ?_⟩, hstored⟩
  · simpa [CheckState.update] using Nat.le_trans h.size_le hfinishes.alters.size_le
  · obtain ⟨hbms, hbe⟩ := not_or.mp (mt List.mem_append.mpr hnot)
    rw [hothers b (Nat.lt_of_lt_of_le hb h.size_le) (by simpa using hbe), h.others b hb hbms]
  · have hbelow : ∀ b ∈ ms, types' b = s₁.tree.typeAt b := fun b hb => by
      have hne : b ≠ e := fun heq => he (heq ▸ hb)
      rw [htypes' b (List.mem_append_left _ hb),
        Tree.typeAt_congr (hothers b (Nat.lt_of_lt_of_le (hms b hb) h.size_le) hne)]
    obtain ⟨hall, hreports⟩ := h.judged types' hbelow
    have hagree : ∀ c ∈ form.operands, types' c = types c := fun c hc => by
      obtain ⟨hc, htypes⟩ := hparts c (CheckM.operands_subset t form hc)
      rw [hbelow c hc, htypes]
    have hjudged : t.judged scope types' e = CheckM.outcome (CheckM.formType
        (fun c => pure (types c)) scope e (t.line e) stored form) t := by
      rw [Tree.judged_congr hdata hagree, Tree.judged, hdata]
    refine ⟨fun b hb => ?_, ?_⟩
    · rcases List.mem_append.mp hb with hb | hb
      · exact hall b hb
      · obtain rfl := List.mem_singleton.mp hb
        rw [hjudged, htypes' b (List.mem_append_right _ (List.mem_singleton_self b)), hstored]
    · change s₂.diagnostics = _
      rw [hfinishes.reports, hreports, List.flatMap_append, List.foldl_append,
        List.flatMap_singleton, hjudged]

end CheckState.TypesNodes

/-! ## Whole expressions -/

namespace CheckM

variable {t : Tree} {scope : NodeId} {n : Nat}

/-- Typing an expression whose nodes are as in a tree succeeds if there are enough levels for it. It
then types the nodes, and gives the type of the last one. -/
def TypesExpression (t : Tree) (scope : NodeId) (n : Nat) (e : NodeId) (ns : List NodeId)
    (s : CheckState) : Prop :=
  Ends (typeExpr n scope e) s
    (fun ty s' => t.NestsWithin n e ∧ s'.tree.typeAt e = ty ∧ s.TypesNodes t scope ns s')
    (fun _ => ¬ t.NestsWithin n e)

/-- Expressions that share no node are typed one after the other, unless one of them is nested too
deep. -/
theorem typesOf_types (htype : ∀ {c ms s}, t.Spans c ms → ms.Nodup → t.Shows ms s.tree →
      TypesExpression t scope n c ms s) {cs : List NodeId} {nodesOf : NodeId → List NodeId}
    {s : CheckState} (hspans : ∀ c ∈ cs, t.Spans c (nodesOf c))
    (hnodup : (cs.flatMap nodesOf).Nodup) (hshows : t.Shows (cs.flatMap nodesOf) s.tree) :
    Ends (typesOf (typeExpr n scope) cs) s
      (fun types s' => (∀ c ∈ cs, t.NestsWithin n c) ∧ (∀ c ∈ cs, types c = s'.tree.typeAt c) ∧
        s.TypesNodes t scope (cs.flatMap nodesOf) s' ∧ t.SameView s'.tree)
      (fun _ => ¬ ∀ c ∈ cs, t.NestsWithin n c) := by
  induction cs generalizing s with
  | nil => exact .of_ok rfl ⟨nofun, nofun, .nil t scope s, hshows.view⟩
  | cons c cs ih =>
    rw [List.flatMap_cons] at hnodup hshows ⊢
    obtain ⟨hspan, hspans⟩ := List.forall_mem_cons.mp hspans
    obtain ⟨hfirst, hrest, hdisjoint⟩ := List.nodup_append'.mp hnodup
    have hlt : ∀ b ∈ nodesOf c, b < s.tree.size := fun b hb =>
      hshows.lt_size (List.mem_append_left _ hb) (hspan.lt_size hb)
    refine Ends.bind ((htype hspan hfirst (hshows.mono (List.subset_append_left _ _))).mono
      (fun _ _ h => h) fun _ h hall => h (hall c List.mem_cons_self)) ?_
    rintro ty s₁ hrun ⟨hwithin, rfl, htypes⟩
    -- The rest is not touched by the first, since no node belongs to both.
    have hshows₁ : t.Shows (cs.flatMap nodesOf) s₁.tree := by
      refine ⟨hshows.view.trans ((typeExpr_typed n scope c).of_ok hrun).sameLinks.sameView,
        fun b hb => ?_⟩
      obtain ⟨d, hd, hbd⟩ := List.mem_flatMap.mp hb
      have hmem := List.mem_append_right (nodesOf c) hb
      have hblt := hshows.lt_size hmem ((hspans d hd).lt_size hbd)
      rw [htypes.others b hblt fun hb' => hdisjoint hb' hb, hshows.nodes b hmem]
    refine Ends.bind ((ih hspans hrest hshows₁).mono (fun _ _ h => h)
      fun _ h hall => h fun d hd => hall d (List.mem_cons_of_mem _ hd)) ?_
    rintro types s₂ - ⟨hwithins, hgives, htypes', hview⟩
    refine .of_ok rfl ⟨List.forall_mem_cons.mpr ⟨hwithin, hwithins⟩, fun d hd => ?_,
      htypes.append htypes' hdisjoint hlt, hview⟩
    by_cases hdc : d = c
    · subst hdc
      have hself := hspan.mem_self
      rw [Function.update_self, Tree.typeAt_congr (htypes'.others d
        (Nat.lt_of_lt_of_le (hlt d hself) htypes.size_le) (hdisjoint hself))]
    · rw [Function.update_of_ne hdc]
      exact hgives d ((List.mem_cons.mp hd).resolve_left hdc)

/-- Typing an expression comes in three steps: the expressions below it are typed, then it is told
what follows for its own type, and this is stored. -/
theorem typeExpr_succ {e : NodeId} {s : CheckState} {form : Expression} {stored : Ty}
    (hshown : s.tree.nodes[e]? = t.nodes[e]?) (hdata : t.data e = .expression form stored)
    (hparts : typedParts s.tree form = typedParts t form) (hnodup : (typedParts t form).Nodup) :
    typeExpr (n + 1) scope e s =
      (typesOf (typeExpr n scope) (typedParts t form) >>= fun types =>
        formType (fun c => pure (types c)) scope e (t.line e) stored form >>= fun ty =>
          update e (fun d => d.withExpressionType ty) >>= fun _ => pure ty) s := by
  have hline : s.tree.line e = t.line e := by rw [Tree.line, Tree.line, hshown]
  rw [typeExpr, bind_of_ok (show tree s = .ok s.tree s from rfl), Tree.data_congr hshown, hdata,
    ← bind_assoc, hline]
  refine SameOn.bind (S := (· = s)) (T := fun _ => True) ?_ (fun _ _ => trivial)
    (fun _ => .refl _) s rfl
  rintro _ rfl
  rw [formType_eq _ _ _ _ _ (hparts ▸ hnodup), hparts]

/-- **Typing node by node.** An expression whose nodes form a tree without sharing is typed to its
end exactly if there are enough levels, and then each node has the type that its form gives it from
the nodes below it, and nothing is reported but what the nodes give rise to one after the other. -/
theorem typeExpr_types (scope : NodeId) (n : Nat) {e : NodeId} {ns : List NodeId} {s : CheckState}
    (hspans : t.Spans e ns) (hnodup : ns.Nodup) (hshows : t.Shows ns s.tree) :
    TypesExpression t scope n e ns s := by
  induction n generalizing e ns s with
  | zero => exact Ends.of_error rfl id
  | succ n ih =>
    obtain ⟨form, stored, nodesOf, conversions, hdata, hparts, hns, hall⟩ := hspans.parts hnodup
    have hself := hshows.nodes e hspans.mem_self
    have hpartsEq := hspans.typedParts_eq hnodup
      (fun b hb => Tree.data_congr (hshows.nodes b hb)) hdata
    have hlt : ∀ b ∈ ns, b < s.tree.size := fun b hb => hshows.lt_size hb (hspans.lt_size hb)
    subst hns
    obtain ⟨hbefore, -, hlast⟩ := List.nodup_append'.mp hnodup
    obtain ⟨hbelow, -, hdisjoint⟩ := List.nodup_append'.mp hbefore
    have hwithin : t.NestsWithin (n + 1) e ↔ ∀ c ∈ typedParts t form, t.NestsWithin n c := by
      rw [Tree.NestsWithin, Tree.partsOf, hdata]
    unfold TypesExpression Ends
    rw [typeExpr_succ hself hdata hpartsEq (Tree.nodup_of_spans hparts hbelow), hwithin]
    refine Ends.bind (typesOf_types ih hparts hbelow (hshows.mono ?_)) ?_
    · exact fun b hb => List.mem_append_left _ (List.mem_append_left _ hb)
    rintro types s₁ - ⟨hwithins, hgives, htypes, hview⟩
    obtain ⟨s₂, hfinishes⟩ := formType_finishes hview types scope e (t.line e) stored form
    -- Typing skips the conversions over an operand, which keep the types that they had.
    have hconversions : s₁.TypesNodes t scope conversions s₁ := by
      refine .conversions ⟨hview, fun b hb => ?_⟩ hall
      have hmem := List.mem_append_left [e] (List.mem_append_right
        ((typedParts t form).flatMap nodesOf) hb)
      rw [htypes.others b (hlt b hmem) fun hb' => hdisjoint hb' hb, hshows.nodes b hmem]
    have hmem : e ∉ (typedParts t form).flatMap nodesOf ++ conversions := fun he =>
      hlast he (List.mem_singleton_self e)
    have htyped := htypes.append hconversions hdisjoint fun b hb =>
      hlt b (List.mem_append_left _ (List.mem_append_left _ hb))
    have hpart : ∀ c ∈ typedParts t form, c ∈ (typedParts t form).flatMap nodesOf ++ conversions :=
      fun c hc => List.mem_append_left _ (List.mem_flatMap.mpr ⟨c, hc, (hparts c hc).mem_self⟩)
    obtain ⟨hnode, hty⟩ := htyped.node (fun b hb => hlt b (List.mem_append_left _ hb)) hmem
      ((htyped.others e (hlt e (by simp)) hmem).trans hself) hdata
      (fun c hc => ⟨hpart c hc, hgives c hc⟩) hfinishes
    exact .of_ok (bind_of_ok hfinishes.run) ⟨hwithins, hty, hnode⟩

end CheckM

end Simula
