import Mathlib.Logic.Relation
import Simula.Proofs.Check.Prefixes

/-!
# What a check goes down to

A check meets a node as a scope, as a statement or as an expression, and from there it goes down to
the nodes that the content names in that part. These calls follow from the tree alone. While a
check runs they change in one way only: the value of an assignment may get conversions around it,
which stand behind all nodes that were there before.
-/

namespace Simula

/-- A node in the part in which a check meets it. -/
inductive Call
  | scope (id : NodeId)
  | statement (id : NodeId)
  | expression (id : NodeId)
  deriving DecidableEq

/-- The node that is met. -/
def Call.node : Call → NodeId
  | scope id | statement id | expression id => id

/-- What of the content of a node decides how a check goes on below it. -/
inductive Nesting
  | scope (declared statements : List NodeId)
  | simpleVariable (constant : Option NodeId)
  | connection (statement : Option NodeId)
  | statement (form : Statement)
  | expression (form : Expression)
  | leaf
  deriving DecidableEq

namespace Nesting

/-- The nodes that are named. -/
def nodes : Nesting → List NodeId
  | scope declared statements => declared ++ statements
  | simpleVariable constant => constant.toList
  | connection inner => inner.toList
  | statement form => form.children
  | expression form => form.children
  | leaf => []

/-- The nodes that a scope declares. -/
def declared : Nesting → List NodeId
  | scope ids _ => ids
  | _ => []

/-- The statements of a scope or compound statement. -/
def statements : Nesting → List NodeId
  | scope _ ids => ids
  | statement (.compound inner) => inner.toList
  | _ => []

/-- What a scope that declares the node goes down to. -/
def callsDeclared (id : NodeId) : Nesting → List Call
  | scope _ _ => [.scope id]
  | simpleVariable constant => constant.toList.map .expression
  | _ => []

/-- What an inspect statement that has the node as a branch goes down to. -/
def callsBranch : Nesting → List Call
  | connection inner => inner.toList.map .statement
  | _ => []

/-- What is declared in a node is nested in it. -/
theorem declared_subset (n : Nesting) : n.declared ⊆ n.nodes := by
  cases n with
  | scope declared statements => exact List.subset_append_left _ _
  | _ => exact List.nil_subset _

/-- The statements of a node are nested in it. -/
theorem statements_subset (n : Nesting) : n.statements ⊆ n.nodes := by
  cases n with
  | scope declared statements => exact List.subset_append_right _ _
  | statement form =>
    cases form with
    | compound inner => exact List.Subset.refl _
    | _ => exact List.nil_subset _
  | _ => exact List.nil_subset _

/-- The calls for a declared node concern it or what is nested in it. -/
theorem node_of_mem_callsDeclared {n : Nesting} {id : NodeId} {c : Call}
    (h : c ∈ n.callsDeclared id) : c.node = id ∨ c.node ∈ n.nodes := by
  cases n with
  | scope declared statements => exact .inl (by rw [List.mem_singleton.mp h, Call.node])
  | simpleVariable constant =>
    obtain ⟨e, he, rfl⟩ := List.mem_map.mp h
    exact .inr he
  | _ => cases h

/-- The calls for a branch concern what is nested in it. -/
theorem node_of_mem_callsBranch {n : Nesting} {c : Call} (h : c ∈ n.callsBranch) :
    c.node ∈ n.nodes := by
  cases n with
  | connection inner =>
    obtain ⟨id, hid, rfl⟩ := List.mem_map.mp h
    exact hid
  | _ => cases h

end Nesting

/-- The nesting of a scope. -/
def Body.nesting (b : Body) : Nesting := .scope b.declarations.nodes b.statements.toList

/-- The nesting of a node. -/
def NodeData.nesting : NodeData → Nesting
  | declaration _ _ (.classDeclaration c) => c.body.nesting
  | declaration _ _ (.procedure _ _ b) => b.nesting
  | declaration _ _ (.block b) => b.nesting
  | declaration _ _ (.simpleVariable _ constant) => .simpleVariable constant
  | connection b => .connection b.statement
  | statement form => .statement form
  | expression form _ => .expression form
  | _ => .leaf

namespace NodeData

/-- The nesting shows what the scope declares. -/
theorem declared_nesting (d : NodeData) :
    d.nesting.declared = (d.declarations?.map (·.nodes)).getD [] := by
  rcases d with _ | ⟨_, _, f⟩ | _ | _ | _ <;> first | rfl | cases f <;> rfl

/-- The nesting shows the statements. -/
theorem statements_nesting (d : NodeData) : d.nesting.statements = d.statements := by
  rcases d with _ | ⟨_, _, f⟩ | _ | f | _ <;> first | rfl | cases f <;> rfl

/-- A declaration does not have the nesting of an expression. -/
theorem nesting_declaration_ne (i : String) (scope : Option NodeId) (d : Declaration)
    (form : Expression) : (declaration i scope d).nesting ≠ .expression form := by
  cases d <;> rintro ⟨⟩

/-! What a check records in a node does not show in its nesting. -/

/-- The type of an expression does not show in the nesting. -/
theorem nesting_withExpressionType (ty : Ty) (d : NodeData) :
    (d.withExpressionType ty).nesting = d.nesting :=
  view_withExpressionType d fun _ _ => rfl

/-- Nor does the class of a connection. -/
theorem nesting_withConnectedClass (c : Option NodeId) (scope : NodeId) (d : NodeData) :
    (CheckM.withConnectedClass c scope d).nesting = d.nesting :=
  view_withConnectedClass d fun _ _ => rfl

/-- Nor does the scope of a node. -/
theorem nesting_withDeclaredIn (scope : Option NodeId) (d : NodeData) :
    (d.withDeclaredIn scope).nesting = d.nesting :=
  view_withDeclaredIn d (fun _ _ form => by cases form <;> rfl) fun _ => rfl

/-- Nor does its identifier. -/
theorem nesting_withIdentifier (i : String) (d : NodeData) :
    (d.withIdentifier i).nesting = d.nesting := by
  cases d with
  | declaration _ _ form => cases form <;> rfl
  | _ => rfl

/-- Nor does the scope that a check gives to a node. -/
theorem nesting_withScope (scope : NodeId) (d : NodeData) :
    (CheckM.withScope scope d).nesting = d.nesting :=
  view_withScope d (fun _ _ form => by cases form <;> rfl) fun _ => rfl

/-- Nor does the number of a label. -/
theorem nesting_withLabelIndex (index : Nat) (d : NodeData) :
    (Tree.withLabelIndex index d).nesting = d.nesting :=
  view_withLabelIndex d fun _ _ _ => rfl

/-- Nor does anything that is computed of labels. -/
theorem nesting_modifyLabels (f : LabelList → LabelList) (d : NodeData) :
    (d.modifyBody fun b => { b with labels := f b.labels }).nesting = d.nesting :=
  view_modifyBody d (fun _ _ _ => rfl) (fun _ _ _ _ _ => rfl) fun _ _ _ => rfl

/-- Nor does the protected specification of a hidden one. -/
theorem nesting_withProtectedBy (p : NodeId) (d : NodeData) :
    (CheckState.withProtectedBy p d).nesting = d.nesting :=
  view_withProtectedBy d fun _ _ _ => rfl

/-- Nor does the hidden specification of a protected one. -/
theorem nesting_withHiddenBy (h : NodeId) (d : NodeData) :
    (CheckState.withHiddenBy h d).nesting = d.nesting :=
  view_withHiddenBy d fun _ _ _ => rfl

/-- Nor does the prefix class of a class. -/
theorem nesting_withPrefixClass (p : Option NodeId) (d : NodeData) :
    (d.modifyClass (·.withPrefixClass p)).nesting = d.nesting :=
  view_modifyClass d fun _ _ _ => rfl

end NodeData

namespace Tree

/-- The nesting of a node of the tree. -/
def nesting (t : Tree) (id : NodeId) : Nesting := (t.data id).nesting

/-- What the check of a statement goes down to. -/
def callsOf (t : Tree) : Statement → List Call
  | .standalone e => [.expression e]
  | .ifThenElse condition thenBranch elseBranch =>
    .expression condition :: .statement thenBranch :: elseBranch.toList.map .statement
  | .whileDo condition body => [.expression condition, .statement body]
  | .goto target => [.expression target]
  | .labeled _ inner => [.statement inner]
  | .compound inner => inner.toList.map .statement
  | .inspect object connections otherwise =>
    .expression object :: ((connections.flatMap fun c => (t.nesting c).callsBranch) ++
      otherwise.toList.map .statement)
  | .dummy => []

/-- What a check goes down to from a node that it meets. -/
def calls (t : Tree) : Call → List Call
  | .scope id =>
    ((t.nesting id).declared.flatMap fun d => (t.nesting d).callsDeclared d) ++
      (t.nesting id).statements.map .statement
  | .statement id =>
    match t.nesting id with
    | .statement form => t.callsOf form
    | .expression _ => [.expression id]
    | .scope _ _ => [.scope id]
    | _ => []
  | .expression id =>
    match t.nesting id with
    | .expression form => form.children.map .expression
    | _ => []

/-- One node leads a check to another. -/
def Calls (t : Tree) (a b : Call) : Prop := b ∈ t.calls a

/-- Nothing that a check comes to from a node leads back to itself. -/
def WellNested (t : Tree) (root : Call) : Prop :=
  ∀ c, Relation.ReflTransGen t.Calls root c → ¬ Relation.TransGen t.Calls c c

/-- Trees with the same nesting have the same calls. -/
theorem calls_congr {t t' : Tree} (h : t'.nesting = t.nesting) : t'.calls = t.calls := by
  funext c
  cases c <;> simp only [calls, callsOf, h]

/-- Trees with the same nesting are well nested below the same calls. -/
theorem wellNested_congr {t t' : Tree} (h : t'.nesting = t.nesting) (root : Call) :
    t'.WellNested root ↔ t.WellNested root := by
  have hcalls : t'.Calls = t.Calls := by
    funext a b
    rw [Calls, Calls, calls_congr h]
  rw [WellNested, WellNested, hcalls]

/-- A node beyond the tree leads nowhere. -/
theorem nesting_of_size_le {t : Tree} {id : NodeId} (h : t.size ≤ id) : t.nesting id = .leaf := by
  rw [nesting, data_of_size_le h]
  rfl

/-- The content of a node with the nesting of an expression. -/
theorem data_of_nesting_expression {t : Tree} {id : NodeId} {form : Expression}
    (h : t.nesting id = .expression form) : ∃ ty, t.data id = .expression form ty := by
  revert h
  rw [nesting]
  rcases t.data id with _ | ⟨_, _, f⟩ | _ | _ | ⟨form', ty⟩
  case expression =>
    intro h
    cases h
    exact ⟨ty, rfl⟩
  case declaration => cases f <;> rintro ⟨⟩
  all_goals rintro ⟨⟩

/-- The content of a node with the nesting of a statement. -/
theorem data_of_nesting_statement {t : Tree} {id : NodeId} {form : Statement}
    (h : t.nesting id = .statement form) : t.data id = .statement form := by
  revert h
  rw [nesting]
  rcases t.data id with _ | ⟨_, _, f⟩ | _ | form' | _
  case statement =>
    intro h
    cases h
    rfl
  case declaration => cases f <;> rintro ⟨⟩
  all_goals rintro ⟨⟩

/-- Classes, procedures and blocks have the nesting of a scope. -/
theorem kind_of_nesting_scope {t : Tree} {id : NodeId} {declared statements : List NodeId}
    (h : t.nesting id = .scope declared statements) :
    t.kind id = .classDeclaration ∨ t.kind id = .procedure ∨ t.kind id = .block := by
  revert h
  rw [nesting, kind]
  rcases t.data id with _ | ⟨_, _, f⟩ | _ | _ | _
  case declaration =>
    cases f with
    | classDeclaration => exact fun _ => .inl rfl
    | procedure => exact fun _ => .inr (.inl rfl)
    | block => exact fun _ => .inr (.inr rfl)
    | _ => rintro ⟨⟩
  all_goals rintro ⟨⟩

/-- An expression is a node of the tree. -/
theorem lt_of_nesting_expression {t : Tree} {id : NodeId} {form : Expression}
    (h : t.nesting id = .expression form) : id < t.size := by
  obtain ⟨ty, hdata⟩ := data_of_nesting_expression h
  exact lt_of_data (by simp [hdata])

/-! ## Sets of nodes that a check does not leave -/

/-- The calls for a statement concern its parts, or what is nested in its branches. -/
theorem node_of_mem_callsOf {t : Tree} {form : Statement} {c : Call} (h : c ∈ t.callsOf form) :
    c.node ∈ form.children ∨ ∃ b ∈ form.children, c.node ∈ (t.nesting b).nodes := by
  cases form with
  | inspect object connections otherwise =>
    simp only [callsOf, List.mem_cons, List.mem_append, List.mem_flatMap, List.mem_map] at h
    rcases h with rfl | ⟨b, hb, hcall⟩ | ⟨id, hid, rfl⟩
    · exact .inl List.mem_cons_self
    · refine .inr ⟨b, List.mem_cons_of_mem _ (List.mem_append_left _ hb), ?_⟩
      exact Nesting.node_of_mem_callsBranch hcall
    · exact .inl (List.mem_cons_of_mem _ (List.mem_append_right _ hid))
  | _ => grind [callsOf, Statement.children, Call.node]

/-- A check goes down to what a node names, to what that names, or to the same node in another
part. -/
theorem node_of_mem_calls {t : Tree} {c c' : Call} (h : c' ∈ t.calls c) :
    c'.node = c.node ∨ c'.node ∈ (t.nesting c.node).nodes ∨
      ∃ b ∈ (t.nesting c.node).nodes, c'.node ∈ (t.nesting b).nodes := by
  cases c with
  | expression id =>
    cases hn : t.nesting id with
    | expression form =>
      simp only [calls, hn, List.mem_map] at h
      obtain ⟨e, he, rfl⟩ := h
      exact .inr (.inl (by rw [Call.node, hn]; exact he))
    | _ => simp [calls, hn] at h
  | scope id =>
    simp only [calls, List.mem_append, List.mem_flatMap, List.mem_map] at h
    rw [Call.node]
    rcases h with ⟨d, hd, hcall⟩ | ⟨e, he, rfl⟩
    · have hd' := Nesting.declared_subset _ hd
      rcases Nesting.node_of_mem_callsDeclared hcall with heq | hmem
      · exact .inr (.inl (heq ▸ hd'))
      · exact .inr (.inr ⟨d, hd', hmem⟩)
    · exact .inr (.inl (Nesting.statements_subset _ he))
  | statement id =>
    cases hn : t.nesting id with
    | statement form =>
      simp only [calls, hn] at h
      rw [Call.node, hn]
      exact .inr (node_of_mem_callsOf h)
    | expression form =>
      simp only [calls, hn, List.mem_singleton] at h
      exact .inl (by rw [h, Call.node, Call.node])
    | scope declared statements =>
      simp only [calls, hn, List.mem_singleton] at h
      exact .inl (by rw [h, Call.node, Call.node])
    | _ => simp [calls, hn] at h

/-- The set holds nodes of the tree only, and all nodes that its members name. -/
structure Region (t : Tree) (within : NodeId → Prop) : Prop where
  lt : ∀ {id}, within id → id < t.size
  closed : ∀ {id}, within id → ∀ n ∈ (t.nesting id).nodes, within n

namespace Region

variable {t : Tree} {within : NodeId → Prop}

/-- A region depends on the size of the tree and the nesting only. -/
theorem congr {t' : Tree} (h : t.Region within) (hsize : t'.size = t.size)
    (hnesting : t'.nesting = t.nesting) : t'.Region within where
  lt hid := hsize ▸ h.lt hid
  closed hid := hnesting ▸ h.closed hid

/-- A check does not leave a region. -/
theorem calls (h : t.Region within) {c c' : Call} (hc : within c.node) (hcall : c' ∈ t.calls c) :
    within c'.node := by
  rcases node_of_mem_calls hcall with heq | hmem | ⟨b, hb, hmem⟩
  · exact heq ▸ hc
  · exact h.closed hc _ hmem
  · exact h.closed (h.closed hc b hb) _ hmem

end Region

/-! ## Conversions put in by a check -/

/-- The node is `e` itself or one of the conversions around it that stand behind the first `n`
nodes. -/
inductive Wraps (t : Tree) (n : Nat) (e : NodeId) : NodeId → Prop
  | bare (h : e < n) : Wraps t n e e
  | conversion {id x : NodeId} {kind : ConversionKind} (hid : n ≤ id) (hlt : x < id)
    (hnesting : t.nesting id = .expression (.conversion x kind)) (hx : Wraps t n e x) :
    Wraps t n e id

/-- The later nesting is the earlier one, but the value of an assignment may be wrapped. -/
inductive Refit (t : Tree) (n : Nat) : Nesting → Nesting → Prop
  | same (m : Nesting) : Refit t n m m
  | assigned {op : AssignOp} {lhs rhs value : NodeId} (h : t.Wraps n rhs value) :
    Refit t n (.expression (.assignment op lhs rhs)) (.expression (.assignment op lhs value))

/-- The later tree is the earlier one with conversions put in. -/
structure Refitted (t₀ t : Tree) : Prop where
  size_le : t₀.size ≤ t.size
  old : ∀ id < t₀.size, t.Refit t₀.size (t₀.nesting id) (t.nesting id)

/-- A step from one tree with conversions put in to another that has all its conversions. -/
structure Refits (t₀ t t' : Tree) : Prop where
  refitted : t₀.Refitted t'
  conversions : ∀ {id x kind}, t.nesting id = .expression (.conversion x kind) →
    t'.nesting id = .expression (.conversion x kind)

section

variable {t₀ t t' : Tree} {n : Nat} {e id : NodeId}

/-- A conversion around an expression is a node of the tree. -/
theorem Wraps.lt (h : t.Wraps n e id) (hn : n ≤ t.size) : id < t.size := by
  cases h with
  | bare h => exact Nat.lt_of_lt_of_le h hn
  | conversion _ _ hnesting _ => exact lt_of_nesting_expression hnesting

/-- What is wrapped stays wrapped where conversions stay. -/
theorem Wraps.mono (h : t.Wraps n e id)
    (hconversions : ∀ {id x kind}, t.nesting id = .expression (.conversion x kind) →
      t'.nesting id = .expression (.conversion x kind)) : t'.Wraps n e id := by
  induction h with
  | bare h => exact .bare h
  | conversion hid hlt hnesting _ ih => exact .conversion hid hlt (hconversions hnesting) ih

/-- A node fits in a later tree as well if that has all conversions of the earlier one. -/
theorem Refit.mono {m m' : Nesting} (h : t.Refit n m m')
    (hconversions : ∀ {id x kind}, t.nesting id = .expression (.conversion x kind) →
      t'.nesting id = .expression (.conversion x kind)) : t'.Refit n m m' := by
  cases h with
  | same => exact .same _
  | assigned hw => exact .assigned (hw.mono hconversions)

/-- What is an expression now was one before. -/
theorem Refit.exists_expression {m : Nesting} {form : Expression}
    (h : t.Refit n m (.expression form)) : ∃ form₀, m = .expression form₀ := by
  cases h <;> exact ⟨_, rfl⟩

/-- Refitted nodes declare the same. -/
theorem Refit.declared_eq {m m' : Nesting} (h : t.Refit n m m') : m.declared = m'.declared := by
  cases h <;> rfl

/-- Refitted nodes have the same statements. -/
theorem Refit.statements_eq {m m' : Nesting} (h : t.Refit n m m') :
    m.statements = m'.statements := by
  cases h <;> rfl

/-- Refitted nodes ask for the same calls where they are declared. -/
theorem Refit.callsDeclared_eq {m m' : Nesting} (h : t.Refit n m m') (id : NodeId) :
    m.callsDeclared id = m'.callsDeclared id := by
  cases h <;> rfl

/-- Refitted nodes ask for the same calls as branches. -/
theorem Refit.callsBranch_eq {m m' : Nesting} (h : t.Refit n m m') :
    m.callsBranch = m'.callsBranch := by
  cases h <;> rfl

/-- A step keeps what is wrapped. -/
theorem Refits.wraps (h : t₀.Refits t t') (hw : t.Wraps n e id) : t'.Wraps n e id :=
  hw.mono h.conversions

/-- A tree is refitted by leaving it alone. -/
theorem Refitted.refl (t : Tree) : t.Refitted t := ⟨Nat.le_refl _, fun _ _ => .same _⟩

/-- Only assignments change. -/
theorem Refitted.nesting_eq (h : t₀.Refitted t) (hid : id < t₀.size)
    (hne : ∀ op lhs rhs, t.nesting id ≠ .expression (.assignment op lhs rhs)) :
    t₀.nesting id = t.nesting id := by
  have hold := h.old id hid
  generalize t₀.nesting id = m, t.nesting id = m' at hold hne
  cases hold with
  | same => rfl
  | assigned _ => exact absurd rfl (hne _ _ _)

/-- Refitting can be done in two steps. -/
theorem Refits.trans {t₁ : Tree} (h : t₀.Refits t t₁) (h' : t₀.Refits t₁ t') :
    t₀.Refits t t' :=
  ⟨h'.refitted, fun hc => h'.conversions (h.conversions hc)⟩

/-- A step that no nesting shows. -/
theorem Refitted.refits_of_keeps (h : t₀.Refitted t) (hkeeps : t.Keeps NodeData.nesting t') :
    t₀.Refits t t' := by
  have hsame : ∀ id < t.size, t'.nesting id = t.nesting id := hkeeps.same
  have hconversions : ∀ {id x kind}, t.nesting id = .expression (.conversion x kind) →
      t'.nesting id = .expression (.conversion x kind) := by
    intro id x kind hc
    rw [hsame id (lt_of_nesting_expression hc), hc]
  refine ⟨⟨Nat.le_trans h.size_le hkeeps.size_le, fun id hid => ?_⟩, hconversions⟩
  rw [hsame id (Nat.lt_of_lt_of_le hid h.size_le)]
  exact (h.old id hid).mono hconversions

/-- Putting a conversion around the value of an assignment. -/
theorem Refitted.refits_insertion (h : t₀.Refitted t) {assignment lhs rhs value : NodeId}
    {op : AssignOp} (hid : assignment < t₀.size)
    (ha : t₀.nesting assignment = .expression (.assignment op lhs rhs))
    (hw : t.Wraps t₀.size rhs value) (line : Nat) (kind : ConversionKind) (target : Ty) :
    t₀.Refits t ((t.push ⟨line, .expression (.conversion value kind) target⟩).update assignment
      (CheckM.withAssigned t.size)) := by
  generalize ht' : (t.push ⟨line, .expression (.conversion value kind) target⟩).update assignment
    (CheckM.withAssigned t.size) = t'
  have hlt : assignment < t.size := Nat.lt_of_lt_of_le hid h.size_le
  have hpushed : assignment < (t.push ⟨line, .expression (.conversion value kind) target⟩).size :=
    Nat.lt_of_lt_of_le hlt (by simp)
  obtain ⟨value', hvalue'⟩ : ∃ v, t.nesting assignment = .expression (.assignment op lhs v) := by
    have hold := h.old assignment hid
    rw [ha] at hold
    generalize t.nesting assignment = m at hold
    cases hold with
    | same => exact ⟨rhs, rfl⟩
    | assigned _ => exact ⟨_, rfl⟩
  have hassignment : t'.nesting assignment = .expression (.assignment op lhs t.size) := by
    obtain ⟨ty, hdata⟩ := data_of_nesting_expression hvalue'
    rw [← ht', nesting, data_update_self _ hpushed, data_push, if_neg (Nat.ne_of_lt hlt), hdata]
    rfl
  have hconversion : t'.nesting t.size = .expression (.conversion value kind) := by
    rw [← ht', nesting, data_update_of_ne _ (Nat.ne_of_gt hlt), data_push, if_pos rfl]
    rfl
  have hother : ∀ id < t.size, id ≠ assignment → t'.nesting id = t.nesting id := by
    intro id hid hne
    rw [← ht', nesting, data_update_of_ne _ hne, data_push, if_neg (Nat.ne_of_lt hid)]
    rfl
  have hconversions : ∀ {id x kind}, t.nesting id = .expression (.conversion x kind) →
      t'.nesting id = .expression (.conversion x kind) := by
    intro id x kind hc
    rw [hother id (lt_of_nesting_expression hc) ?_, hc]
    rintro rfl
    rw [hvalue'] at hc
    cases hc
  have hsize : t.size ≤ t'.size := by simp [← ht']
  refine ⟨⟨Nat.le_trans h.size_le hsize, fun id hid => ?_⟩, hconversions⟩
  by_cases hne : id = assignment
  · subst hne
    rw [ha, hassignment]
    exact .assigned (.conversion h.size_le (hw.lt h.size_le) hconversion (hw.mono hconversions))
  · rw [hother id (Nat.lt_of_lt_of_le hid h.size_le) hne]
    exact (h.old id hid).mono hconversions

end

end Tree

end Simula
