import Simula.Proofs.Check.Frame
import Simula.Proofs.Meaning.Lookups

/-!
# A checked tree as lookups see it

A check loses no report, and to a lookup that follows no links the tree looks the same after it as
before. The tree may grow, since values that are assigned may get conversions. But it grows only if
it has expressions to begin with, and so what a lookup finds does not depend on the room that new
nodes give to its steps.
-/

namespace Simula

/-! ## Reports -/

/-- The diagnostics with the given code, in the order in which they were reported. -/
def Diagnostics.coded (ds : Diagnostics) (code : String) : List Diagnostic :=
  ds.entries.toList.filter fun d => d.code == some code

/-- A report with a code comes behind the others that have it. -/
theorem Diagnostics.coded_report {ds : Diagnostics} {d : Diagnostic} {code : String}
    (h : d.code = some code) : (ds.report d).coded code = ds.coded code ++ [d] := by
  rw [coded, report, Array.toList_push, List.filter_append, List.filter_cons_of_pos (by simp [h])]
  rfl

/-- A report with another code is not counted. -/
theorem Diagnostics.coded_report_of_ne {ds : Diagnostics} {d : Diagnostic} {code : String}
    (h : d.code ≠ some code) : (ds.report d).coded code = ds.coded code := by
  rw [coded, report, Array.toList_push, List.filter_append, List.filter_cons_of_neg (by simp [h])]
  exact List.append_nil _

/-- All that was reported in the first state is still reported in the second, before anything
else. -/
def CheckState.ReportsMore (s s' : CheckState) : Prop :=
  s.diagnostics.entries.toList <+: s'.diagnostics.entries.toList

instance : Std.Refl CheckState.ReportsMore := ⟨fun _ => List.prefix_rfl⟩

instance : Trans CheckState.ReportsMore CheckState.ReportsMore CheckState.ReportsMore :=
  ⟨List.IsPrefix.trans⟩

namespace CheckState.ReportsMore

/-- One report more loses none. -/
theorem report (s : CheckState) (d : Diagnostic) :
    s.ReportsMore { s with diagnostics := s.diagnostics.report d } := by
  rw [ReportsMore, Diagnostics.report, Array.toList_push]
  exact List.prefix_append ..

/-- With more reports there are no fewer of a code. -/
theorem countCode_le {s s' : CheckState} (h : s.ReportsMore s') (code : String) :
    s.diagnostics.countCode code ≤ s'.diagnostics.countCode code := by
  rw [Diagnostics.countCode, Diagnostics.countCode, ← Array.countP_toList, ← Array.countP_toList]
  exact h.sublist.countP_le

end CheckState.ReportsMore

/-- Typing loses no report. -/
theorem typingFrame_reportsMore : TypingFrame CheckState.ReportsMore where
  report := .report
  expressionType _ _ _ := List.prefix_rfl
  conversion _ _ _ _ _ _ := List.prefix_rfl

/-- Checking scopes and statements loses no report. -/
theorem checkFrame_reportsMore : CheckFrame CheckState.ReportsMore where
  report := .report
  typing := CheckM.typeExpr_follows typingFrame_reportsMore
  connectedClass _ _ _ _ := List.prefix_rfl
  scope _ _ _ := List.prefix_rfl
  labelIndex _ _ _ := List.prefix_rfl
  labels _ _ _ _ := List.prefix_rfl

/-! ## Offers -/

/-- What a lookup sees of a node apart from links, and whether the node is an expression. -/
def NodeData.seen (d : NodeData) : NodeData × Bool := (d.offered, d.expressionType?.isSome)

/-- What is recorded in a node does not show in what is seen of it. -/
theorem undisturbed_seen : Undisturbed NodeData.seen where
  protectedBy _ d := NodeData.view_withProtectedBy d fun _ _ _ => rfl
  hiddenBy _ d := NodeData.view_withHiddenBy d fun _ _ _ => rfl
  expressionType _ d := NodeData.view_withExpressionType d fun form _ => by cases form <;> rfl
  assigned _ d := NodeData.view_withAssigned d fun _ _ _ _ => rfl
  connectedClass _ _ d := NodeData.view_withConnectedClass d fun _ _ => rfl
  scope _ d := NodeData.view_withScope d (fun _ _ _ => rfl) fun _ => rfl
  labelIndex _ d := NodeData.view_withLabelIndex d fun _ _ _ => rfl
  labels f hf d := by
    -- The labels of the scope itself are offered, what is computed from them is not.
    refine NodeData.view_modifyBody d (fun _ _ c => ?_) (fun _ _ _ _ b => ?_) fun _ _ b => ?_ <;>
      simp [NodeData.seen, NodeData.offered, Declaration.offered, Body.offered, hf,
        NodeData.expressionType?]

/-- Nor does the prefix class of a class. -/
theorem NodeData.seen_withPrefixClass (p : Option NodeId) (d : NodeData) :
    (d.modifyClass (·.withPrefixClass p)).seen = d.seen :=
  view_modifyClass d fun _ _ _ => rfl

/-- The tree of the second state offers the same as that of the first, and has the same expressions
among the nodes of the first. It has grown only if there is one. -/
structure CheckState.Regrows (s s' : CheckState) : Prop where
  regrown : s.tree.Regrown s'.tree
  seen : s.tree.Keeps NodeData.seen s'.tree

namespace CheckState.Regrows

/-- A state is regrown by leaving it alone. -/
theorem refl (s : CheckState) : s.Regrows s :=
  ⟨⟨.refl s.tree, Nat.le_refl _, fun hlt => absurd hlt (Nat.lt_irrefl _)⟩, .refl s.tree⟩

/-- What regrows in two steps regrows. -/
theorem trans {s s₁ s₂ : CheckState} (h : s.Regrows s₁) (h' : s₁.Regrows s₂) : s.Regrows s₂ where
  regrown := by
    refine ⟨h.regrown.offers.trans h'.regrown.offers,
      Nat.le_trans h.regrown.size_le h'.regrown.size_le, fun hlt => ?_⟩
    rcases Nat.eq_or_lt_of_le h.regrown.size_le with hsize | hsize
    · -- All nodes of the middle tree are nodes of the first one.
      obtain ⟨id, hid⟩ := h'.regrown.expression (hsize ▸ hlt)
      have hidlt : id < s₁.tree.size := Tree.lt_of_data fun hpending => by
        rw [hpending] at hid
        cases hid
      have hsame : (s₁.tree.data id).expressionType?.isSome =
          (s.tree.data id).expressionType?.isSome :=
        congrArg Prod.snd (h.seen.same id (hsize ▸ hidlt))
      exact ⟨id, hsame ▸ hid⟩
    · exact h.regrown.expression hsize
  seen := h.seen.trans h'.seen

instance : Std.Refl Regrows := ⟨refl⟩

instance : Trans Regrows Regrows Regrows := ⟨trans⟩

/-- A change that is not seen. -/
theorem update (s : CheckState) (id : NodeId) {f : NodeData → NodeData}
    (hf : ∀ d, (f d).seen = d.seen) : s.Regrows (s.update id f) where
  regrown := by
    refine ⟨.update s.tree id fun d => congrArg Prod.fst (hf d), ?_, fun hlt => ?_⟩
    · exact Nat.le_of_eq (Tree.size_update ..).symm
    · exact absurd hlt (Nat.not_lt.mpr (Nat.le_of_eq (Tree.size_update ..)))
  seen := .update s.tree id hf

end CheckState.Regrows

/-- The trees of the two states offer the same. -/
def CheckState.SameOffers (s s' : CheckState) : Prop := s.tree.SameOffers s'.tree

instance : Std.Refl CheckState.SameOffers := ⟨fun s => .refl s.tree⟩

instance : Trans CheckState.SameOffers CheckState.SameOffers CheckState.SameOffers :=
  ⟨Tree.SameOffers.trans⟩

/-- Typing has nothing to do in a tree without expressions. -/
theorem CheckM.leaves_typeExpr {s : CheckState}
    (h : ∀ id, (s.tree.data id).expressionType?.isSome = false) (depth : Nat) (scope id : NodeId) :
    leaves (typeExpr depth scope id) s = s := by
  cases depth with
  | zero => rfl
  | succ depth =>
    have hid := h id
    rw [typeExpr, leaves_bind_of_ok (show tree s = .ok s.tree s from rfl)]
    revert hid
    rcases s.tree.data id with _ | _ | _ | _ | _
    case expression => exact nofun
    all_goals exact fun _ => rfl

/-- Typing inserts conversions, which offer nothing. -/
theorem typingFrame_sameOffers : TypingFrame CheckState.SameOffers where
  report s _ := .refl s.tree
  expressionType s id ty :=
    .update s.tree id fun d => congrArg Prod.fst (undisturbed_seen.expressionType ty d)
  conversion s assignment _ _ _ _ :=
    (Tree.SameOffers.push s.tree rfl).trans
      (.update _ assignment fun d => congrArg Prod.fst (undisturbed_seen.assigned _ d))

/-- Checking scopes and statements regrows the tree. -/
theorem checkFrame_regrows : CheckFrame CheckState.Regrows where
  report s _ := ⟨(CheckState.Regrows.refl s).regrown, .refl s.tree⟩
  typing depth scope id s := by
    have hseen := CheckM.typeExpr_follows (typingFrame_keeps undisturbed_seen.expressionType
      undisturbed_seen.assigned) depth scope id s
    have hoffers := CheckM.typeExpr_follows typingFrame_sameOffers depth scope id s
    refine ⟨⟨hoffers, hseen.size_le, fun hlt => ?_⟩, hseen⟩
    by_contra hnone
    rw [CheckM.leaves_typeExpr (fun id => ?_)] at hlt
    · exact Nat.lt_irrefl _ hlt
    · exact Bool.eq_false_iff.mpr fun hid => hnone ⟨id, hid⟩
  connectedClass s id c scope := .update s id (undisturbed_seen.connectedClass c scope)
  scope s id scope := .update s id (undisturbed_seen.scope scope)
  labelIndex s id index := .update s id (undisturbed_seen.labelIndex index)
  labels s id f hf := .update s id (undisturbed_seen.labels f hf)

/-! ## The phases of a check -/

namespace CheckState

/-- Resolving prefixes loses no report. -/
theorem forClasses_resolvePrefix_reportsMore (classes : List NodeId) (s : CheckState) :
    s.ReportsMore (s.forClasses resolvePrefix classes) :=
  foldl_follows (resolvePrefix_follows ReportsMore.report fun _ _ _ => List.prefix_rfl) classes s

/-- Cutting circular prefixes loses no report. -/
theorem forClasses_cutPrefixCycle_reportsMore (classes : List NodeId) (s : CheckState) :
    s.ReportsMore (s.forClasses cutPrefixCycle classes) :=
  foldl_follows (cutPrefixCycle_follows ReportsMore.report fun _ _ _ => List.prefix_rfl) classes s

/-- Resolving prefixes changes nothing that a lookup sees but links. -/
theorem forClasses_resolvePrefix_regrows (classes : List NodeId) (s : CheckState) :
    s.Regrows (s.forClasses resolvePrefix classes) :=
  foldl_follows (resolvePrefix_follows checkFrame_regrows.report fun s id p =>
    .update s id (NodeData.seen_withPrefixClass p)) classes s

/-- The first two phases of a check change nothing that a lookup sees but links. -/
theorem withPrefixes_regrows (module : NodeId) (s : CheckState) :
    s.Regrows (s.withPrefixes module) :=
  (forClasses_resolvePrefix_regrows _ s).trans <|
    foldl_follows (cutPrefixCycle_follows checkFrame_regrows.report fun s id p =>
      .update s id (NodeData.seen_withPrefixClass p)) _ _

end CheckState

/-- Behind its first two phases a check loses no report. -/
theorem CheckM.check_reportsMore (module : NodeId) (s : CheckState) :
    (s.withPrefixes module).ReportsMore (leaves (check module) s) :=
  check_follows (fun _ _ _ => List.prefix_rfl) (fun _ _ _ => List.prefix_rfl)
    checkFrame_reportsMore module s

/-- Behind its first two phases a check changes nothing that a lookup sees but links. -/
theorem CheckM.check_regrows (module : NodeId) (s : CheckState) :
    (s.withPrefixes module).Regrows (leaves (check module) s) :=
  check_follows (fun s id p => .update s id (undisturbed_seen.protectedBy p))
    (fun s id h => .update s id (undisturbed_seen.hiddenBy h)) checkFrame_regrows module s

end Simula
