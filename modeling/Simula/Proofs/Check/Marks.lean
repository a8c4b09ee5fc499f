import Simula.Check

/-!
# Marks that a check leaves in nodes

A check marks the nodes that it meets: with types, with links, with the scopes around them and with
the numbers of labels. Each mark belongs to a few forms of nodes, and other nodes stay as they are.
So a view of nodes does not show a mark if it does not show it in nodes of these forms.
-/

namespace Simula.NodeData

variable {β : Type} {v : NodeData → β} (d : NodeData)

/-- A view without types does not see the type of an expression change. -/
theorem view_withExpressionType {ty : Ty}
    (h : ∀ form old, v (.expression form ty) = v (.expression form old)) :
    v (d.withExpressionType ty) = v d := by
  cases d with
  | expression form old => exact h form old
  | _ => rfl

/-- A view without assigned values does not see them change. -/
theorem view_withAssigned {value : NodeId}
    (h : ∀ op lhs old ty, v (.expression (.assignment op lhs value) ty) =
      v (.expression (.assignment op lhs old) ty)) :
    v (CheckM.withAssigned value d) = v d := by
  unfold CheckM.withAssigned
  split
  · exact h _ _ _ _
  · rfl

/-- A view without the links of connections does not see them change. -/
theorem view_withConnectedClass {c : Option NodeId} {scope : NodeId}
    (h : ∀ (b : Connection) (s : Option NodeId),
      v (.connection { b with classDeclaration := c, declaredIn := s }) = v (.connection b)) :
    v (CheckM.withConnectedClass c scope d) = v d := by
  cases d with
  | connection b => exact h b _
  | _ => rfl

/-- A view without scopes does not see the scope of a node change. -/
theorem view_withDeclaredIn {scope : Option NodeId}
    (hdeclaration : ∀ i old form, v (.declaration i scope form) = v (.declaration i old form))
    (hconnection : ∀ b : Connection,
      v (.connection { b with declaredIn := scope }) = v (.connection b)) :
    v (d.withDeclaredIn scope) = v d := by
  cases d with
  | declaration i old form => exact hdeclaration i old form
  | connection b => exact hconnection b
  | _ => rfl

/-- Nor does it see the scope that a check gives to a node. -/
theorem view_withScope {scope : NodeId}
    (hdeclaration : ∀ i old form,
      v (.declaration i (some scope) form) = v (.declaration i old form))
    (hconnection : ∀ b : Connection,
      v (.connection { b with declaredIn := some scope }) = v (.connection b)) :
    v (CheckM.withScope scope d) = v d := by
  rw [CheckM.withScope]
  split
  · exact view_withDeclaredIn d hdeclaration hconnection
  · rfl

/-- A view without the numbers of labels does not see them change. -/
theorem view_withLabelIndex {index : Nat}
    (h : ∀ i s old, v (.declaration i s (.label index)) = v (.declaration i s (.label old))) :
    v (Tree.withLabelIndex index d) = v d := by
  unfold Tree.withLabelIndex
  split
  · exact h _ _ _
  · rfl

/-- A view without pairs does not see a hidden specification get one. -/
theorem view_withProtectedBy {p : NodeId}
    (h : ∀ i s old, v (.declaration i s (.hiddenSpec (some p))) =
      v (.declaration i s (.hiddenSpec old))) :
    v (CheckState.withProtectedBy p d) = v d := by
  unfold CheckState.withProtectedBy
  split
  · exact h _ _ _
  · rfl

/-- Nor does it see a protected specification get one. -/
theorem view_withHiddenBy {hidden : NodeId}
    (h : ∀ i s old, v (.declaration i s (.protectedSpec (some hidden))) =
      v (.declaration i s (.protectedSpec old))) :
    v (CheckState.withHiddenBy hidden d) = v d := by
  unfold CheckState.withHiddenBy
  split
  · exact h _ _ _
  · rfl

/-- A view that shows of classes only what stays does not see them change. -/
theorem view_modifyClass {f : ClassParts → ClassParts}
    (h : ∀ i s c, v (.declaration i s (.classDeclaration (f c))) =
      v (.declaration i s (.classDeclaration c))) :
    v (d.modifyClass f) = v d := by
  unfold modifyClass
  split
  · exact h _ _ _
  · rfl

/-- A view that shows of scopes only what stays does not see them change. -/
theorem view_modifyBody {f : Body → Body}
    (hclass : ∀ i s c, v (.declaration i s (.classDeclaration { c with body := f c.body })) =
      v (.declaration i s (.classDeclaration c)))
    (hprocedure : ∀ i s ty ps b, v (.declaration i s (.procedure ty ps (f b))) =
      v (.declaration i s (.procedure ty ps b)))
    (hblock : ∀ i s b, v (.declaration i s (.block (f b))) = v (.declaration i s (.block b))) :
    v (d.modifyBody f) = v d := by
  cases d with
  | declaration i s form =>
    cases form with
    | classDeclaration c => exact hclass i s c
    | procedure ty ps b => exact hprocedure i s ty ps b
    | block b => exact hblock i s b
    | _ => rfl
  | _ => rfl

end Simula.NodeData
