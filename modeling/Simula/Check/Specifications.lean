import Simula.Check.State

/-!
# Hidden and protected specifications

Every hidden specification must refer to a protected one in its class or along its prefixes,
and the two are linked. Every protected specification must concern an attribute that its class
or one of its prefixes declares.
-/

namespace Simula.CheckState

/-- A hidden specification with its protected one; other nodes stay as they are. -/
def withProtectedBy (p : NodeId) : NodeData → NodeData
  | .declaration i s (.hiddenSpec _) => .declaration i s (.hiddenSpec (some p))
  | d => d

/-- A protected specification with its hidden one; other nodes stay as they are. -/
def withHiddenBy (h : NodeId) : NodeData → NodeData
  | .declaration i s (.protectedSpec _) => .declaration i s (.protectedSpec (some h))
  | d => d

/-- Links a hidden specification of a class with the protected one it refers to. -/
def pairHidden (c : NodeId) (s : CheckState) (h : NodeId) : CheckState :=
  let identifier := (s.tree.identifier? h).getD ""
  match s.tree.findProtected c identifier with
  | some p => (s.update h (withProtectedBy p)).update p (withHiddenBy h)
  | none => s.report (s.tree.line h) (.hiddenUnprotected identifier)

/-- Whether a class or one of its prefixes offers an identifier. -/
def declaredOnChain (t : Tree) (c : NodeId) (identifier : String) : Bool :=
  (t.prefixChain c).any fun d => (t.lookupLocal d identifier).isSome

/-- Reports a protected specification of a class that concerns no attribute. -/
def checkProtected (c : NodeId) (s : CheckState) (p : NodeId) : CheckState :=
  let identifier := (s.tree.identifier? p).getD ""
  if declaredOnChain s.tree c identifier then s
  else s.report (s.tree.line p) (.protectedUndeclared identifier)

/-- Checks the hidden and protected specifications of a class. -/
def pairSpecifications (s : CheckState) (c : NodeId) : CheckState :=
  match s.tree.class? c with
  | none => s
  | some parts =>
    parts.guarded.toList.foldl (checkProtected c) (parts.hidden.toList.foldl (pairHidden c) s)

end Simula.CheckState
