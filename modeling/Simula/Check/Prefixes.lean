import Simula.Check.State
import Simula.Graph.Traversal

/-!
# Prefixes of classes

Before anything else is checked, the prefix of every class of the module is resolved from the
scope around the class. Then each chain that leads back to its start is cut at the first class
on it, so that later phases meet no endless chains.
-/

namespace Simula

/-- The classes below a node, in depth-first preorder. -/
def Tree.classesBelow (t : Tree) (root : NodeId) : List NodeId :=
  (Graph.preorder t.size t.children [root]).filter t.isClass

/-- Records the prefix class of a class. -/
def ClassParts.withPrefixClass (p : Option NodeId) (c : ClassParts) : ClassParts :=
  { c with prefixClass := p }

namespace CheckState

/-- Looks up the prefix of a class that has one and does not know its prefix class yet. -/
def resolvePrefix (s : CheckState) (c : NodeId) : CheckState :=
  match (s.tree.class? c).map fun d => (d.prefixName, d.prefixClass) with
  | some (some name, none) =>
    let line := s.tree.line c
    match (s.tree.resolve ((s.tree.declaredIn? c).getD c) name).declaration with
    | none => s.report line (.undefinedIdentifier name)
    | some found =>
      if s.tree.isClass found then
        s.update c fun d => d.modifyClass (·.withPrefixClass (some found))
      else s.report line (.prefixNotAClass name)
  | _ => s

end CheckState

/-- Whether the chain from a class leads to `target` within a number of steps. -/
def Tree.chainReaches (t : Tree) (target : NodeId) : Nat → Option NodeId → Bool
  | _, none => false
  | 0, some _ => false
  | n + 1, some c => c == target || t.chainReaches target n (t.prefixClass? c)

/-- Whether a class is among its own prefixes. -/
def Tree.inPrefixCycle (t : Tree) (c : NodeId) : Bool :=
  t.chainReaches c (t.size + 1) (t.prefixClass? c)

namespace CheckState

/-- Removes the prefix class of a class that is among its own prefixes. -/
def cutPrefixCycle (s : CheckState) (c : NodeId) : CheckState :=
  if s.tree.inPrefixCycle c then
    (s.report (s.tree.line c) (.circularPrefix ((s.tree.identifier? c).getD "?"))).update c
      fun d => d.modifyClass (·.withPrefixClass none)
  else s

end CheckState

end Simula
