import Simula.Tree.Building
import Simula.Tree.PrefixChain

/-!
# Accumulated labels

Code generation numbers the labels of a class together with those of its prefix classes. The
labels of the outermost prefix come first, and a label's index is its position from 1.

The list is kept in the scope for which it was computed.
-/

namespace Simula.Tree

/-- The largest number of labels that can be numbered. -/
def maxLabels : Nat := 65535

/-- The scopes whose labels count for a scope, outermost prefix first. -/
def labelOwners (t : Tree) (scope : NodeId) : List NodeId :=
  if t.isClass scope then (t.prefixChain scope).reverse else [scope]

/-- The labels of one scope alone. -/
def ownLabels (t : Tree) (owner : NodeId) : Except Error (List NodeId) :=
  match (t.data owner).labels? with
  | some l => .ok l.own.toList
  | none => .error (.internal (.noLabelList (t.kind owner)))

/-- A label with the given index; other nodes stay as they are. -/
def withLabelIndex (index : Nat) : NodeData → NodeData
  | .declaration i s (.label _) => .declaration i s (.label index)
  | d => d

/-- Gives the labels of a list the indexes from `index` on. -/
def numberLabels : Nat → List NodeId → Tree → Tree
  | _, [], t => t
  | index, label :: rest, t =>
    numberLabels (index + 1) rest (t.update label (withLabelIndex index))

/-- The labels of a scope and its prefix classes, numbered and remembered in the scope. -/
def accumulatedLabels (scope : NodeId) : TreeM (Array NodeId) := fun t =>
  match (t.data scope).labels?.bind (·.accumulated) with
  | some labels => .ok labels t
  | none =>
    match (t.labelOwners scope).mapM t.ownLabels with
    | .error e => .error e t
    | .ok lists =>
      let labels := lists.flatten
      if labels.length > maxLabels then .error (.range labels.length) t
      else
        .ok labels.toArray <| (numberLabels 1 labels t).update scope fun d =>
          d.modifyBody fun b =>
            { b with labels := { b.labels with accumulated := some labels.toArray } }

/-- Marks the label list of a scope as ready; tells whether the scope has one. -/
def markLabelsReady (t : Tree) (scope : NodeId) : Tree × Bool :=
  (t.update scope fun d => d.modifyBody fun b =>
      { b with labels := { b.labels with ready := true } },
    (t.data scope).labels?.isSome)

end Simula.Tree
