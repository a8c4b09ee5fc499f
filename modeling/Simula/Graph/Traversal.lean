/-!
# Depth-first traversal

A traversal of a finite graph from a list of starting nodes, given by the successors of each
node. Every node is entered once; meeting it again is recorded but leads no further, so the
traversal ends on graphs with sharing and cycles.

The result lists the visits in order, each with its depth. The first visits alone form the
depth-first preorder of the nodes that can be reached.
-/

namespace Simula.Graph

/-- A node met during a traversal. -/
structure Visit where
  /-- The number of steps from a starting node along the traversal. -/
  depth : Nat
  node : Nat
  /-- Whether the node is met for the first time. -/
  first : Bool
  deriving DecidableEq, Repr

/-- Marking an unmarked node leaves fewer unmarked ones. -/
theorem count_false_set_lt (seen : Array Bool) (n : Nat) (h : seen[n]? = some false) :
    (seen.setIfInBounds n true).count false < seen.count false := by
  obtain ⟨hn, hv⟩ := Array.getElem?_eq_some_iff.mp h
  have hpos : 0 < seen.count false := Array.count_pos_iff.mpr (hv ▸ Array.getElem_mem hn)
  have hset : (seen.setIfInBounds n true).count false = seen.count false - 1 := by
    rw [Array.setIfInBounds_def, dif_pos hn, Array.count_set hn, hv]
    rfl
  omega

/-- The visits of a traversal that has marked `seen` and still has to visit `stack`; a number
beyond the graph is passed over. -/
def visits (next : Nat → List Nat) (seen : Array Bool) : List (Nat × Nat) → List Visit
  | [] => []
  | (depth, n) :: rest =>
    match _h : seen[n]? with
    | none => visits next seen rest
    | some true => ⟨depth, n, false⟩ :: visits next seen rest
    | some false =>
      ⟨depth, n, true⟩ ::
        visits next (seen.setIfInBounds n true) ((next n).map (depth + 1, ·) ++ rest)
termination_by stack => (seen.count false, stack.length)
decreasing_by
  · exact Prod.Lex.right _ (by simp)
  · exact Prod.Lex.right _ (by simp)
  · exact Prod.Lex.left _ _ (count_false_set_lt seen n ‹_›)

/-- The visits of a traversal of a graph with `size` nodes from the given starting nodes. -/
def traverse (size : Nat) (next : Nat → List Nat) (roots : List Nat) : List Visit :=
  visits next (Array.replicate size false) (roots.map (0, ·))

/-- The nodes that can be reached, in the order of their first visits. -/
def preorder (size : Nat) (next : Nat → List Nat) (roots : List Nat) : List Nat :=
  ((traverse size next roots).filter (·.first)).map (·.node)

end Simula.Graph
