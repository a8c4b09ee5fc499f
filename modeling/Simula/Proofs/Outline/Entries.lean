import Mathlib.Algebra.GroupWithZero.Nat
import Simula.Outline
import Simula.Proofs.Graph.DepthFirst

/-!
# The entries of an outline

An outline has one entry for its root and one for each child of each node that is shown. A node that
can be reached from the root is shown in full once, where it is met first. Wherever it is met again
there is only a reference to it, and so the outline of a graph with cycles ends.
-/

namespace Simula.Outline

open Simula.Graph

/-- A full entry shows the number and the kind of its node, what the node says of itself, its line,
and its type if it has one. -/
theorem visitLine_of_first (t : Tree) {v : Visit} (h : v.first = true) :
    visitLine t v = indentation v.depth ++ "#" ++ toString v.node ++ " " ++ (t.kind v.node).name ++
      identifierText (t.data v.node) ++ details (t.data v.node) ++
      " (line " ++ toString (t.line v.node) ++ ")" ++ typeText (t.data v.node) ++ "\n" := by
  rw [visitLine, if_pos h]
  rfl

/-- A reference is the number of a node and nothing else. -/
theorem visitLine_of_again (t : Tree) {v : Visit} (h : v.first = false) :
    visitLine t v = indentation v.depth ++ "-> #" ++ toString v.node ++ "\n" := by
  rw [visitLine, if_neg (by rw [h]; exact Bool.false_ne_true)]

/-- **Completeness of outlines.** In a tree whose children are all there, the outline of a node is a
list of entries, in the order of a recursion that goes below a node before the next one. Each entry
ends its line, a full one with all that is shown of the node and a reference with its number only.
The full entries are those of the nodes that can be reached, one for each. All entries together are one for
the root and one for each child of such a node, so that every occurrence but the first is a
reference, and the reference comes behind the full entry. -/
theorem render_complete {t : Tree} {root : NodeId} (hroot : root < t.size)
    (hchildren : ∀ n < t.size, ∀ m ∈ t.children n, m < t.size) :
    ∃ (entries : List Visit) (shown : List NodeId),
      DepthFirst t.children [] 0 [root] entries ∧
      render t root = String.join (entries.map (visitLine t)) ∧
      (∀ v ∈ entries, v.first = true →
        visitLine t v = indentation v.depth ++ "#" ++ toString v.node ++ " " ++
          (t.kind v.node).name ++ identifierText (t.data v.node) ++ details (t.data v.node) ++
          " (line " ++ toString (t.line v.node) ++ ")" ++ typeText (t.data v.node) ++ "\n") ∧
      (∀ v ∈ entries, v.first = false →
        visitLine t v = indentation v.depth ++ "-> #" ++ toString v.node ++ "\n") ∧
      (entries.filter (·.first)).map (·.node) = shown ∧
      shown.Nodup ∧
      (∀ n, n ∈ shown ↔ Reaches t.size t.children [root] n) ∧
      (entries.map (·.node)).Perm (root :: shown.flatMap t.children) ∧
      entries.length = 1 + (shown.map fun n => (t.children n).length).sum ∧
      ∀ before v after, entries = before ++ v :: after → v.first = false →
        ∃ full ∈ before, full.first = true ∧ full.node = v.node := by
  have htraverse : DepthFirst t.children [] 0 [root] (traverse t.size t.children [root]) :=
    traverse_depthFirst hchildren (by simpa using hroot)
  have hperm := htraverse.perm
  refine ⟨traverse t.size t.children [root], preorder t.size t.children [root], htraverse, rfl,
    fun v _ => visitLine_of_first t, fun v _ => visitLine_of_again t, rfl, nodup_preorder,
    fun n => mem_preorder_iff, hperm, ?_, ?_⟩
  · have hlength := hperm.length_eq
    rw [List.length_map, List.length_append, List.length_flatMap] at hlength
    exact hlength
  · rintro before ⟨depth, n, first⟩ after hentries rfl
    rcases htraverse.mem_of_again hentries with hmarked | hentered
    · cases hmarked
    · obtain ⟨full, hfull, hnode⟩ := List.mem_map.mp hentered
      obtain ⟨hmem, hfirst⟩ := List.mem_filter.mp hfull
      exact ⟨full, hmem, hfirst, hnode⟩

/-- A block with a statement that holds the block again, and with one statement in three places. The
last node is out of reach. -/
def knot : Tree where
  nodes := #[⟨1, .declaration "p" none (.block { statements := #[1, 2, 1] })⟩,
    ⟨2, .statement (.compound #[2, 0])⟩, ⟨3, .statement .dummy⟩, ⟨4, .statement .dummy⟩]

/-- The entries that the recursion gives. -/
def knotEntries : List Visit :=
  [⟨0, 0, true⟩, ⟨1, 1, true⟩, ⟨2, 2, true⟩, ⟨2, 0, false⟩, ⟨1, 2, false⟩, ⟨1, 1, false⟩]

/-- The entries are those of a recursion over the knot. -/
theorem depthFirst_knot : DepthFirst knot.children [] 0 [0] knotEntries := by
  have hinner : DepthFirst knot.children [1, 0] 2 (knot.children 1) [⟨2, 2, true⟩, ⟨2, 0, false⟩] :=
    @DepthFirst.first _ [1, 0] 2 2 [0] [] _ (by decide) .done (.again (by decide) .done)
  have hbelow : DepthFirst knot.children [0] 1 (knot.children 0) knotEntries.tail :=
    .first (by decide) hinner (.again (by decide) (.again (by decide) .done))
  exact .first (by decide) hbelow .done

/-- Its outline has six entries, three of them references. -/
theorem render_knot :
    0 < knot.size ∧ (∀ n < knot.size, ∀ m ∈ knot.children n, m < knot.size) ∧
      render knot 0 = String.join (knotEntries.map (visitLine knot)) ∧
      ∀ n, n ∈ [0, 1, 2] ↔ Reaches knot.size knot.children [0] n := by
  have hsize : 0 < knot.size := by decide
  have hchildren : ∀ n < knot.size, ∀ m ∈ knot.children n, m < knot.size := by decide
  obtain ⟨entries, shown, hentries, hrender, -, -, hshown, -, hreached, -⟩ :=
    render_complete hsize hchildren
  obtain rfl := hentries.unique depthFirst_knot
  obtain rfl : shown = [0, 1, 2] := hshown.symm
  exact ⟨hsize, hchildren, hrender, hreached⟩

end Simula.Outline
