import Mathlib.Tactic.Tauto
import Simula.Proofs.Graph.Reachability

/-!
# Traversals as recursions

A traversal keeps a stack of nodes to visit. It does the same as a recursion that visits nodes one
after the other, and below each node that is not marked its successors before the next one. The
recursion need not end, so it is given by its rules. In a graph that no successor leaves it ends,
and the visits are those of the traversal.

The rules show how many visits there are: one for each node to start with, and one for each
successor of a node that is entered.
-/

namespace Simula.Graph

variable {next : Nat → List Nat}

/-- Visits in two parts enter the nodes of both. -/
@[simp] theorem entered_append (us vs : List Visit) :
    entered (us ++ vs) = entered us ++ entered vs := by
  rw [entered, List.filter_append, List.map_append]
  rfl

/-- The visits of the nodes one after the other and of everything below them, when some nodes are
marked already. A node that is marked is met again. Any other is entered and marked, its successors
are visited one level deeper, and what they have marked stays marked. -/
inductive DepthFirst (next : Nat → List Nat) : List Nat → Nat → List Nat → List Visit → Prop
  | done {marked : List Nat} {depth : Nat} : DepthFirst next marked depth [] []
  | again {marked : List Nat} {depth n : Nat} {ns : List Nat} {vs : List Visit} (hn : n ∈ marked)
    (hrest : DepthFirst next marked depth ns vs) :
    DepthFirst next marked depth (n :: ns) (⟨depth, n, false⟩ :: vs)
  | first {marked : List Nat} {depth n : Nat} {ns : List Nat} {us vs : List Visit}
    (hn : n ∉ marked) (hbelow : DepthFirst next (n :: marked) (depth + 1) (next n) us)
    (hrest : DepthFirst next (entered us ++ n :: marked) depth ns vs) :
    DepthFirst next marked depth (n :: ns) (⟨depth, n, true⟩ :: (us ++ vs))

namespace DepthFirst

variable {marked ns : List Nat} {depth : Nat} {vs vs' : List Visit}

/-- The visits are determined. -/
theorem unique (h : DepthFirst next marked depth ns vs) (h' : DepthFirst next marked depth ns vs') :
    vs = vs' := by
  induction h generalizing vs' with
  | done =>
    cases h'
    rfl
  | again hn _ ih =>
    cases h' with
    | again _ hrest => rw [ih hrest]
    | first hn' => exact absurd hn hn'
  | first hn _ _ ihbelow ihrest =>
    cases h' with
    | again hn' => exact absurd hn' hn
    | first _ hbelow hrest =>
      obtain rfl := ihbelow hbelow
      rw [ihrest hrest]

/-- What is visited is the nodes to start with and the successors of those that are entered. -/
theorem perm (h : DepthFirst next marked depth ns vs) :
    (vs.map (·.node)).Perm (ns ++ (entered vs).flatMap next) := by
  induction h with
  | done => exact .nil
  | again _ _ ih => exact ih.cons _
  | @first marked depth n ns us vs _ _ _ ihbelow ihrest =>
    rw [List.map_cons, List.map_append, entered_cons_first, entered_append, List.flatMap_cons,
      List.flatMap_append]
    refine List.Perm.cons n ((ihbelow.append ihrest).trans ?_)
    -- Both sides have the same four parts.
    rw [List.perm_iff_count]
    intro m
    simp only [List.count_append, List.append_eq]
    omega

/-- A node that is met again is marked or has been entered before. -/
theorem mem_of_again (h : DepthFirst next marked depth ns vs) {l₁ l₂ : List Visit} {d n : Nat}
    (hvs : vs = l₁ ++ ⟨d, n, false⟩ :: l₂) : n ∈ marked ∨ n ∈ entered l₁ := by
  induction h generalizing l₁ l₂ with
  | done => simp at hvs
  | again hn _ ih =>
    cases l₁ with
    | nil =>
      cases hvs
      exact .inl hn
    | cons v l₁ =>
      obtain ⟨rfl, htail⟩ := List.cons.inj hvs
      rw [entered_cons_again]
      exact ih htail
  | @first marked depth a ns us vs _ _ _ ihbelow ihrest =>
    cases l₁ with
    | nil => cases hvs
    | cons v l₁ =>
      obtain ⟨rfl, htail⟩ := List.cons.inj hvs
      rw [entered_cons_first, List.mem_cons]
      rcases List.append_eq_append_iff.mp htail with ⟨l, rfl, hl⟩ | ⟨l, rfl, hl⟩
      · -- The visit is behind those below the first node.
        rcases ihrest hl with hm | hm
        · simp only [List.mem_append, List.mem_cons] at hm
          simp only [entered_append, List.mem_append]
          tauto
        · simp only [entered_append, List.mem_append]
          exact .inr (.inr (.inr hm))
      · cases l with
        | nil =>
          have hvs' : vs = [] ++ ⟨d, n, false⟩ :: l₂ := hl.symm
          rcases ihrest hvs' with hm | hm
          · simp only [List.mem_append, List.mem_cons, List.append_nil] at hm
            tauto
          · cases hm
        | cons w l =>
          obtain ⟨rfl, rfl⟩ := List.cons.inj hl
          rcases ihbelow rfl with hm | hm
          · rw [List.mem_cons] at hm
            tauto
          · exact .inr (.inr hm)

end DepthFirst

/-! ## The traversal -/

/-- The marks in the array are those of the listed nodes. -/
def Marks (seen : Array Bool) (marked : List Nat) : Prop :=
  ∀ n, seen[n]? = some true ↔ n ∈ marked

/-- Marking one more node. -/
theorem Marks.cons {seen : Array Bool} {marked : List Nat} (h : Marks seen marked) {n : Nat}
    (hn : n < seen.size) : Marks (seen.setIfInBounds n true) (n :: marked) := by
  intro m
  rw [List.mem_cons]
  by_cases hm : m = n
  · subst hm
    simp [Array.getElem?_setIfInBounds_self_of_lt hn]
  · rw [Array.getElem?_setIfInBounds_ne (Ne.symm hm), h m]
    simp [hm]

/-- A marked node on top of the stack is only met again. -/
theorem visits_of_marked {seen : Array Bool} {n : Nat} (h : seen[n]? = some true) (depth : Nat)
    (stack : List (Nat × Nat)) :
    visits next seen ((depth, n) :: stack) = ⟨depth, n, false⟩ :: visits next seen stack := by
  rw [visits]
  split <;> simp_all

/-- Any other node of the graph is entered, and its successors come on top of the stack. -/
theorem visits_of_unmarked {seen : Array Bool} {n : Nat} (h : seen[n]? = some false) (depth : Nat)
    (stack : List (Nat × Nat)) :
    visits next seen ((depth, n) :: stack) = ⟨depth, n, true⟩ ::
      visits next (seen.setIfInBounds n true) ((next n).map (depth + 1, ·) ++ stack) := by
  rw [visits]
  split <;> simp_all

/-- The nodes on top of the stack are visited as in the recursion, and then the traversal goes on
with the rest of the stack and the marks that they have left. -/
theorem visits_append {seen : Array Bool} {marked : List Nat}
    (hnext : ∀ n < seen.size, ∀ m ∈ next n, m < seen.size) (hmarks : Marks seen marked)
    (depth : Nat) {ns : List Nat} (hns : ∀ n ∈ ns, n < seen.size) (stack : List (Nat × Nat)) :
    ∃ (us : List Visit) (seen' : Array Bool), DepthFirst next marked depth ns us ∧
      visits next seen (ns.map (depth, ·) ++ stack) = us ++ visits next seen' stack ∧
      seen'.size = seen.size ∧ seen'.count false ≤ seen.count false ∧
      Marks seen' (entered us ++ marked) := by
  match ns, hns with
  | [], _ => exact ⟨[], seen, .done, rfl, rfl, Nat.le_refl _, hmarks⟩
  | n :: ns, hns =>
    have hn : n < seen.size := hns n List.mem_cons_self
    have hrest : ∀ m ∈ ns, m < seen.size := fun m hm => hns m (List.mem_cons_of_mem _ hm)
    cases hseen : seen[n] with
    | true =>
      have hget : seen[n]? = some true := Array.getElem?_eq_some_iff.mpr ⟨hn, hseen⟩
      obtain ⟨us, seen', hus, hvisits, hsize, hcount, hmarks'⟩ :=
        visits_append hnext hmarks depth hrest stack
      refine ⟨_, seen', .again ((hmarks n).mp hget) hus, ?_, hsize, hcount, hmarks'⟩
      rw [List.map_cons, List.cons_append, visits_of_marked hget, hvisits, List.cons_append]
    | false =>
      have hget : seen[n]? = some false := Array.getElem?_eq_some_iff.mpr ⟨hn, hseen⟩
      have hless := count_false_set_lt seen n hget
      have hn' : n ∉ marked := fun hm => by
        rw [(hmarks n).mpr hm] at hget
        cases hget
      -- Below `n` the array of marks has `n` in addition.
      have hsize₁ : (seen.setIfInBounds n true).size = seen.size := Array.size_setIfInBounds
      obtain ⟨us, seen₁, hus, hvisits, hsize, hcount, hmarks₁⟩ :=
        visits_append (by rwa [hsize₁]) (hmarks.cons hn) (depth + 1)
          (by rw [hsize₁]; exact hnext n hn) (ns.map (depth, ·) ++ stack)
      rw [hsize₁] at hsize
      obtain ⟨vs, seen₂, hvs, hvisits₂, hsize₂, hcount₂, hmarks₂⟩ :=
        visits_append (by rwa [hsize]) hmarks₁ depth (by rwa [hsize]) stack
      refine ⟨_, seen₂, .first hn' hus hvs, ?_, hsize₂.trans hsize, by omega, ?_⟩
      · rw [List.map_cons, List.cons_append, visits_of_unmarked hget, hvisits, hvisits₂,
          List.cons_append, List.append_assoc]
      · intro m
        rw [hmarks₂ m, entered_cons_first, entered_append]
        simp only [List.mem_append, List.mem_cons]
        tauto
termination_by (seen.count false, ns.length)
decreasing_by
  · exact Prod.Lex.left _ _ hless
  · exact Prod.Lex.left _ _ (Nat.lt_of_le_of_lt hcount hless)
  · exact Prod.Lex.right _ (Nat.lt_succ_self _)

/-- **Stack and recursion.** In a graph that no successor leaves the visits of a traversal are those
of the recursion. -/
theorem traverse_depthFirst {size : Nat} {roots : List Nat}
    (hnext : ∀ n < size, ∀ m ∈ next n, m < size) (hroots : ∀ n ∈ roots, n < size) :
    DepthFirst next [] 0 roots (traverse size next roots) := by
  have hmarks : Marks (Array.replicate size false) [] := by
    intro n
    simp [Array.getElem?_replicate]
  have hsize : (Array.replicate size false).size = size := Array.size_replicate
  obtain ⟨us, seen', hus, hvisits, -⟩ :=
    visits_append (by rwa [hsize]) hmarks 0 (by rwa [hsize]) []
  rw [List.append_nil, visits, List.append_nil] at hvisits
  rw [traverse, hvisits]
  exact hus

end Simula.Graph
