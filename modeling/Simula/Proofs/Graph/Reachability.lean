import Simula.Graph.Traversal

/-!
# What a traversal enters

A traversal enters exactly the nodes of the graph that can be reached from its starting nodes.
That no other node is entered holds of every set that the successors do not leave. That none is
missed needs the marks: behind a node that has been entered all successors are marked, now or in
the end.
-/

namespace Simula.Graph

variable {next : Nat → List Nat} {size : Nat} {roots : List Nat}

/-- The nodes of a graph of a given size that can be reached from the starting nodes. -/
inductive Reaches (size : Nat) (next : Nat → List Nat) (roots : List Nat) : Nat → Prop
  | root {n : Nat} (hn : n ∈ roots) (hsize : n < size) : Reaches size next roots n
  | step {n m : Nat} (hn : Reaches size next roots n) (hm : m ∈ next n) (hsize : m < size) :
    Reaches size next roots m

/-- More successors lead to no fewer nodes. -/
theorem Reaches.mono {next' : Nat → List Nat} (hnext : ∀ n, next n ⊆ next' n) {n : Nat}
    (h : Reaches size next roots n) : Reaches size next' roots n := by
  induction h with
  | root hn hsize => exact .root hn hsize
  | step _ hm hsize ih => exact .step ih (hnext _ hm) hsize

/-- The nodes entered by some visits. -/
def entered (vs : List Visit) : List Nat := (vs.filter (·.first)).map (·.node)

/-- Without visits no node is entered. -/
@[simp] theorem entered_nil : entered [] = [] := rfl

/-- A first visit enters its node. -/
@[simp] theorem entered_cons_first (depth n : Nat) (vs : List Visit) :
    entered (⟨depth, n, true⟩ :: vs) = n :: entered vs := rfl

/-- A further visit enters nothing. -/
@[simp] theorem entered_cons_again (depth n : Nat) (vs : List Visit) :
    entered (⟨depth, n, false⟩ :: vs) = entered vs := rfl

/-- A traversal enters only nodes of the graph, and does not leave a set that holds its stack and
the successors of all its members. -/
theorem mem_of_mem_entered {p : Nat → Prop} {seen : Array Bool} {stack : List (Nat × Nat)}
    (hnext : ∀ n, p n → ∀ m ∈ next n, m < seen.size → p m)
    (hstack : ∀ e ∈ stack, e.2 < seen.size → p e.2) :
    ∀ n ∈ entered (visits next seen stack), n < seen.size ∧ p n := by
  fun_induction visits next seen stack with
  | case1 => simp
  | case2 seen depth n rest h ih =>
    exact ih hnext fun e he => hstack e (List.mem_cons_of_mem _ he)
  | case3 seen depth n rest h ih =>
    simp only [entered_cons_again]
    exact ih hnext fun e he => hstack e (List.mem_cons_of_mem _ he)
  | case4 seen depth n rest h ih =>
    have hn : n < seen.size := (Array.getElem?_eq_some_iff.mp h).1
    have hpn : p n := hstack (depth, n) List.mem_cons_self hn
    simp only [Array.size_setIfInBounds] at ih
    simp only [entered_cons_first, List.forall_mem_cons]
    refine ⟨⟨hn, hpn⟩, ih hnext ?_⟩
    intro e he
    rcases List.mem_append.mp he with he | he
    · obtain ⟨m, hm, rfl⟩ := List.mem_map.mp he
      exact hnext n hpn m hm
    · exact hstack e (List.mem_cons_of_mem _ he)

/-- Every node of the graph on the stack, and every successor of a node that is entered, is marked
already or entered. -/
theorem marked_or_mem_entered {seen : Array Bool} {stack : List (Nat × Nat)} :
    (∀ e ∈ stack, e.2 < seen.size →
      seen[e.2]? = some true ∨ e.2 ∈ entered (visits next seen stack)) ∧
    ∀ n ∈ entered (visits next seen stack), ∀ m ∈ next n, m < seen.size →
      seen[m]? = some true ∨ m ∈ entered (visits next seen stack) := by
  fun_induction visits next seen stack with
  | case1 => simp
  | case2 seen depth n rest h ih =>
    have hn : seen.size ≤ n := Array.getElem?_eq_none_iff.mp h
    simp only [List.forall_mem_cons]
    exact ⟨⟨fun hlt => absurd hlt (Nat.not_lt.mpr hn), ih.1⟩, ih.2⟩
  | case3 seen depth n rest h ih =>
    simp only [entered_cons_again, List.forall_mem_cons]
    exact ⟨⟨fun _ => .inl h, ih.1⟩, ih.2⟩
  | case4 seen depth n rest h ih =>
    -- What is marked once `n` is entered was marked before, or is `n` itself.
    have hmark : ∀ m, (seen.setIfInBounds n true)[m]? = some true ∨
        m ∈ entered (visits next (seen.setIfInBounds n true)
          ((next n).map (depth + 1, ·) ++ rest)) →
        seen[m]? = some true ∨ m ∈ n :: entered (visits next (seen.setIfInBounds n true)
          ((next n).map (depth + 1, ·) ++ rest)) := by
      rintro m (hm | hm)
      · by_cases hmn : n = m
        · exact .inr (hmn ▸ List.mem_cons_self)
        · rw [Array.getElem?_setIfInBounds_ne hmn] at hm
          exact .inl hm
      · exact .inr (List.mem_cons_of_mem _ hm)
    obtain ⟨hstack, hnext⟩ := ih
    simp only [Array.size_setIfInBounds] at hstack hnext
    simp only [entered_cons_first, List.forall_mem_cons]
    refine ⟨⟨fun _ => .inr List.mem_cons_self, ?_⟩, ?_, ?_⟩
    · intro e he hlt
      exact hmark e.2 (hstack e (List.mem_append_right _ he) hlt)
    · intro m hm hlt
      exact hmark m (hstack (depth + 1, m) (List.mem_append_left _ (List.mem_map_of_mem hm)) hlt)
    · intro n' hn' m hm hlt
      exact hmark m (hnext n' hn' m hm hlt)

/-- A traversal enters nodes that are not marked, and none of them twice. -/
theorem nodup_entered {seen : Array Bool} {stack : List (Nat × Nat)} :
    (entered (visits next seen stack)).Nodup ∧
      ∀ n ∈ entered (visits next seen stack), seen[n]? ≠ some true := by
  fun_induction visits next seen stack with
  | case1 => simp
  | case2 seen depth n rest h ih => exact ih
  | case3 seen depth n rest h ih => exact ih
  | case4 seen depth n rest h ih =>
    obtain ⟨hnodup, hunmarked⟩ := ih
    have hn : n < seen.size := (Array.getElem?_eq_some_iff.mp h).1
    -- Entering `n` marks it, so it is not entered again.
    have hfresh : n ∉ entered (visits next (seen.setIfInBounds n true)
        ((next n).map (depth + 1, ·) ++ rest)) := fun hmem =>
      hunmarked n hmem (Array.getElem?_setIfInBounds_self_of_lt hn)
    refine ⟨List.nodup_cons.mpr ⟨hfresh, hnodup⟩, ?_⟩
    simp only [entered_cons_first, List.forall_mem_cons]
    refine ⟨by simp [h], fun m hm hmarked => hunmarked m hm ?_⟩
    have hne : n ≠ m := fun heq => hfresh (heq ▸ hm)
    rwa [Array.getElem?_setIfInBounds_ne hne]

/-- The preorder lists no node twice. -/
theorem nodup_preorder : (preorder size next roots).Nodup :=
  nodup_entered.1

/-- The preorder lists the nodes that can be reached. -/
theorem mem_preorder_iff {n : Nat} :
    n ∈ preorder size next roots ↔ Reaches size next roots n := by
  obtain ⟨hroots, hnext⟩ :=
    @marked_or_mem_entered next (Array.replicate size false) (roots.map (0, ·))
  have hunmarked : ∀ m : Nat, ¬ (Array.replicate size false)[m]? = some true := by
    intro m h
    obtain ⟨hm, hv⟩ := Array.getElem?_eq_some_iff.mp h
    simp at hv
  simp only [Array.size_replicate] at hroots hnext
  constructor
  · intro hn
    refine (mem_of_mem_entered (p := Reaches size next roots) ?_ ?_ n hn).2
    · intro n hn m hm hlt
      exact .step hn hm (by simpa using hlt)
    · intro e he hlt
      obtain ⟨r, hr, rfl⟩ := List.mem_map.mp he
      exact .root hr (by simpa using hlt)
  · intro hn
    induction hn with
    | @root r hr hlt =>
      exact (hroots (0, r) (List.mem_map_of_mem hr) hlt).resolve_left (hunmarked r)
    | @step a m _ hm hlt ih => exact (hnext a ih m hm hlt).resolve_left (hunmarked m)

/-! ## Traversals in a number of steps -/

/-- The visits of a traversal that is over after at most so many steps. -/
def visitsWithin (next : Nat → List Nat) :
    Nat → Array Bool → List (Nat × Nat) → Option (List Visit)
  | _, _, [] => some []
  | 0, _, _ :: _ => none
  | steps + 1, seen, (depth, n) :: rest =>
    match seen[n]? with
    | none => visitsWithin next steps seen rest
    | some true => (visitsWithin next steps seen rest).map (⟨depth, n, false⟩ :: ·)
    | some false =>
      (visitsWithin next steps (seen.setIfInBounds n true)
        ((next n).map (depth + 1, ·) ++ rest)).map (⟨depth, n, true⟩ :: ·)

/-- A traversal that is over in time has these visits. -/
theorem visits_of_within {steps : Nat} {seen : Array Bool} {stack : List (Nat × Nat)}
    {vs : List Visit} (h : visitsWithin next steps seen stack = some vs) :
    visits next seen stack = vs := by
  fun_induction visits next seen stack generalizing steps vs with
  | case1 seen => cases steps <;> cases h <;> rfl
  | case2 seen depth n rest hbeyond ih =>
    cases steps with
    | zero => cases h
    | succ steps =>
      simp only [visitsWithin, hbeyond] at h
      exact ih h
  | case3 seen depth n rest hmarked ih =>
    cases steps with
    | zero => cases h
    | succ steps =>
      simp only [visitsWithin, hmarked] at h
      obtain ⟨ws, hws, rfl⟩ := Option.map_eq_some_iff.mp h
      rw [ih hws]
  | case4 seen depth n rest hnew ih =>
    cases steps with
    | zero => cases h
    | succ steps =>
      simp only [visitsWithin, hnew] at h
      obtain ⟨ws, hws, rfl⟩ := Option.map_eq_some_iff.mp h
      rw [ih hws]

/-- The order of a traversal that is over in time. -/
theorem preorder_of_within {l : List Nat} (steps : Nat)
    (h : (visitsWithin next steps (Array.replicate size false) (roots.map (0, ·))).map entered =
      some l) : preorder size next roots = l := by
  obtain ⟨vs, hvs, rfl⟩ := Option.map_eq_some_iff.mp h
  rw [preorder, traverse, visits_of_within hvs, entered]

end Simula.Graph
