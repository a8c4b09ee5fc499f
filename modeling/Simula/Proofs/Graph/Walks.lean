import Mathlib.Data.List.Perm.Subperm

/-!
# Walks along links

A walk follows one link from each node. It stops within as many steps as there are nodes, or it
never does: a walk that came back to a node would go round for ever. So a search that walks along
links may be given any number of steps, as long as there are enough for every node.

The same holds of a search that asks again on its way, and so follows several links from a node. It
is told by the answers for all nodes together: as long as they change with a further step, there is
one more node that has an answer.
-/

namespace Simula.Graph

/-- The walk from a node stops after a number of steps, and not before. -/
inductive StopsAfter (next : Nat → Option Nat) (stop : Nat → Prop) : Nat → Nat → Prop
  | here {a : Nat} (ha : stop a) : StopsAfter next stop 0 a
  | there {k a b : Nat} (ha : ¬ stop a) (hnext : next a = some b)
      (hb : StopsAfter next stop k b) : StopsAfter next stop (k + 1) a

namespace StopsAfter

variable {next : Nat → Option Nat} {stop : Nat → Prop} {j k a : Nat}

/-- A walk stops after one number of steps only. -/
theorem unique (hj : StopsAfter next stop j a) (hk : StopsAfter next stop k a) : j = k := by
  induction hj generalizing k with
  | here ha =>
    cases hk with
    | here => rfl
    | there hna => exact absurd ha hna
  | there hna hnext _ ih =>
    cases hk with
    | here ha => exact absurd ha hna
    | there _ hnext' hb =>
      rw [hnext] at hnext'
      cases hnext'
      rw [ih hb]

variable {nodes : List Nat} (hstop : ∀ a, stop a → a ∈ nodes)
  (hnext : ∀ a b, next a = some b → a ∈ nodes)
include hstop hnext

/-- The nodes on the way are distinct: from each of them the walk stops after another number of
steps. -/
theorem exists_path (h : StopsAfter next stop k a) :
    ∃ path : List Nat, path.length = k + 1 ∧ path.Nodup ∧ path ⊆ nodes ∧
      ∀ b ∈ path, ∃ j ≤ k, StopsAfter next stop j b := by
  induction h with
  | @here a ha =>
    refine ⟨[a], rfl, by simp, by simpa using hstop a ha, fun b hb => ?_⟩
    rw [List.mem_singleton] at hb
    exact ⟨0, Nat.le_refl _, hb ▸ .here ha⟩
  | @there k a b ha hab hb ih =>
    obtain ⟨path, hlength, hnodup, hsub, hstops⟩ := ih
    have hfresh : a ∉ path := by
      intro hmem
      obtain ⟨j, hj, hja⟩ := hstops a hmem
      have := hja.unique (.there ha hab hb)
      omega
    refine ⟨a :: path, by simp [hlength], List.nodup_cons.mpr ⟨hfresh, hnodup⟩,
      List.cons_subset.mpr ⟨hnext a b hab, hsub⟩, ?_⟩
    simp only [List.forall_mem_cons]
    refine ⟨⟨k + 1, Nat.le_refl _, .there ha hab hb⟩, fun c hc => ?_⟩
    obtain ⟨j, hj, hjc⟩ := hstops c hc
    exact ⟨j, Nat.le_succ_of_le hj, hjc⟩

/-- A walk that stops does so within as many steps as there are nodes on its way. -/
theorem lt_length (h : StopsAfter next stop k a) : k < nodes.length := by
  obtain ⟨path, hlength, hnodup, hsub, -⟩ := h.exists_path hstop hnext
  have hle := (List.subperm_of_subset hnodup hsub).length_le
  omega

end StopsAfter

/-- A search with a bound on its steps walks along `next`. It hits where the walk stops and misses
where the walk or the bound ends; on its way it may gather something. -/
structure Walks {σ β : Type} (next : Nat → Option Nat) (stop : Nat → Prop)
    (search : Nat → σ → Nat → β) (hit : σ → Nat → β) (pass : σ → Nat → σ) (miss : β) : Prop where
  zero : ∀ x a, search 0 x a = miss
  stops : ∀ n x a, stop a → search (n + 1) x a = hit x a
  ends : ∀ n x a, ¬ stop a → next a = none → search (n + 1) x a = miss
  goes : ∀ n x a b, ¬ stop a → next a = some b → search (n + 1) x a = search n (pass x a) b

namespace Walks

variable {σ β : Type} {next : Nat → Option Nat} {stop : Nat → Prop} {search : Nat → σ → Nat → β}
  {hit : σ → Nat → β} {pass : σ → Nat → σ} {miss : β} {m n k a : Nat} {x : σ}

/-- All bounds beyond the number of steps to the stop give the same answer. -/
theorem eq_of_stopsAfter (h : Walks next stop search hit pass miss)
    (hk : StopsAfter next stop k a) (hm : k < m) (hn : k < n) : search m x a = search n x a := by
  induction hk generalizing m n x with
  | @here a ha =>
    obtain ⟨m, rfl⟩ := Nat.exists_eq_succ_of_ne_zero (Nat.ne_of_gt hm)
    obtain ⟨n, rfl⟩ := Nat.exists_eq_succ_of_ne_zero (Nat.ne_of_gt hn)
    rw [h.stops m x a ha, h.stops n x a ha]
  | @there k a b ha hnext _ ih =>
    obtain ⟨m, rfl⟩ := Nat.exists_eq_succ_of_ne_zero (Nat.ne_zero_of_lt hm)
    obtain ⟨n, rfl⟩ := Nat.exists_eq_succ_of_ne_zero (Nat.ne_zero_of_lt hn)
    rw [h.goes m x a b ha hnext, h.goes n x a b ha hnext]
    exact ih (Nat.lt_of_succ_lt_succ hm) (Nat.lt_of_succ_lt_succ hn)

/-- A walk that never stops misses. -/
theorem eq_miss (h : Walks next stop search hit pass miss)
    (hnever : ∀ k, ¬ StopsAfter next stop k a) : search n x a = miss := by
  induction n generalizing a x with
  | zero => exact h.zero x a
  | succ n ih =>
    have ha : ¬ stop a := fun ha => hnever 0 (.here ha)
    cases hnext : next a with
    | none => exact h.ends n x a ha hnext
    | some b =>
      rw [h.goes n x a b ha hnext]
      exact ih fun k hb => hnever (k + 1) (.there ha hnext hb)

/-- **Enough steps.** The bound makes no difference once it has a step for every node from which
the walk can go on or at which it can stop. -/
theorem eq_of_length_le (h : Walks next stop search hit pass miss) {nodes : List Nat}
    (hstop : ∀ a, stop a → a ∈ nodes) (hnext : ∀ a b, next a = some b → a ∈ nodes)
    (hm : nodes.length ≤ m) (hn : nodes.length ≤ n) : search m x a = search n x a := by
  by_cases hstops : ∃ k, StopsAfter next stop k a
  · obtain ⟨k, hk⟩ := hstops
    have hlt := hk.lt_length hstop hnext
    exact h.eq_of_stopsAfter hk (Nat.lt_of_lt_of_le hlt hm) (Nat.lt_of_lt_of_le hlt hn)
  · rw [not_exists] at hstops
    rw [h.eq_miss hstops, h.eq_miss hstops]

end Walks

/-- A search with a bound on its steps that may ask again on its way. What it has found it finds
with a further step too, and the answers for all nodes determine those with a further step. -/
structure Deepens {β : Type} (search : Nat → Nat → Option β) : Prop where
  zero : ∀ a, search 0 a = none
  more : ∀ n a b, search n a = some b → search (n + 1) a = some b
  step : ∀ n, search n = search (n + 1) → search (n + 1) = search (n + 2)

namespace Deepens

variable {β : Type} {search : Nat → Nat → Option β} {m n : Nat} {nodes : List Nat}

/-- Where a further step makes a difference, it finds something for a node that had no answer. -/
theorem exists_new (h : Deepens search) (hne : search n ≠ search (n + 1)) :
    ∃ a b, search n a = none ∧ search (n + 1) a = some b := by
  obtain ⟨a, ha⟩ := Function.ne_iff.mp hne
  cases hn : search n a with
  | some b => exact absurd (hn.trans (h.more n a b hn).symm) ha
  | none =>
    obtain ⟨b, hb⟩ := Option.ne_none_iff_exists'.mp (hn ▸ ha).symm
    exact ⟨a, b, hn, hb⟩

variable (hnodes : ∀ n a b, search n a = some b → a ∈ nodes)
include hnodes

/-- As long as a further step makes a difference, every step has brought another node. -/
theorem lt_length_found (h : Deepens search) (hne : search n ≠ search (n + 1)) :
    n < (nodes.filter fun a => (search (n + 1) a).isSome).length := by
  induction n with
  | zero =>
    obtain ⟨a, b, -, hb⟩ := h.exists_new hne
    refine List.length_pos_of_mem (a := a) (List.mem_filter.mpr ⟨hnodes _ a b hb, ?_⟩)
    rw [hb]
    rfl
  | succ n ih =>
    have hearlier := ih fun heq => hne (h.step n heq)
    obtain ⟨a, b, ha, hb⟩ := h.exists_new hne
    -- The nodes found before are those found now that were found before, and `a` is a new one.
    have hbefore : (nodes.filter fun a => (search (n + 1) a).isSome) =
        (nodes.filter fun a => (search (n + 2) a).isSome).filter fun a =>
          (search (n + 1) a).isSome := by
      rw [List.filter_filter]
      refine List.filter_congr fun c _ => ?_
      cases hc : search (n + 1) c with
      | none => rfl
      | some d => rw [h.more _ c d hc]; rfl
    have hlt := List.length_filter_lt_length_iff_exists
      (l := nodes.filter fun a => (search (n + 2) a).isSome)
      (p := fun a => (search (n + 1) a).isSome) |>.mpr
        ⟨a, List.mem_filter.mpr ⟨hnodes _ a b hb, by rw [hb]; rfl⟩, by simp [ha]⟩
    rw [hbefore] at hearlier
    exact Nat.lt_of_le_of_lt hearlier hlt

/-- A bound with a step for every node is as good as any larger one. -/
theorem eq_of_length_le (h : Deepens search) (hm : nodes.length ≤ m) (hn : nodes.length ≤ n) :
    search m = search n := by
  have hstable : ∀ k, nodes.length ≤ k → search k = search (k + 1) := by
    intro k hk
    by_contra hne
    have hlt := h.lt_length_found hnodes hne
    have hle := List.length_filter_le (fun a => (search (k + 1) a).isSome) nodes
    omega
  have hfirst : ∀ k, nodes.length ≤ k → search k = search nodes.length := by
    intro k hk
    induction hk with
    | refl => rfl
    | step hk ih => exact (hstable _ hk).symm.trans ih
  rw [hfirst m hm, hfirst n hn]

end Deepens

end Simula.Graph
