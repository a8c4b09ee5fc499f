import Mathlib.Logic.Relation
import Simula.Proofs.Graph.Walks

/-!
# Cutting cycles of links

Where every node has at most one link, the cycles of links are apart from each other: whatever a
node on a cycle leads to is on the same cycle and leads back. So a cycle is gone with one of its
links, and taking that link away touches no other cycle.

The nodes of a list are gone through in order, and a node that leads to itself loses its link. Each
cycle with a node in the list loses the link of the first such node, and that one only.
-/

namespace Simula.Graph

/-- One or more links lead from the first node to the second. -/
def Leads (next : Nat → Option Nat) : Nat → Nat → Prop :=
  Relation.TransGen fun a b => next a = some b

variable {next next' next₁ next₂ : Nat → Option Nat} {a b c d : Nat} {nodes nodes' : List Nat}

namespace Leads

/-- A node that leads anywhere has a link, and the rest of the way starts behind it. -/
theorem exists_next (h : Leads next a b) :
    ∃ n, next a = some n ∧ Relation.ReflTransGen (fun a b => next a = some b) n b :=
  Relation.TransGen.head'_iff.mp h

/-- What a node on a cycle leads to leads back to it. -/
theorem back (hcycle : Leads next c c) (h : Leads next c d) : Leads next d c := by
  have hlink : ∀ {a b}, Leads next a c → next a = some b → Leads next b c := by
    intro a b ha hb
    obtain ⟨n, hn, hrest⟩ := ha.exists_next
    cases hb.symm.trans hn
    exact Relation.TransGen.trans_right hrest hcycle
  induction h with
  | single hd => exact hlink hcycle hd
  | tail _ hd ih => exact hlink ih hd

/-- Two nodes of one cycle lead to the same nodes. -/
theorem congr (hcycle : Leads next c c) (h : Leads next c d) : Leads next d = Leads next c := by
  funext a
  refine propext ⟨fun ha => ?_, fun ha => ?_⟩
  · exact Relation.TransGen.trans h ha
  · exact Relation.TransGen.trans (hcycle.back h) ha

/-- Fewer links lead to fewer nodes. -/
theorem mono (hsub : ∀ a b, next' a = some b → next a = some b) (h : Leads next' a b) :
    Leads next a b :=
  Relation.TransGen.mono hsub _ _ h

/-- A cycle that is there with fewer links leads nowhere else with all of them. -/
theorem of_mono (hsub : ∀ a b, next' a = some b → next a = some b) (hcycle : Leads next' c c)
    (h : Leads next c d) : Leads next' c d := by
  have hlink : ∀ {a b}, Leads next' a c → next a = some b → next' a = some b := by
    intro a b ha hb
    obtain ⟨n, hn, -⟩ := ha.exists_next
    cases hb.symm.trans (hsub a n hn)
    exact hn
  induction h with
  | single hd => exact .single (hlink hcycle hd)
  | tail _ hd ih => exact .tail ih (hlink (hcycle.back ih) hd)

end Leads

open Classical in
/-- The first node of a list to which a node leads. -/
noncomputable def firstLed (next : Nat → Option Nat) (nodes : List Nat) (c : Nat) : Option Nat :=
  nodes.find? fun d => decide (Leads next c d)

/-- A node leads to the first node that it leads to. -/
theorem leads_of_firstLed (h : firstLed next nodes c = some d) : Leads next c d := by
  have hd := List.find?_some h
  simpa using hd

/-- This is a node of the list. -/
theorem mem_of_firstLed (h : firstLed next nodes c = some d) : d ∈ nodes :=
  List.mem_of_find?_eq_some h

/-- There is none if the node leads to no node of the list. -/
theorem firstLed_eq_none_iff : firstLed next nodes c = none ↔ ∀ d ∈ nodes, ¬ Leads next c d := by
  simp [firstLed]

/-- A node of the first part of a list comes before those of the second. -/
theorem firstLed_append (next : Nat → Option Nat) (nodes nodes' : List Nat) (c : Nat) :
    firstLed next (nodes ++ nodes') c = (firstLed next nodes c).or (firstLed next nodes' c) :=
  List.find?_append

/-- The first node depends only on where the node leads. -/
theorem firstLed_congr (h : Leads next' d = Leads next c) (nodes : List Nat) :
    firstLed next' nodes d = firstLed next nodes c := by
  rw [firstLed, firstLed, h]

/-- A node is the first of the list on its cycle: it comes first among those that it leads to, of
which it is one. -/
def FirstOnCycle (next : Nat → Option Nat) (nodes : List Nat) (c : Nat) : Prop :=
  firstLed next nodes c = some c

/-- The first node on a cycle leads to itself. -/
theorem FirstOnCycle.leads (h : FirstOnCycle next nodes c) : Leads next c c := leads_of_firstLed h

/-- The first node on a cycle is a node of the list. -/
theorem FirstOnCycle.mem (h : FirstOnCycle next nodes c) : c ∈ nodes := mem_of_firstLed h

/-- In an empty list no node is the first on its cycle. -/
theorem not_firstOnCycle_nil : ¬ FirstOnCycle next [] c := fun h => List.not_mem_nil h.mem

/-- The only node of a list is the first on its cycle if it is on one. -/
theorem firstOnCycle_singleton_iff : FirstOnCycle next [c] d ↔ d = c ∧ Leads next c c := by
  constructor
  · intro h
    obtain rfl : d = c := List.mem_singleton.mp h.mem
    exact ⟨rfl, h.leads⟩
  · rintro ⟨rfl, h⟩
    simp [FirstOnCycle, firstLed, h]

/-- A cycle with a node in the list has one first node there. -/
theorem existsUnique_firstOnCycle (hcycle : Leads next c c) (hd : d ∈ nodes)
    (h : Leads next c d) : ∃! e, FirstOnCycle next nodes e ∧ Leads next c e := by
  cases hfirst : firstLed next nodes c with
  | none => exact absurd h (firstLed_eq_none_iff.mp hfirst d hd)
  | some e =>
    have hsame : ∀ f, Leads next c f → firstLed next nodes f = some e :=
      fun f hf => (firstLed_congr (hcycle.congr hf) nodes).trans hfirst
    have he : Leads next c e := leads_of_firstLed hfirst
    exact ⟨e, ⟨hsame e he, he⟩, fun f ⟨hf, hcf⟩ => Option.some.inj (hf.symm.trans (hsame f hcf))⟩

/-- The links after the nodes of a list have been gone through: of each cycle with a node in the
list that link is gone which starts at the first such node. -/
structure Cut (next next' : Nat → Option Nat) (nodes : List Nat) : Prop where
  gone : ∀ c, FirstOnCycle next nodes c → next' c = none
  kept : ∀ c, ¬ FirstOnCycle next nodes c → next' c = next c

namespace Cut

/-- Cutting no link leaves all. -/
theorem nil (next : Nat → Option Nat) : Cut next next [] :=
  ⟨fun _ h => absurd h not_firstOnCycle_nil, fun _ _ => rfl⟩

/-- No link is new. -/
theorem sub (h : Cut next next' nodes) (a b : Nat) (hb : next' a = some b) : next a = some b := by
  by_cases ha : FirstOnCycle next nodes a
  · rw [h.gone a ha] at hb
    cases hb
  · rw [← h.kept a ha, hb]

/-- The cycles that are left are those without a node in the list. -/
theorem leads_self_iff (h : Cut next next' nodes) :
    Leads next' c c ↔ Leads next c c ∧ ∀ d ∈ nodes, ¬ Leads next c d := by
  constructor
  · intro hcycle
    have hbefore : Leads next c c := hcycle.mono h.sub
    refine ⟨hbefore, fun d hd hcd => ?_⟩
    obtain ⟨e, ⟨hfirst, hce⟩, -⟩ := existsUnique_firstOnCycle hbefore hd hcd
    -- The first node of the cycle in the list would still lead on.
    obtain ⟨n, hn, -⟩ := (hcycle.back (hcycle.of_mono h.sub hce)).exists_next
    rw [h.gone e hfirst] at hn
    cases hn
  · rintro ⟨hcycle, hfree⟩
    have hkept : ∀ {a}, Leads next c a → next' a = next a :=
      fun ha => h.kept _ fun hfirst => hfree _ hfirst.mem ha
    have hall : ∀ {d}, Leads next c d → Leads next' c d := by
      intro d hd
      induction hd with
      | single hd => exact .single ((hkept hcycle).trans hd)
      | tail ha hd ih => exact .tail ih ((hkept ha).trans hd)
    exact hall hcycle

/-- A cycle that is left leads where it led. -/
theorem leads_eq (h : Cut next next' nodes) (hcycle : Leads next' c c) :
    Leads next' c = Leads next c := by
  funext d
  exact propext ⟨fun hd => hd.mono h.sub, fun hd => hcycle.of_mono h.sub hd⟩

/-- The first nodes in two lists, one behind the other, are those in the first list, and those in
the second one of the cycles that are left. -/
theorem firstOnCycle_append_iff (h : Cut next next₁ nodes) :
    FirstOnCycle next (nodes ++ nodes') c ↔
      FirstOnCycle next nodes c ∨ FirstOnCycle next₁ nodes' c := by
  cases hfirst : firstLed next nodes c with
  | some d =>
    -- The cycle has lost its link already.
    have hgone : ¬ FirstOnCycle next₁ nodes' c := fun hlater =>
      (h.leads_self_iff.mp hlater.leads).2 d (mem_of_firstLed hfirst) (leads_of_firstLed hfirst)
    rw [or_iff_left hgone, FirstOnCycle, FirstOnCycle, firstLed_append, hfirst]
    rfl
  | none =>
    have hfree := firstLed_eq_none_iff.mp hfirst
    have hnot : ¬ FirstOnCycle next nodes c := fun hc => hfree c hc.mem hc.leads
    have hrest : FirstOnCycle next (nodes ++ nodes') c ↔ FirstOnCycle next nodes' c := by
      rw [FirstOnCycle, FirstOnCycle, firstLed_append, hfirst, Option.none_or]
    rw [or_iff_right hnot, hrest]
    constructor
    · intro hc
      have hcycle : Leads next₁ c c := h.leads_self_iff.mpr ⟨hc.leads, hfree⟩
      exact (firstLed_congr (h.leads_eq hcycle) nodes').trans hc
    · intro hc
      exact (firstLed_congr (h.leads_eq hc.leads) nodes').symm.trans hc

/-- Going through one list and then through another is going through both. -/
theorem trans (h : Cut next next₁ nodes) (h' : Cut next₁ next₂ nodes') :
    Cut next next₂ (nodes ++ nodes') where
  gone c hc := by
    rcases h.firstOnCycle_append_iff.mp hc with hc | hc
    · by_cases hc' : FirstOnCycle next₁ nodes' c
      · exact h'.gone c hc'
      · rw [h'.kept c hc', h.gone c hc]
    · exact h'.gone c hc
  kept c hc := by
    rw [h.firstOnCycle_append_iff, not_or] at hc
    rw [h'.kept c hc.2, h.kept c hc.1]

end Cut

end Simula.Graph
