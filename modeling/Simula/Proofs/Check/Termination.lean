import Mathlib.Data.List.Nodup
import Mathlib.Data.List.Perm.Subperm
import Simula.Proofs.Check.Descent

/-!
# Where a check ends

A check ends if nothing that it comes to leads back to itself: on the way down no node is then met
twice in the same part, so that the way is no longer than the limit on its depth. Conversely, a
check that succeeds has come to the end of every way down.
-/

namespace Simula

open Relation

/-! ## Ways down without a return -/

/-- What has an end in all directions does not lead back to itself. -/
theorem not_transGen_of_acc {α : Type} {r : α → α → Prop} {a : α} (h : Acc (flip r) a) :
    ¬ TransGen r a a := by
  induction h with
  | intro a _ ih =>
    intro hcycle
    obtain ⟨b, hab, hba⟩ := TransGen.head'_iff.mp hcycle
    exact ih b hab (.tail' hba hab)

/-- What it leads to has an end in all directions, too. -/
theorem acc_of_reflTransGen {α : Type} {r : α → α → Prop} {a b : α} (h : Acc (flip r) a)
    (hb : ReflTransGen r a b) : Acc (flip r) b := by
  induction hb with
  | refl => exact h
  | tail _ hstep ih => exact ih.inv hstep

/-- A run of conversions is a way down. -/
theorem Tree.calls_of_converts {t : Tree} {e z : NodeId} (h : t.Converts e z) :
    ReflTransGen t.Calls (.expression e) (.expression z) := by
  induction h with
  | refl => exact .refl
  | tail _ hstep ih =>
    obtain ⟨kind, hnesting⟩ := hstep
    refine ih.tail ?_
    rw [Calls, calls, hnesting]
    exact List.mem_singleton_self _

/-- A run of conversions ends if what is under it does. -/
theorem Tree.acc_of_converts {t : Tree} {e z : NodeId} (h : t.Converts e z)
    (hz : Acc (flip t.Calls) (.expression z)) : Acc (flip t.Calls) (.expression e) := by
  induction h using ReflTransGen.head_induction_on with
  | refl => exact hz
  | head hstep _ ih =>
    obtain ⟨kind, hnesting⟩ := hstep
    refine .intro _ fun c hc => ?_
    rw [flip, Calls, calls, hnesting] at hc
    rw [List.mem_singleton.mp hc]
    exact ih

/-- Of three places for each node, those that a part of it takes on a way down. An expression takes
two, since the conversions around it are a level of their own. -/
def Call.places : Call → List Nat
  | scope id => [3 * id + 1]
  | statement id => [3 * id]
  | expression id => [3 * id + 1, 3 * id + 2]

/-- Nodes met before a certain one, each once. -/
structure Trail (t : Tree) (trail : List Call) (c : Call) : Prop where
  nodup : trail.Nodup
  lt : ∀ b ∈ trail, b.node < t.size
  leads : ∀ b ∈ trail, TransGen t.Calls b c

namespace Trail

variable {t : Tree} {trail : List Call} {c c' : Call}

/-- At first nothing has been met. -/
theorem nil (t : Tree) (c : Call) : Trail t [] c := ⟨List.nodup_nil, nofun, nofun⟩

/-- A trail goes on from a node that does not lead back to itself. -/
theorem cons (h : Trail t trail c) (hlt : c.node < t.size) (hcycle : ¬ TransGen t.Calls c c)
    (hcall : t.Calls c c') : Trail t (c :: trail) c' where
  nodup := List.nodup_cons.mpr ⟨fun hc => hcycle (h.leads c hc), h.nodup⟩
  lt := List.forall_mem_cons.mpr ⟨hlt, h.lt⟩
  leads := List.forall_mem_cons.mpr ⟨.single hcall, fun b hb => (h.leads b hb).tail hcall⟩

/-- A trail to a node is a trail to all that the node calls for. -/
theorem mono (h : Trail t trail c) (hc : ReflTransGen t.Calls c c') : Trail t trail c' where
  nodup := h.nodup
  lt := h.lt
  leads b hb := (h.leads b hb).trans_left hc

/-- The parts of a trail take different places. -/
theorem nodup_places (h : Trail t trail c) : (trail.flatMap Call.places).Nodup := by
  refine List.nodup_flatMap.mpr
    ⟨fun b _ => ?_, h.nodup.pairwise_of_forall_ne fun a ha b hb hne => ?_⟩
  · cases b <;> simp [Call.places]
  -- A node that leads on as an expression leads nowhere as a scope.
  have hparts : ∀ {id : NodeId} {x y : Call}, t.Calls (.expression id) x →
      ¬ t.Calls (.scope id) y := by
    intro id x y hx hy
    cases hn : t.nesting id with
    | expression form =>
      simp [Tree.Calls, Tree.calls, hn, Nesting.declared, Nesting.statements] at hy
    | _ => simp [Tree.Calls, Tree.calls, hn] at hx
  obtain ⟨x, hx, -⟩ := TransGen.head'_iff.mp (h.leads a ha)
  obtain ⟨y, hy, -⟩ := TransGen.head'_iff.mp (h.leads b hb)
  intro n hna hnb
  rcases a with i | i | i <;> rcases b with j | j | j <;>
    simp only [Call.places, List.mem_cons, List.not_mem_nil, or_false] at hna hnb
  case scope.expression =>
    obtain rfl : i = j := by grind
    exact hparts hy hx
  case expression.scope =>
    obtain rfl : i = j := by grind
    exact hparts hx hy
  case scope.scope | statement.statement | expression.expression =>
    exact hne (congrArg _ (by grind))
  all_goals grind

/-- A trail takes no more places than there are. -/
theorem places_le (h : Trail t trail c) : (trail.flatMap Call.places).length ≤ 3 * t.size := by
  have hsubset : trail.flatMap Call.places ⊆ List.range (3 * t.size) := by
    intro n hn
    obtain ⟨b, hb, hn⟩ := List.mem_flatMap.mp hn
    have hlt : b.node < t.size := h.lt b hb
    rw [List.mem_range]
    cases b <;>
      simp only [Call.places, Call.node, List.mem_cons, List.not_mem_nil, or_false] at hn hlt <;>
      grind
  have hle := (List.subperm_of_subset h.nodup_places hsubset).length_le
  rwa [List.length_range] at hle

end Trail

namespace CheckM

variable {t₀ : Tree} {within : NodeId → Prop} (hregion : t₀.Region within)
include hregion

/-- Checks to any depth lead from states that a check may be in to such states. -/
theorem preserves (depth : Nat) : Preserves t₀ within depth := by
  induction depth with
  | zero => exact ⟨nofun, nofun, nofun⟩
  | succ depth ih =>
    refine ⟨fun hid h hrun => ?_, fun hid h hrun => ?_, fun he h hw hrun => ?_⟩
    · exact ((checkScope_performs hregion ih h hid).ok hrun).1
    · exact ((checkStatement_performs hregion ih h hid).ok hrun).1
    · cases hw with
      | bare => exact ((typeExpr_performs hregion ih h he).ok hrun).1
      | conversion hid hlt hnesting hx =>
        exact ((typeConversion_performs hregion ih h he (.conversion hid hlt hnesting hx) hid).ok
          hrun).1

/-- **What a successful check has been through.** From a node that is checked with success every way
down comes to an end. -/
theorem acc_of_meets (depth : Nat) {c : Call} (hc : within c.node)
    (h : Meets t₀ depth .succeeds c) : Acc (flip t₀.Calls) c := by
  induction depth generalizing c with
  | zero =>
    cases c with
    | scope id =>
      obtain ⟨s, -, a, s', hrun⟩ := h
      cases hrun
    | statement id =>
      obtain ⟨scope, s, -, a, s', hrun⟩ := h
      cases hrun
    | expression e =>
      obtain ⟨z, -, scope, id, s, -, -, a, s', hrun⟩ := h
      cases hrun
  | succ depth ih =>
    have hpreserves := preserves hregion depth
    have hbelow : ∀ {c}, within c.node → (∀ c' ∈ t₀.calls c, Meets t₀ depth .succeeds c') →
        Acc (flip t₀.Calls) c := fun hc hcalls =>
      .intro _ fun c' hc' => ih (hregion.calls hc hc') (hcalls c' hc')
    cases c with
    | scope id =>
      obtain ⟨s, hs, a, s', hrun⟩ := h
      exact hbelow hc ((checkScope_performs hregion hpreserves hs hc).ok hrun).2
    | statement id =>
      obtain ⟨scope, s, hs, a, s', hrun⟩ := h
      exact hbelow hc ((checkStatement_performs hregion hpreserves hs hc).ok hrun).2
    | expression e =>
      obtain ⟨z, hz, scope, id, s, hs, hw, a, s', hrun⟩ := h
      have hwithin := within_of_converts hregion hc hz
      refine Tree.acc_of_converts hz ?_
      cases hw with
      | bare =>
        have hz' : within (Call.expression z).node := hwithin
        exact hbelow hz' ((typeExpr_performs hregion hpreserves hs hwithin).ok hrun).2
      | conversion hid hlt hnesting hx =>
        have hbare := ((typeConversion_performs hregion hpreserves hs hwithin
          (.conversion hid hlt hnesting hx) hid).ok hrun).2 _ (List.mem_singleton_self _)
        have hz' : within (Call.expression z).node := hwithin
        exact ih hz' hbare.meets

/-- **What a check that runs out has been through.** Where nothing leads back to itself, the places
that a trail takes and the depth at which a check behind it runs out are together no more than the
places that there are and two. -/
theorem places_add_depth_le {root : Call} (hwell : t₀.WellNested root) (depth : Nat) {c : Call}
    {trail : List Call} (hc : within c.node) (hroot : ReflTransGen t₀.Calls root c)
    (htrail : Trail t₀ trail c) (h : Meets t₀ depth .runsOut c) :
    (trail.flatMap Call.places).length + depth ≤ 3 * t₀.size + 2 := by
  induction depth using Nat.strongRecOn generalizing c trail with
  | ind depth ih =>
    have hplaces := htrail.places_le
    cases depth with
    | zero => omega
    | succ depth =>
    have hpreserves := preserves hregion depth
    -- One level down the trail is longer by the node that was met.
    have hbelow : ∀ {c c' : Call} {d : Nat}, d ≤ depth → within c.node →
        ReflTransGen t₀.Calls root c → Trail t₀ trail c → c' ∈ t₀.calls c →
        Meets t₀ d .runsOut c' →
        c.places.length + (trail.flatMap Call.places).length + d ≤ 3 * t₀.size + 2 := by
      intro c c' d hd hc hroot htrail hcall hmeets
      have hstep := ih d (Nat.lt_succ_of_le hd) (hregion.calls hc hcall) (hroot.tail hcall)
        (htrail.cons (hregion.lt hc) (hwell c hroot) hcall) hmeets
      rwa [List.flatMap_cons, List.length_append] at hstep
    cases c with
    | scope id =>
      obtain ⟨s, hs, hout⟩ := h
      obtain ⟨c', hcall, hmeets⟩ := (checkScope_performs hregion hpreserves hs hc).out hout
      have hle := hbelow (Nat.le_refl _) hc hroot htrail hcall hmeets
      simp only [Call.places, List.length_singleton] at hle
      omega
    | statement id =>
      obtain ⟨scope, s, hs, hout⟩ := h
      obtain ⟨c', hcall, hmeets⟩ := (checkStatement_performs hregion hpreserves hs hc).out hout
      have hle := hbelow (Nat.le_refl _) hc hroot htrail hcall hmeets
      simp only [Call.places, List.length_singleton] at hle
      omega
    | expression e =>
      -- An expression that is met bare is followed by one level, and one behind conversions by two.
      have hbare : ∀ {z d scope s}, d ≤ depth → t₀.Converts e z → t₀.Refitted s.tree →
          RunsOut (typeExpr (d + 1) scope z) s →
          2 + (trail.flatMap Call.places).length + d ≤ 3 * t₀.size + 2 := by
        intro z d scope s hd hz hs hout
        have hwithin : within (Call.expression z).node := within_of_converts hregion hc hz
        obtain ⟨c', hcall, hmeets⟩ :=
          (typeExpr_performs hregion (preserves hregion d) hs hwithin).out hout
        exact hbelow hd hwithin (hroot.trans (Tree.calls_of_converts hz))
          (htrail.mono (Tree.calls_of_converts hz)) hcall hmeets
      obtain ⟨z, hz, scope, id, s, hs, hw, hout⟩ := h
      cases hw with
      | bare =>
        have hle := hbare (Nat.le_refl _) hz hs hout
        omega
      | conversion hid hlt hnesting hx =>
        have hwithin := within_of_converts hregion hc hz
        obtain ⟨_, -, z', hz', -, scope', s', hs', hout'⟩ := (typeConversion_performs hregion
          hpreserves hs hwithin (.conversion hid hlt hnesting hx) hid).out hout
        cases depth with
        | zero => omega
        | succ depth =>
          have hle := hbare (Nat.le_succ _) (hz.trans hz') hs' hout'
          omega

end CheckM

/-! ## Checking a module -/

namespace CheckState

/-- The phases that concern classes as a whole keep what shows neither prefix classes nor pairs of
specifications. -/
theorem prepareClasses_keeps {β : Type} {view : NodeData → β}
    (hprefixClass : ∀ p d, view (d.modifyClass (·.withPrefixClass p)) = view d)
    (hprotectedBy : ∀ p d, view (withProtectedBy p d) = view d)
    (hhiddenBy : ∀ h d, view (withHiddenBy h d) = view d) (s : CheckState) (module : NodeId) :
    s.Keeps view (s.prepareClasses module) :=
  (s.withPrefixes_keeps hprefixClass module).trans
    (foldl_follows (pairSpecifications_keeps hprotectedBy hhiddenBy) _ _)

/-- Steps that add no node add none together. -/
theorem size_foldl {step : CheckState → NodeId → CheckState}
    (h : ∀ s id, (step s id).tree.size = s.tree.size) (ids : List NodeId) (s : CheckState) :
    (ids.foldl step s).tree.size = s.tree.size := by
  induction ids generalizing s with
  | nil => rfl
  | cons id ids ih => exact (ih (step s id)).trans (h s id)

/-- Pairing specifications adds no node. -/
theorem size_pairSpecifications (s : CheckState) (c : NodeId) :
    (s.pairSpecifications c).tree.size = s.tree.size := by
  have hhidden : ∀ (s : CheckState) (id : NodeId), (pairHidden c s id).tree.size = s.tree.size := by
    intro s id
    simp only [pairHidden]
    split <;> simp [update, report]
  have hprotected : ∀ (s : CheckState) (id : NodeId),
      (checkProtected c s id).tree.size = s.tree.size := by
    intro s id
    simp only [checkProtected]
    split <;> rfl
  rw [pairSpecifications]
  split
  · rfl
  · rw [size_foldl hprotected, size_foldl hhidden]

/-- They append no node. -/
theorem size_prepareClasses (s : CheckState) (module : NodeId) :
    (s.prepareClasses module).tree.size = s.tree.size := by
  have hresolve : ∀ (s : CheckState) c, (s.resolvePrefix c).tree.size = s.tree.size := by
    intro s c
    rcases s.tree_resolvePrefix c with htree | ⟨p, htree⟩ <;> rw [htree]
    exact Tree.size_update ..
  have hcut : ∀ (s : CheckState) c, (s.cutPrefixCycle c).tree.size = s.tree.size := by
    intro s c
    rcases s.tree_cutPrefixCycle c with htree | ⟨p, htree⟩ <;> rw [htree]
    exact Tree.size_update ..
  simp only [prepareClasses, forClasses]
  rw [size_foldl size_pairSpecifications, size_foldl hcut, size_foldl hresolve]

/-- So a module is nested after them as it was before. -/
theorem nesting_prepareClasses (s : CheckState) (module : NodeId) :
    (s.prepareClasses module).tree.nesting = s.tree.nesting := by
  funext id
  by_cases hid : id < s.tree.size
  · exact (prepareClasses_keeps NodeData.nesting_withPrefixClass NodeData.nesting_withProtectedBy
      NodeData.nesting_withHiddenBy s module).same id hid
  · have hle := Nat.le_of_not_lt hid
    rw [Tree.nesting_of_size_le hle, Tree.nesting_of_size_le (s.size_prepareClasses module ▸ hle)]

end CheckState

namespace CheckM

/-- **Checks that end.** A check of a module ends, at the latest at the limit that its tree sets, if
nothing below the module leads back to itself. -/
theorem not_runsOut_of_wellNested {s : CheckState} {within : NodeId → Prop} {module : NodeId}
    (hregion : s.tree.Region within) (hmodule : within module)
    (hwell : s.tree.WellNested (.scope module)) : ¬ RunsOut (check module) s := by
  rintro ⟨id, s', hrun⟩
  have hsize := s.size_prepareClasses module
  have hnesting := s.nesting_prepareClasses module
  have hmeets : Meets (s.prepareClasses module).tree (nestingLimit s.tree.size) .runsOut
      (.scope module) := ⟨s.prepareClasses module, .refl _, id, s', hrun⟩
  have hroot : within (Call.scope module).node := hmodule
  have hle := places_add_depth_le (hregion.congr hsize hnesting)
    ((Tree.wellNested_congr hnesting _).mpr hwell) _ hroot .refl (Trail.nil _ _) hmeets
  rw [List.flatMap_nil, List.length_nil, nestingLimit, hsize] at hle
  omega

/-- **Checks that succeed.** If a check of a module succeeds at any depth, nothing below the module
leads back to itself. -/
theorem wellNested_of_checkWithin {s s' : CheckState} {within : NodeId → Prop} {module : NodeId}
    (hregion : s.tree.Region within) (hmodule : within module) {depth : Nat}
    (h : checkWithin depth module s = .ok () s') : s.tree.WellNested (.scope module) := by
  have hsize := s.size_prepareClasses module
  have hnesting := s.nesting_prepareClasses module
  have hmeets : Meets (s.prepareClasses module).tree depth .succeeds (.scope module) :=
    ⟨s.prepareClasses module, .refl _, (), s', h⟩
  have hroot : within (Call.scope module).node := hmodule
  have hacc := acc_of_meets (hregion.congr hsize hnesting) depth hroot hmeets
  rw [← Tree.wellNested_congr hnesting]
  exact fun c hc => not_transGen_of_acc (acc_of_reflTransGen hacc hc)

end CheckM

end Simula
