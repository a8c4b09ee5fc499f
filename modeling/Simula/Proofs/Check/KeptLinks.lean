import Simula.Proofs.Check.Preparation

/-!
# Links that a check finds

A module that is checked again has links from the time before. A prefix class is not looked up
again, and only a circular prefix, which is an error, can take it away. Specifications are paired
again, but where every search finds the protected specification that is recorded, the pair stays.
-/

namespace Simula

/-- Where no errors have been counted, no report is an error. -/
theorem Diagnostics.isError_of_errorCount {ds : Diagnostics} (h : ds.errorCount = 0)
    {d : Diagnostic} (hd : d ∈ ds.entries.toList) : d.isError = false := by
  rw [errorCount, ← Array.countP_toList, List.countP_eq_zero] at h
  exact Bool.eq_false_iff.mpr (h d hd)

namespace CheckState

variable {s : CheckState} {classes : List NodeId} {c p : NodeId}

/-- A class that has its prefix class does not wait for one. -/
theorem awaitedPrefix?_of_prefixClass? (hp : s.tree.prefixClass? c = some p) :
    s.tree.awaitedPrefix? c = none := by
  obtain ⟨parts, hclass, hparts⟩ := Option.bind_eq_some_iff.mp hp
  simp [Tree.awaitedPrefix?, hclass, hparts]

/-- A prefix class that was known before outlasts the first phases, or its class is reported as
circular. -/
theorem withPrefixes_keeps_or_reports (module : NodeId) (hp : s.tree.prefixClass? c = some p) :
    (s.withPrefixes module).tree.prefixClass? c = some p ∨
      s.tree.circularReport c ∈ (s.withPrefixes module).diagnostics.entries.toList := by
  have hresolved : (s.forClasses resolvePrefix (s.tree.classesBelow module)).tree.prefixClass? c =
      some p :=
    (prefixClass?_forClasses_resolvePrefix (.inr (awaitedPrefix?_of_prefixClass? hp))).trans hp
  rw [← circularReport_forClasses_resolvePrefix (s.tree.classesBelow module), ← hresolved]
  exact (forClasses_cutPrefixCycle_keeps_or_reports _ _ c).imp_right And.right

/-- A pair stays recorded while the hidden specifications of a class are paired, if the class does
not list the hidden one or finds the same protected one. -/
theorem foldl_pairHidden_keeps_pair {t : Tree} {h q : NodeId} {hs : List NodeId}
    (hsub : hs ⊆ t.hiddenSpecs c)
    (hsame : h ∈ t.hiddenSpecs c → t.findProtected c (t.specifiedName h) = some q)
    (hs₀ : t.Paired s.tree ∧ s.tree.protectedBy? h = some q) :
    t.Paired (hs.foldl (pairHidden c) s).tree ∧
      (hs.foldl (pairHidden c) s).tree.protectedBy? h = some q := by
  induction hs generalizing s with
  | nil => exact hs₀
  | cons g hs ih =>
    rw [List.cons_subset] at hsub
    obtain ⟨hpaired, hq⟩ := hs₀
    refine ih hsub.2 ⟨pairHidden_paired hpaired hsub.1, ?_⟩
    by_cases hgh : h = g
    · subst hgh
      rw [pairHidden_of_found hpaired (hsame hsub.1)]
      exact Tree.protectedBy?_link_self (Tree.kind_of_protectedBy? hq)
    · cases hfound : t.findProtected c (t.specifiedName g) with
      | none =>
        rw [pairHidden_of_missing hpaired hfound]
        exact hq
      | some p =>
        rw [pairHidden_of_found hpaired hfound, ← hq]
        exact Tree.protectedBy?_link_of_ne hgh

/-- A pair stays recorded while specifications are paired, if every class that lists the hidden one
finds the same protected one. -/
theorem forClasses_pairSpecifications_keeps_pair {h q : NodeId}
    (hq : s.tree.protectedBy? h = some q)
    (hsame : ∀ c ∈ classes, h ∈ s.tree.hiddenSpecs c →
      s.tree.findProtected c (s.tree.specifiedName h) = some q) :
    (s.forClasses pairSpecifications classes).tree.protectedBy? h = some q := by
  have hall : ∀ (s' : CheckState), s.tree.Paired s'.tree ∧ s'.tree.protectedBy? h = some q →
      (s'.forClasses pairSpecifications classes).tree.protectedBy? h = some q := by
    induction classes with
    | nil => exact fun _ h => h.2
    | cons c classes ih =>
      intro s' hs'
      refine ih (fun d hd => hsame d (List.mem_cons_of_mem _ hd)) (s'.pairSpecifications c) ?_
      rw [tree_pairSpecifications hs'.1 c]
      exact foldl_pairHidden_keeps_pair (List.Subset.refl _) (hsame c List.mem_cons_self) hs'
  exact hall s ⟨.refl s.tree, hq⟩

end CheckState

namespace CheckM

variable {s s' : CheckState} {module : NodeId}

/-- Checking scopes and statements touches no pair. -/
theorem checkFrame_protectedBy : CheckFrame (CheckState.Keeps NodeData.protectedBy?) where
  report s _ := .refl s.tree
  typing := typeExpr_follows (typingFrame_keeps
    (fun _ d => NodeData.view_withExpressionType d fun _ _ => rfl)
    fun _ d => NodeData.view_withAssigned d fun _ _ _ _ => rfl)
  connectedClass s id c scope :=
    .update s.tree id fun d => NodeData.view_withConnectedClass d fun _ _ => rfl
  scope s id scope := .update s.tree id fun d =>
    NodeData.view_withScope d (fun _ _ form => by cases form <;> rfl) fun _ => rfl
  labelIndex s id index := .update s.tree id fun d => NodeData.view_withLabelIndex d fun _ _ _ => rfl
  labels s id f _ := .update s.tree id fun d =>
    NodeData.view_modifyBody d (fun _ _ _ => rfl) (fun _ _ _ _ _ => rfl) fun _ _ _ => rfl

/-- A check without errors keeps every prefix class that was known before. -/
theorem prefixClass?_of_errorFree (hcheck : check module s = .ok () s')
    (herrors : s'.diagnostics.errorCount = 0) {c p : NodeId}
    (hp : s.tree.prefixClass? c = some p) :
    (s.withPrefixes module).tree.prefixClass? c = some p ∧ s'.tree.prefixClass? c = some p := by
  have hreports := check_reportsMore module s
  have hkeeps := check_keeps undisturbed_prefixClass module s
  rw [leaves_of_ok hcheck] at hreports hkeeps
  have hkept : (s.withPrefixes module).tree.prefixClass? c = some p := by
    refine (CheckState.withPrefixes_keeps_or_reports module hp).resolve_right fun hreport => ?_
    exact Bool.noConfusion
      (Diagnostics.isError_of_errorCount herrors (hreports.subset hreport))
  exact ⟨hkept, (hkeeps.same c (Tree.lt_of_prefixClass hkept)).trans hkept⟩

/-- A check keeps a pair that was recorded before if every class below the module that lists the
hidden specification finds the same protected one. -/
theorem protectedBy?_of_check (hcheck : check module s = .ok () s') {h q : NodeId}
    (hq : s.tree.protectedBy? h = some q)
    (hsame : ∀ c ∈ s.tree.classesBelow module, h ∈ (s.withPrefixes module).tree.hiddenSpecs c →
      (s.withPrefixes module).tree.findProtected c
        ((s.withPrefixes module).tree.specifiedName h) = some q) :
    s'.tree.protectedBy? h = some q := by
  have hprefixes : s.Keeps NodeData.protectedBy? (s.withPrefixes module) :=
    CheckState.withPrefixes_keeps (fun _ d => NodeData.view_modifyClass d fun _ _ _ => rfl) s module
  have hrest : (s.prepareClasses module).Keeps NodeData.protectedBy? (leaves (check module) s) :=
    (checkWithin_follows checkFrame_protectedBy.scopeFrame _).1 module (s.prepareClasses module)
  rw [leaves_of_ok hcheck] at hrest
  have hlt : h < s.tree.size := Tree.lt_of_kind (by simp [Tree.kind_of_protectedBy? hq])
  have hpaired : (s.prepareClasses module).tree.protectedBy? h = some q :=
    CheckState.forClasses_pairSpecifications_keeps_pair ((hprefixes.same h hlt).trans hq) hsame
  have hlt' : h < (s.prepareClasses module).tree.size :=
    Tree.lt_of_kind (by simp [Tree.kind_of_protectedBy? hpaired])
  exact (hrest.same h hlt').trans hpaired

end CheckM

end Simula
