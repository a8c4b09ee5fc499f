import Simula.Proofs.Check.PrefixOrder
import Simula.Proofs.Graph.Cycles

/-!
# Circular prefixes

Prefixes may lead round in a circle, and other classes may lead into it. Once all prefixes of a
module are resolved, its classes are gone through in order, and one that is among its own prefixes
is reported and loses its prefix class. The walk that looks for the class among its prefixes has a
bound on its steps, but no circle is too large for it. So every circle with a class of the module
is reported once and loses the link of its first class, and no other link is lost.
-/

namespace Simula

namespace Tree

/-- A walk along prefixes meets the class that it looks for within its steps, or not at all. -/
theorem chainReaches_iff {t : Tree} {target a : NodeId} {n : Nat} :
    t.chainReaches target n (some a) = true ↔
      ∃ k < n, Graph.StopsAfter t.prefixClass? (· = target) k a := by
  induction n generalizing a with
  | zero => simp [chainReaches]
  | succ n ih =>
    rw [chainReaches, Bool.or_eq_true, beq_iff_eq]
    constructor
    · rintro (ha | hrest)
      · exact ⟨0, Nat.succ_pos n, .here ha⟩
      · by_cases ha : a = target
        · exact ⟨0, Nat.succ_pos n, .here ha⟩
        · cases hp : t.prefixClass? a with
          | none =>
            rw [hp, chainReaches] at hrest
            cases hrest
          | some p =>
            rw [hp] at hrest
            obtain ⟨k, hlt, hk⟩ := ih.mp hrest
            exact ⟨k + 1, Nat.succ_lt_succ hlt, .there ha hp hk⟩
    · rintro ⟨k, hlt, hk⟩
      cases hk with
      | here ha => exact .inl ha
      | @there k _ p _ hp hk =>
        rw [hp]
        exact .inr (ih.mpr ⟨k, Nat.lt_of_succ_lt_succ hlt, hk⟩)

/-- A node with a prefix class is a class. -/
theorem isClass_of_prefixClass {t : Tree} {c p : NodeId} (h : t.prefixClass? c = some p) :
    t.isClass c = true := by
  by_contra hno
  rw [prefixClass?_of_not_isClass (by simpa using hno)] at h
  cases h

/-- Some prefixes or none lead to a class exactly if a walk that looks for the class stops. -/
theorem exists_stopsAfter_iff {t : Tree} {target a : NodeId} :
    (∃ k, Graph.StopsAfter t.prefixClass? (· = target) k a) ↔
      Relation.ReflTransGen (fun a b => t.prefixClass? a = some b) a target := by
  constructor
  · rintro ⟨k, hk⟩
    induction hk with
    | here ha => exact ha ▸ .refl
    | there _ hnext _ ih => exact .head hnext ih
  · intro h
    induction h using Relation.ReflTransGen.head_induction_on with
    | refl => exact ⟨0, .here rfl⟩
    | @head a b hab _ ih =>
      obtain ⟨k, hk⟩ := ih
      by_cases ha : a = target
      · exact ⟨0, .here ha⟩
      · exact ⟨k + 1, .there ha hab hk⟩

/-- A class is found to be among its own prefixes exactly if it is. -/
theorem inPrefixCycle_iff {t : Tree} {c : NodeId} :
    t.inPrefixCycle c = true ↔ Graph.Leads t.prefixClass? c c := by
  rw [inPrefixCycle, Graph.Leads, Relation.TransGen.head'_iff]
  cases hp : t.prefixClass? c with
  | none => simp [chainReaches]
  | some p =>
    simp only [chainReaches_iff, Option.some.injEq, exists_eq_left', ← exists_stopsAfter_iff]
    constructor
    · rintro ⟨k, -, hk⟩
      exact ⟨k, hk⟩
    · rintro ⟨k, hk⟩
      have hlt : k < (c :: t.places).length := by
        refine hk.lt_length (fun a (ha : a = c) => ha ▸ List.mem_cons_self) fun a b hab => ?_
        exact List.mem_cons_of_mem _ (mem_places (isPlace_of_prefixClass hab))
      have hsize := t.length_places_le
      rw [List.length_cons] at hlt
      exact ⟨k, by omega, hk⟩

/-- What is reported of a class that is among its own prefixes. -/
def circularReport (t : Tree) (c : NodeId) : Diagnostic :=
  (Finding.circularPrefix ((t.identifier? c).getD "?")).onLine (t.line c)

/-- The reports on circular prefixes do not depend on prefix classes. -/
theorem circularReport_update (t : Tree) (c : NodeId) (p : Option NodeId) :
    (t.update c fun d => d.modifyClass (·.withPrefixClass p)).circularReport =
      t.circularReport := by
  funext id
  have hidentifier : (t.update c fun d => d.modifyClass (·.withPrefixClass p)).identifier? id =
      t.identifier? id := by
    rw [identifier?, identifier?]
    refine view_update t c (fun d => ?_) id
    rcases d with _ | ⟨_, _, form⟩ | _ | _ | _
    case declaration => cases form <;> rfl
    all_goals rfl
  rw [circularReport, circularReport, line_update, hidentifier]

/-- No prefix is reported as circular when it is resolved. -/
theorem filter_prefixReports (t : Tree) (c : NodeId) (name : String) (found : Option NodeId) :
    (t.prefixReports c name found).filter (fun d => d.code == some "E0107") = [] := by
  cases found with
  | none => rfl
  | some d =>
    rw [prefixReports]
    split <;> rfl

end Tree

namespace CheckState

variable {s : CheckState} {c : NodeId}

/-! ## One class -/

/-- A class that leads to itself loses its prefix class and is reported. -/
theorem cutPrefixCycle_of_leads (h : Graph.Leads s.tree.prefixClass? c c) :
    (s.cutPrefixCycle c).tree =
        s.tree.update c (fun d => d.modifyClass (·.withPrefixClass none)) ∧
      (s.cutPrefixCycle c).diagnostics.entries.toList =
        s.diagnostics.entries.toList ++ [s.tree.circularReport c] := by
  rw [cutPrefixCycle, if_pos (Tree.inPrefixCycle_iff.mpr h)]
  exact ⟨rfl, Array.toList_push⟩

/-- Any other class is left alone. -/
theorem cutPrefixCycle_of_not_leads (h : ¬ Graph.Leads s.tree.prefixClass? c c) :
    s.cutPrefixCycle c = s := by
  rw [cutPrefixCycle, if_neg fun hcycle => h (Tree.inPrefixCycle_iff.mp hcycle)]

/-- One class is cut if it leads to itself. -/
theorem cutPrefixCycle_cut (s : CheckState) (c : NodeId) :
    Graph.Cut s.tree.prefixClass? (s.cutPrefixCycle c).tree.prefixClass? [c] := by
  by_cases h : Graph.Leads s.tree.prefixClass? c c
  · obtain ⟨htree, -⟩ := cutPrefixCycle_of_leads h
    rw [htree]
    refine ⟨fun d hd => ?_, fun d hd => ?_⟩
    · obtain ⟨rfl, -⟩ := Graph.firstOnCycle_singleton_iff.mp hd
      obtain ⟨p, hp, -⟩ := h.exists_next
      exact Tree.prefixClass?_update (Tree.isClass_of_prefixClass hp)
    · have hne : d ≠ c := fun heq => hd (Graph.firstOnCycle_singleton_iff.mpr ⟨heq, h⟩)
      rw [Tree.prefixClass?, Tree.class?, Tree.data_update_of_ne _ hne]
      rfl
  · rw [cutPrefixCycle_of_not_leads h]
    exact ⟨fun d hd => absurd (Graph.firstOnCycle_singleton_iff.mp hd).2 h, fun _ _ => rfl⟩

/-- Cutting a prefix changes no report that may follow. -/
theorem circularReport_cutPrefixCycle (s : CheckState) (c : NodeId) :
    (s.cutPrefixCycle c).tree.circularReport = s.tree.circularReport := by
  rcases s.tree_cutPrefixCycle c with htree | ⟨p, htree⟩ <;> rw [htree]
  exact s.tree.circularReport_update c p

/-- Resolving a prefix changes no report that may follow. -/
theorem circularReport_resolvePrefix (s : CheckState) (c : NodeId) :
    (s.resolvePrefix c).tree.circularReport = s.tree.circularReport := by
  rcases s.tree_resolvePrefix c with htree | ⟨p, htree⟩ <;> rw [htree]
  exact s.tree.circularReport_update c p

/-! ## All classes -/

/-- Of each cycle of prefixes the link of the first class is cut. -/
theorem forClasses_cutPrefixCycle_cut (classes : List NodeId) (s : CheckState) :
    Graph.Cut s.tree.prefixClass? (s.forClasses cutPrefixCycle classes).tree.prefixClass?
      classes := by
  induction classes generalizing s with
  | nil => exact .nil _
  | cons c classes ih => exact (s.cutPrefixCycle_cut c).trans (ih (s.cutPrefixCycle c))

/-- Of each cycle of prefixes the first class is reported. -/
theorem forClasses_cutPrefixCycle_reports (classes : List NodeId) (s : CheckState) :
    ∃ cuts : List NodeId, cuts.Sublist classes ∧
      (∀ c, c ∈ cuts ↔ Graph.FirstOnCycle s.tree.prefixClass? classes c) ∧
      (s.forClasses cutPrefixCycle classes).diagnostics.entries.toList =
        s.diagnostics.entries.toList ++ cuts.map s.tree.circularReport := by
  induction classes generalizing s with
  | nil =>
    exact ⟨[], List.nil_sublist _, by simp [Graph.not_firstOnCycle_nil], by simp [forClasses]⟩
  | cons c classes ih =>
    obtain ⟨cuts, hsub, hmem, hreports⟩ := ih (s.cutPrefixCycle c)
    have hfirst : ∀ d, Graph.FirstOnCycle s.tree.prefixClass? (c :: classes) d ↔
        (d = c ∧ Graph.Leads s.tree.prefixClass? c c) ∨ d ∈ cuts := by
      intro d
      rw [hmem, ← Graph.firstOnCycle_singleton_iff]
      exact (s.cutPrefixCycle_cut c).firstOnCycle_append_iff
    rw [circularReport_cutPrefixCycle] at hreports
    by_cases hc : Graph.Leads s.tree.prefixClass? c c
    · refine ⟨c :: cuts, hsub.cons_cons c, fun d => ?_, ?_⟩
      · rw [hfirst, List.mem_cons, and_iff_left hc]
      · obtain ⟨-, hreport⟩ := cutPrefixCycle_of_leads hc
        rw [forClasses, List.foldl_cons]
        exact hreports.trans (by simp [hreport])
    · refine ⟨cuts, hsub.cons c, fun d => ?_, ?_⟩
      · rw [hfirst, or_iff_right fun h => hc h.2]
      · rw [cutPrefixCycle_of_not_leads hc] at hreports
        rw [forClasses, List.foldl_cons, cutPrefixCycle_of_not_leads hc]
        exact hreports

/-- Resolving prefixes changes no report that may follow. -/
theorem circularReport_forClasses_resolvePrefix (classes : List NodeId) (s : CheckState) :
    (s.forClasses resolvePrefix classes).tree.circularReport = s.tree.circularReport := by
  induction classes generalizing s with
  | nil => rfl
  | cons c classes ih => exact (ih (s.resolvePrefix c)).trans (s.circularReport_resolvePrefix c)

/-- Resolving prefixes reports no circular prefix. -/
theorem coded_forClasses_resolvePrefix (classes : List NodeId) (s : CheckState) :
    (s.forClasses resolvePrefix classes).diagnostics.coded "E0107" =
      s.diagnostics.coded "E0107" := by
  induction classes generalizing s with
  | nil => rfl
  | cons c classes ih =>
    refine (ih (s.resolvePrefix c)).trans ?_
    cases hname : s.tree.awaitedPrefix? c with
    | none => rw [resolvePrefix_of_not_awaited hname]
    | some name =>
      obtain ⟨-, hreports⟩ := resolvePrefix_of_awaited hname
      rw [Diagnostics.coded, hreports, List.filter_append, Tree.filter_prefixReports]
      exact List.append_nil _

/-- **Each circle is cut once.** Let the prefixes of the classes of a module be resolved, whatever
prefix classes the tree knew before. Once circular ones are cut, no class of the module is among its
own prefixes. A circle with a class of the module has one first class in the order of the module,
and it is the prefix class of this class that is lost, while all others stay. What is reported of
circular prefixes is one report for the first class of each such circle. -/
theorem withPrefixes_cuts_cycles (s : CheckState) (module : NodeId) :
    let classes := s.tree.classesBelow module
    let resolved := (s.forClasses resolvePrefix classes).tree.prefixClass?
    let cut := (s.withPrefixes module).tree.prefixClass?
    (∀ c ∈ classes, ¬ Graph.Leads cut c c) ∧
    (∀ c, Graph.Leads resolved c c → (∃ d ∈ classes, Graph.Leads resolved c d) →
      ∃! d, Graph.FirstOnCycle resolved classes d ∧ Graph.Leads resolved c d) ∧
    (∀ c, Graph.FirstOnCycle resolved classes c → resolved c ≠ none ∧ cut c = none) ∧
    (∀ c, ¬ Graph.FirstOnCycle resolved classes c → cut c = resolved c) ∧
    ∃ cuts : List NodeId, cuts.Sublist classes ∧ cuts.Nodup ∧
      (∀ c, c ∈ cuts ↔ Graph.FirstOnCycle resolved classes c) ∧
      (s.withPrefixes module).diagnostics.coded "E0107" =
        s.diagnostics.coded "E0107" ++ cuts.map s.tree.circularReport := by
  intro classes resolved cut
  have hcut : Graph.Cut resolved cut classes := forClasses_cutPrefixCycle_cut classes _
  obtain ⟨cuts, hsub, hmem, hreports⟩ :=
    forClasses_cutPrefixCycle_reports classes (s.forClasses resolvePrefix classes)
  refine ⟨fun c hc hcycle => ?_, fun c hcycle ⟨d, hd, hcd⟩ => ?_, fun c hc => ⟨?_, hcut.gone c hc⟩,
    hcut.kept, cuts, hsub, (s.tree.nodup_classesBelow module).sublist hsub, hmem, ?_⟩
  · obtain ⟨hbefore, hfree⟩ := hcut.leads_self_iff.mp hcycle
    exact hfree c hc hbefore
  · exact Graph.existsUnique_firstOnCycle hcycle hd hcd
  · obtain ⟨p, hp, -⟩ := hc.leads.exists_next
    simp [hp]
  · have hall : ∀ d ∈ cuts.map s.tree.circularReport, (d.code == some "E0107") = true := by
      intro d hd
      obtain ⟨c, -, rfl⟩ := List.mem_map.mp hd
      rfl
    have hbefore := s.coded_forClasses_resolvePrefix classes
    rw [circularReport_forClasses_resolvePrefix] at hreports
    rw [Diagnostics.coded] at hbefore
    rw [withPrefixes, Diagnostics.coded, hreports, List.filter_append, hbefore,
      List.filter_eq_self.mpr hall]

/-- A block with the classes `B class A`, `C class B`, `B class C` and `D class D`. -/
def circularPrefixes : CheckState where
  tree := { nodes := #[
    ⟨1, .declaration "MAIN" none (.block
      { declarations := ⟨#[("A", 1), ("B", 2), ("C", 3), ("D", 4)]⟩ })⟩,
    ⟨2, .declaration "A" (some 0) (.classDeclaration { prefixName := some "B" })⟩,
    ⟨3, .declaration "B" (some 0) (.classDeclaration { prefixName := some "C" })⟩,
    ⟨4, .declaration "C" (some 0) (.classDeclaration { prefixName := some "B" })⟩,
    ⟨5, .declaration "D" (some 0) (.classDeclaration { prefixName := some "D" })⟩] }

-- The circle of `B` and `C` is cut at `B`, that of `D` at `D`, and `A` and `C` keep their prefixes.
example : (circularPrefixes.withPrefixes 0).diagnostics.coded "E0107" =
      [2, 4].map circularPrefixes.tree.circularReport ∧
    [1, 2, 3, 4].map (circularPrefixes.withPrefixes 0).tree.prefixClass? =
      [some 2, none, some 2, none] := by
  have hclasses : circularPrefixes.tree.classesBelow 0 = [1, 2, 3, 4] := by
    rw [Tree.classesBelow, Graph.preorder_of_within 20 rfl]
    rfl
  rw [withPrefixes, hclasses]
  decide +kernel

end CheckState

end Simula
