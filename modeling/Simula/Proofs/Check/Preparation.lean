import Simula.Proofs.Check.PrefixCycles
import Simula.Proofs.Check.Specifications

/-!
# Classes that are prepared

The first phases of a check go through the classes of a module one after the other, and each class
is dealt with at its turn. What has been done with it must outlast the turns of the others: a prefix
class stays as it is unless the class is the first on a circle, a pair of specifications stays
recorded unless another class lists the hidden one too, and no report is lost. So all can be told
from the state that the phases leave.
-/

namespace Simula

/-- What is true after the turn of one among some nodes, and stays true at the turns of all, is true
in the end. -/
theorem foldl_establishes {σ : Type} {step : σ → NodeId → σ} {before after : σ → Prop}
    {ids : List NodeId} {id : NodeId} (hid : id ∈ ids)
    (hbefore : ∀ s, before s → ∀ i ∈ ids, before (step s i))
    (hturn : ∀ s, before s → after (step s id))
    (hafter : ∀ s, after s → ∀ i ∈ ids, after (step s i)) {s : σ} (hs : before s) :
    after (ids.foldl step s) := by
  obtain ⟨earlier, later, rfl⟩ := List.append_of_mem hid
  rw [List.foldl_append, List.foldl_cons]
  refine List.foldlRecOn later step (hturn _ ?_) fun s hs i hi =>
    hafter s hs i (List.mem_append_right _ (List.mem_cons_of_mem _ hi))
  exact List.foldlRecOn earlier step hs fun s hs i hi => hbefore s hs i (List.mem_append_left _ hi)

namespace CheckState

/-- Reports that were made before are among the later ones. -/
theorem ReportsMore.subset {s s' : CheckState} (h : s.ReportsMore s') :
    s.diagnostics.entries.toList ⊆ s'.diagnostics.entries.toList :=
  List.IsPrefix.subset h

/-- Pairing the specifications of a class loses no report. -/
theorem pairSpecifications_reportsMore (s : CheckState) (c : NodeId) :
    s.ReportsMore (s.pairSpecifications c) :=
  pairSpecifications_follows ReportsMore.report (fun _ _ _ => List.prefix_rfl)
    (fun _ _ _ => List.prefix_rfl) s c

/-- Pairing the specifications of classes loses no report. -/
theorem forClasses_pairSpecifications_reportsMore (classes : List NodeId) (s : CheckState) :
    s.ReportsMore (s.forClasses pairSpecifications classes) :=
  foldl_follows pairSpecifications_reportsMore classes s

end CheckState

/-! ## Hidden specifications -/

/-- The second node is the protected specification of the first for a class that lists the first
among its hidden ones. -/
def Tree.Matches (t : Tree) (h p : NodeId) : Prop :=
  ∃ c, h ∈ t.hiddenSpecs c ∧ t.findProtected c (t.specifiedName h) = some p

/-- A specification without its pair is still one. -/
theorem NodeData.kind_unpaired (d : NodeData) : d.unpaired.kind = d.kind := by
  rcases d with _ | ⟨_, _, form⟩ | _ | _ | _
  case declaration => cases form <;> rfl
  all_goals rfl

/-- A hidden specification gets the protected one that is recorded for it. -/
theorem NodeData.protectedBy?_withProtectedBy_of_kind {p : NodeId} {d : NodeData}
    (h : d.kind = .hiddenSpec) : (CheckState.withProtectedBy p d).protectedBy? = some p := by
  rcases d with _ | ⟨_, _, form⟩ | _ | form | ⟨form, _⟩
  case declaration =>
    cases form with
    | hiddenSpec => rfl
    | _ => cases h
  case statement | expression => cases form <;> cases h
  all_goals cases h

namespace Tree

variable {t : Tree} {h p spec : NodeId}

/-- Only hidden specifications have a protected one. -/
theorem kind_of_protectedBy? (hp : t.protectedBy? h = some p) : t.kind h = .hiddenSpec := by
  rw [protectedBy?] at hp
  split at hp
  · next hdata => rw [kind, hdata]; rfl
  · cases hp

/-- Linking a pair touches no other hidden specification. -/
theorem protectedBy?_link_of_ne (hne : spec ≠ h) :
    ((t.update h (CheckState.withProtectedBy p)).update p
      (CheckState.withHiddenBy h)).protectedBy? spec = t.protectedBy? spec := by
  refine (view_update _ p (NodeData.protectedBy?_withHiddenBy h) spec).trans ?_
  rw [data_update_of_ne _ hne]
  rfl

/-- Once a pair is linked, it is recorded. -/
theorem protectedBy?_link_self (hkind : t.kind h = .hiddenSpec) :
    ((t.update h (CheckState.withProtectedBy p)).update p
      (CheckState.withHiddenBy h)).protectedBy? h = some p := by
  refine (view_update _ p (NodeData.protectedBy?_withHiddenBy h) h).trans ?_
  rw [data_update_self _ (lt_of_kind (by simp [hkind]))]
  exact NodeData.protectedBy?_withProtectedBy_of_kind hkind

end Tree

namespace CheckState

/-- The tree of the state differs from the given one in pairs only, and a pair is recorded for a
hidden specification. -/
def RecordsPair (t : Tree) (h : NodeId) (s : CheckState) : Prop :=
  t.Paired s.tree ∧ ∃ p, t.Matches h p ∧ s.tree.protectedBy? h = some p

variable {t : Tree} {s : CheckState} {c h g : NodeId}

/-- A hidden specification for which a protected one is found is linked to it, and the other way
round. -/
theorem pairHidden_of_found {p : NodeId} (hpaired : t.Paired s.tree)
    (hp : t.findProtected c (t.specifiedName h) = some p) :
    pairHidden c s h = (s.update h (withProtectedBy p)).update p (withHiddenBy h) := by
  rw [← hpaired.sameScopes.findProtected, ← hpaired.specifiedName, Tree.specifiedName] at hp
  simp only [pairHidden, hp]

/-- A hidden specification without a protected one is reported. -/
theorem pairHidden_of_missing (hpaired : t.Paired s.tree)
    (hp : t.findProtected c (t.specifiedName h) = none) :
    pairHidden c s h = s.report (s.tree.line h) (.hiddenUnprotected (s.tree.specifiedName h)) := by
  rw [← hpaired.sameScopes.findProtected, ← hpaired.specifiedName, Tree.specifiedName] at hp
  simp only [pairHidden, hp]
  rfl

/-- Pairing one hidden specification of a class changes pairs only. -/
theorem pairHidden_paired (hpaired : t.Paired s.tree) (hg : g ∈ t.hiddenSpecs c) :
    t.Paired (pairHidden c s g).tree :=
  hpaired.trans (pairHidden_pairs (by rwa [hpaired.hiddenSpecs])).paired

/-- A hidden specification for which there is a protected one gets its pair. -/
theorem pairHidden_recordsPair {p : NodeId} (hpaired : t.Paired s.tree)
    (hh : h ∈ t.hiddenSpecs c) (hkind : t.kind h = .hiddenSpec)
    (hp : t.findProtected c (t.specifiedName h) = some p) :
    RecordsPair t h (pairHidden c s h) := by
  refine ⟨pairHidden_paired hpaired hh, p, ⟨c, hh, hp⟩, ?_⟩
  rw [pairHidden_of_found hpaired hp]
  refine Tree.protectedBy?_link_self ?_
  rw [← hkind]
  exact hpaired.read _ NodeData.kind_unpaired h

/-- The turn of another specification leaves a pair. That of the same one, in the list of another
class or once more in this one, may replace it. -/
theorem RecordsPair.pairHidden (hpair : RecordsPair t h s) (hg : g ∈ t.hiddenSpecs c) :
    RecordsPair t h (pairHidden c s g) := by
  obtain ⟨hpaired, p, hmatches, hp⟩ := hpair
  cases hfound : t.findProtected c (t.specifiedName g) with
  | none =>
    refine ⟨pairHidden_paired hpaired hg, p, hmatches, ?_⟩
    rw [pairHidden_of_missing hpaired hfound]
    exact hp
  | some q =>
    by_cases hgh : h = g
    · subst hgh
      refine pairHidden_recordsPair hpaired hg ?_ hfound
      rw [← Tree.kind_of_protectedBy? hp]
      exact (hpaired.read _ NodeData.kind_unpaired h).symm
    · refine ⟨pairHidden_paired hpaired hg, p, hmatches, ?_⟩
      rw [pairHidden_of_found hpaired hfound, ← hp]
      exact Tree.protectedBy?_link_of_ne hgh

/-- Checking a protected specification leaves the tree. -/
theorem tree_checkProtected (c : NodeId) (s : CheckState) (g : NodeId) :
    (checkProtected c s g).tree = s.tree := by
  rw [checkProtected]
  split <;> rfl

/-- Checking several of them leaves the tree. -/
theorem tree_foldl_checkProtected (c : NodeId) (gs : List NodeId) (s : CheckState) :
    (gs.foldl (checkProtected c) s).tree = s.tree :=
  List.foldlRecOn gs (checkProtected c) (motive := fun s' => s'.tree = s.tree) rfl
    fun s' hs g _ => (tree_checkProtected c s' g).trans hs

/-- At the turn of a class its hidden specifications are paired, and nothing else happens to the
tree. -/
theorem tree_pairSpecifications (hpaired : t.Paired s.tree) (c : NodeId) :
    (s.pairSpecifications c).tree = ((t.hiddenSpecs c).foldl (pairHidden c) s).tree := by
  rw [pairSpecifications, Tree.hiddenSpecs, ← hpaired.class?]
  cases s.tree.class? c with
  | none => rfl
  | some parts => exact tree_foldl_checkProtected c _ _

/-- A recorded pair is a matter of the tree. -/
theorem RecordsPair.of_tree {s' : CheckState} (h' : RecordsPair t h s) (htree : s'.tree = s.tree) :
    RecordsPair t h s' := by
  rw [RecordsPair, htree]
  exact h'

/-- A recorded pair outlasts the pairing of further classes. -/
theorem RecordsPair.pairSpecifications (hpair : RecordsPair t h s) (c : NodeId) :
    RecordsPair t h (s.pairSpecifications c) := by
  have hfold : RecordsPair t h ((t.hiddenSpecs c).foldl (CheckState.pairHidden c) s) :=
    List.foldlRecOn _ _ hpair fun _ hs _ hg => hs.pairHidden hg
  exact hfold.of_tree (tree_pairSpecifications hpair.1 c)

/-- When the specifications of its class are paired, a hidden one gets its pair. -/
theorem pairSpecifications_recordsPair {p : NodeId} (hpaired : t.Paired s.tree)
    (hh : h ∈ t.hiddenSpecs c) (hkind : t.kind h = .hiddenSpec)
    (hp : t.findProtected c (t.specifiedName h) = some p) :
    RecordsPair t h (s.pairSpecifications c) := by
  have hfold : RecordsPair t h ((t.hiddenSpecs c).foldl (pairHidden c) s) :=
    foldl_establishes hh (fun s (hs : t.Paired s.tree) _ hg => pairHidden_paired hs hg)
      (fun _ hs => pairHidden_recordsPair hs hh hkind hp)
      (fun _ hs _ hg => RecordsPair.pairHidden hs hg) hpaired
  exact hfold.of_tree (tree_pairSpecifications hpaired c)

end CheckState

/-! ## Protected specifications -/

/-- The protected specifications in the list of a class. -/
def Tree.protectedSpecs (t : Tree) (c : NodeId) : List NodeId :=
  match t.class? c with
  | some parts => parts.guarded.toList
  | none => []

/-- What is reported of a protected specification that concerns no attribute. -/
def Tree.undeclaredReport (t : Tree) (g : NodeId) : Diagnostic :=
  (Finding.protectedUndeclared (t.specifiedName g)).onLine (t.line g)

namespace Tree.Paired

variable {t t' : Tree} (h : t.Paired t')
include h

/-- Classes list the same protected specifications. -/
theorem protectedSpecs (c : NodeId) : t'.protectedSpecs c = t.protectedSpecs c := by
  rw [Tree.protectedSpecs, Tree.protectedSpecs, h.class?]

/-- The same is reported of them. -/
theorem undeclaredReport : t'.undeclaredReport = t.undeclaredReport := by
  funext g
  rw [Tree.undeclaredReport, Tree.undeclaredReport, h.specifiedName, h.line]

/-- The same identifiers are declared along a prefix chain. -/
theorem declaredOnChain (c : NodeId) (x : String) :
    CheckState.declaredOnChain t' c x = CheckState.declaredOnChain t c x := by
  rw [CheckState.declaredOnChain, CheckState.declaredOnChain, h.sameScopes.prefixChain]
  simp only [h.sameScopes.offers.lookupLocal]

end Tree.Paired

namespace CheckState

/-- The tree of the state differs from the given one in pairs only, and a protected specification of
a class concerns an attribute or has been reported. -/
def Concerns (t : Tree) (c g : NodeId) (s : CheckState) : Prop :=
  t.Paired s.tree ∧ (declaredOnChain t c (t.specifiedName g) = true ∨
    t.undeclaredReport g ∈ s.diagnostics.entries.toList)

variable {t : Tree} {s : CheckState} {c g : NodeId}

/-- A protected specification that has been checked concerns an attribute or has been reported. -/
theorem checkProtected_concerns (hpaired : t.Paired s.tree) :
    Concerns t c g (checkProtected c s g) := by
  refine ⟨by rwa [tree_checkProtected], ?_⟩
  cases hdeclared : declaredOnChain t c (t.specifiedName g) with
  | true => exact .inl rfl
  | false =>
    have hreport : checkProtected c s g =
        { s with diagnostics := s.diagnostics.report (t.undeclaredReport g) } := by
      rw [← hpaired.declaredOnChain, ← hpaired.specifiedName, Tree.specifiedName] at hdeclared
      rw [checkProtected, hdeclared, ← hpaired.undeclaredReport]
      rfl
    rw [hreport, Diagnostics.report, Array.toList_push]
    exact .inr (List.mem_append_right _ (List.mem_singleton_self _))

/-- What is known of a protected specification outlasts further reports. -/
theorem Concerns.mono {s' : CheckState} (h : Concerns t c g s) (hpaired : t.Paired s'.tree)
    (hreports : s.ReportsMore s') : Concerns t c g s' :=
  ⟨hpaired, h.2.imp_right (hreports.subset ·)⟩

/-- Checking a protected specification loses no report. -/
theorem checkProtected_reportsMore (c : NodeId) (s : CheckState) (g : NodeId) :
    s.ReportsMore (checkProtected c s g) := by
  rw [checkProtected]
  split
  · exact List.prefix_rfl
  · exact .report s _

/-- So does each protected specification of a class whose specifications have been paired. -/
theorem pairSpecifications_concerns (hpaired : t.Paired s.tree) (hg : g ∈ t.protectedSpecs c) :
    Concerns t c g (s.pairSpecifications c) := by
  rw [← hpaired.protectedSpecs, Tree.protectedSpecs] at hg
  rw [pairSpecifications]
  cases hclass : s.tree.class? c with
  | none => simp [hclass] at hg
  | some parts =>
    rw [hclass] at hg
    have hhidden : parts.hidden.toList ⊆ s.tree.hiddenSpecs c := by
      rw [Tree.hiddenSpecs, hclass]
      exact List.Subset.refl _
    refine foldl_establishes hg (fun s (hs : t.Paired s.tree) g' _ => ?_)
      (fun s hs => checkProtected_concerns hs) (fun s hs g' _ => ?_)
      (hpaired.trans (foldl_pairHidden_pairs hhidden).paired)
    · rwa [tree_checkProtected]
    · exact hs.mono (by rw [tree_checkProtected]; exact hs.1) (checkProtected_reportsMore c s g')

end CheckState

/-! ## All that is done with a class -/

namespace CheckState

/-- The second state is that after the first phases for some classes, and all has been done for one
of them. -/
structure Settled (s s' : CheckState) (classes : List NodeId) (c : NodeId) : Prop where
  /-- A prefix that was awaited has been looked up at the turn of the class. What it denotes has
  become the prefix class, or has been reported as none or as a circular one. -/
  resolved : ∀ name, s.tree.awaitedPrefix? c = some name →
    ∃ earlier later, classes = earlier ++ c :: later ∧
      let found := (s.forClasses resolvePrefix earlier).tree.prefixMeaning c name
      s.tree.prefixReports c name found ⊆ s'.diagnostics.entries.toList ∧
      (s'.tree.prefixClass? c = found.filter s.tree.isClass ∨
        s'.tree.prefixClass? c = none ∧
          s.tree.circularReport c ∈ s'.diagnostics.entries.toList)
  /-- No prefixes lead back to the class. -/
  acyclic : ¬ Graph.Leads s'.tree.prefixClass? c c
  /-- Every hidden specification has its protected one. -/
  paired : ∀ h ∈ s'.tree.hiddenSpecs c, s'.tree.kind h = .hiddenSpec → ∀ p,
    s'.tree.findProtected c (s'.tree.specifiedName h) = some p →
      ∃ q, s'.tree.Matches h q ∧ s'.tree.protectedBy? h = some q
  /-- A hidden specification without a protected one has been reported. -/
  unmatched : ∀ h ∈ s'.tree.hiddenSpecs c,
    s'.tree.findProtected c (s'.tree.specifiedName h) = none →
      s'.tree.unmatchedReport h ∈ s'.diagnostics.entries.toList
  /-- A protected specification that concerns no attribute has been reported. -/
  undeclared : ∀ g ∈ s'.tree.protectedSpecs c,
    declaredOnChain s'.tree c (s'.tree.specifiedName g) = false →
      s'.tree.undeclaredReport g ∈ s'.diagnostics.entries.toList

variable {s : CheckState} {classes : List NodeId} {c : NodeId}

/-- At its turn a class gets the class that its prefix denotes, or a report, and the turns of the
others change neither. -/
theorem forClasses_resolvePrefix_resolves {earlier later : List NodeId} {name : String}
    (hnodup : (earlier ++ c :: later).Nodup) (hname : s.tree.awaitedPrefix? c = some name) :
    let found := (s.forClasses resolvePrefix earlier).tree.prefixMeaning c name
    let s' := s.forClasses resolvePrefix (earlier ++ c :: later)
    s.tree.prefixReports c name found ⊆ s'.diagnostics.entries.toList ∧
    s'.tree.prefixClass? c = found.filter s.tree.isClass := by
  intro found s'
  obtain ⟨-, hlater, happart⟩ := List.nodup_append.mp hnodup
  have hearlier : c ∉ earlier := fun hc => happart c hc c List.mem_cons_self rfl
  have hturn : (s.forClasses resolvePrefix earlier).tree.awaitedPrefix? c = some name := by
    rw [← hname, Tree.awaitedPrefix?, Tree.class?,
      Tree.data_congr (nodes_forClasses_resolvePrefix (.inl hearlier))]
    rfl
  obtain ⟨hfound, hreports⟩ := resolvePrefix_of_awaited hturn
  have hs' : s' = ((s.forClasses resolvePrefix earlier).resolvePrefix c).forClasses
      resolvePrefix later := by
    simp only [s', forClasses, List.foldl_append, List.foldl_cons]
  rw [hs']
  constructor
  · refine fun d hd => (forClasses_resolvePrefix_reportsMore later _).subset ?_
    rw [hreports, prefixReports_forClasses_resolvePrefix hearlier]
    exact List.mem_append_right _ hd
  · rw [prefixClass?_forClasses_resolvePrefix (.inl (List.nodup_cons.mp hlater).1), hfound]
    exact congrArg found.filter
      (funext (forClasses_resolvePrefix_regrows earlier s).regrown.offers.isClass)

/-- A class keeps its prefix class when circular prefixes are cut, or it loses it and is
reported. -/
theorem forClasses_cutPrefixCycle_keeps_or_reports (classes : List NodeId) (s : CheckState)
    (c : NodeId) :
    let s' := s.forClasses cutPrefixCycle classes
    s'.tree.prefixClass? c = s.tree.prefixClass? c ∨
      s'.tree.prefixClass? c = none ∧ s.tree.circularReport c ∈ s'.diagnostics.entries.toList := by
  intro s'
  have hcut := forClasses_cutPrefixCycle_cut classes s
  by_cases hfirst : Graph.FirstOnCycle s.tree.prefixClass? classes c
  · obtain ⟨cuts, -, hmem, hreports⟩ := forClasses_cutPrefixCycle_reports classes s
    refine .inr ⟨hcut.gone c hfirst, ?_⟩
    rw [hreports]
    exact List.mem_append_right _ (List.mem_map_of_mem ((hmem c).mpr hfirst))
  · exact .inl (hcut.kept c hfirst)

/-- With the prefixes of a module resolved and circular ones cut, each class of the module has what
its prefix denotes at its turn, or a report. -/
theorem withPrefixes_resolves {module : NodeId} {name : String}
    (hc : c ∈ s.tree.classesBelow module) (hname : s.tree.awaitedPrefix? c = some name) :
    ∃ earlier later, s.tree.classesBelow module = earlier ++ c :: later ∧
      let found := (s.forClasses resolvePrefix earlier).tree.prefixMeaning c name
      let s' := s.withPrefixes module
      s.tree.prefixReports c name found ⊆ s'.diagnostics.entries.toList ∧
      (s'.tree.prefixClass? c = found.filter s.tree.isClass ∨
        s'.tree.prefixClass? c = none ∧
          s.tree.circularReport c ∈ s'.diagnostics.entries.toList) := by
  obtain ⟨earlier, later, hsplit⟩ := List.append_of_mem hc
  obtain ⟨hreported, hfound⟩ := forClasses_resolvePrefix_resolves (s := s)
    (hsplit ▸ s.tree.nodup_classesBelow module) hname
  rw [← hsplit] at hreported hfound
  refine ⟨earlier, later, hsplit, fun d hd => ?_, ?_⟩
  · exact (forClasses_cutPrefixCycle_reportsMore _ _).subset (hreported hd)
  · rw [← hfound, ← circularReport_forClasses_resolvePrefix (s.tree.classesBelow module)]
    exact forClasses_cutPrefixCycle_keeps_or_reports _ _ c

/-- Once the specifications of some classes are paired, all is recorded or reported of those of each
class. -/
theorem forClasses_pairSpecifications_pairs_each (hc : c ∈ classes) :
    let s' := s.forClasses pairSpecifications classes
    (∀ h ∈ s.tree.hiddenSpecs c, s.tree.kind h = .hiddenSpec → ∀ p,
      s.tree.findProtected c (s.tree.specifiedName h) = some p → RecordsPair s.tree h s') ∧
    (∀ g ∈ s.tree.protectedSpecs c, Concerns s.tree c g s') := by
  refine ⟨fun h hh hkind p hp => ?_, fun g hg => ?_⟩
  · exact foldl_establishes hc
      (fun s' (hs : s.tree.Paired s'.tree) d _ => hs.trans (s'.pairSpecifications_pairs d).paired)
      (fun _ hs => pairSpecifications_recordsPair hs hh hkind hp)
      (fun _ hs d _ => RecordsPair.pairSpecifications hs d) (.refl s.tree)
  · exact foldl_establishes hc
      (fun s' (hs : s.tree.Paired s'.tree) d _ => hs.trans (s'.pairSpecifications_pairs d).paired)
      (fun _ hs => pairSpecifications_concerns hs hg)
      (fun s' hs d _ => hs.mono (hs.1.trans (s'.pairSpecifications_pairs d).paired)
        (s'.pairSpecifications_reportsMore d)) (.refl s.tree)

/-- The first phases of a check settle every class of the module. -/
theorem prepareClasses_settled (s : CheckState) {module : NodeId}
    (hc : c ∈ s.tree.classesBelow module) :
    s.Settled (s.prepareClasses module) (s.tree.classesBelow module) c := by
  have hpairs : (s.withPrefixes module).Pairs (s.prepareClasses module) _ :=
    forClasses_pairSpecifications_pairs (s.tree.classesBelow module) _
  have hreports : (s.withPrefixes module).ReportsMore (s.prepareClasses module) :=
    forClasses_pairSpecifications_reportsMore (s.tree.classesBelow module) _
  obtain ⟨hrecorded, hconcerns⟩ :=
    forClasses_pairSpecifications_pairs_each (s := s.withPrefixes module) hc
  have hpaired := hpairs.paired
  have hlinks : (s.prepareClasses module).tree.prefixClass? =
      (s.withPrefixes module).tree.prefixClass? := funext hpaired.sameScopes.prefixClass
  refine ⟨fun name hname => ?_, ?_, fun h hh hkind p hp => ?_, fun h hh hp => ?_,
    fun g hg hundeclared => ?_⟩
  · obtain ⟨earlier, later, hsplit, hreported, hfound⟩ := withPrefixes_resolves hc hname
    rw [hlinks]
    exact ⟨earlier, later, hsplit, fun d hd => hreports.subset (hreported hd),
      hfound.imp_right (And.imp_right (hreports.subset ·))⟩
  · rw [hlinks]
    intro hcycle
    obtain ⟨hbefore, hfree⟩ := (forClasses_cutPrefixCycle_cut _ _).leads_self_iff.mp hcycle
    exact hfree c hc hbefore
  · have hkind' : (s.withPrefixes module).tree.kind h = .hiddenSpec := by
      rw [← hkind]
      exact (hpaired.read _ NodeData.kind_unpaired h).symm
    rw [hpaired.hiddenSpecs] at hh
    rw [hpaired.sameScopes.findProtected, hpaired.specifiedName] at hp
    obtain ⟨-, q, ⟨d, hd, hq⟩, hrecord⟩ := hrecorded h hh hkind' p hp
    refine ⟨q, ⟨d, ?_, ?_⟩, hrecord⟩
    · rwa [hpaired.hiddenSpecs]
    · rwa [hpaired.sameScopes.findProtected, hpaired.specifiedName]
  · rw [hpaired.hiddenSpecs] at hh
    rw [hpaired.sameScopes.findProtected, hpaired.specifiedName] at hp
    have hreport : (s.withPrefixes module).tree.unmatchedReport h ∈
        (s.prepareClasses module).diagnostics.coded "E0103" := by
      rw [hpairs.reports]
      refine List.mem_append_right _ (List.mem_map_of_mem (List.mem_flatMap.mpr ⟨c, hc, ?_⟩))
      exact Tree.mem_unmatched.mpr ⟨hh, hp⟩
    rw [hpaired.unmatchedReport]
    exact List.mem_of_mem_filter hreport
  · rw [hpaired.protectedSpecs] at hg
    rw [hpaired.declaredOnChain, hpaired.specifiedName] at hundeclared
    rw [hpaired.undeclaredReport]
    exact (hconcerns g hg).2.resolve_left (by simp [hundeclared])

end CheckState

end Simula
