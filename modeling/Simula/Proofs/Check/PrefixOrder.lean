import Simula.Proofs.Check.Prefixes
import Simula.Proofs.Check.Regrowth
import Simula.Proofs.Graph.Reachability

/-!
# The order in which prefixes are resolved

The prefixes of the classes of a module are resolved one after the other, in the order in which the
classes are met. A prefix is looked up in the tree as it is when its turn comes: the classes before
it have their prefix classes by then, those behind it do not. So a prefix that is inherited through
a class that comes later is not found, although it is defined once the check is over. Where nothing
on the way of the lookup is still to come, the prefix means in the end what it meant at its turn.
-/

namespace Simula

/-- The prefix of a class that has no prefix class yet. -/
def Tree.awaitedPrefix? (t : Tree) (c : NodeId) : Option String :=
  (t.class? c).bind fun parts => if parts.prefixClass.isNone then parts.prefixName else none

/-- What an identifier denotes as the prefix of a class: its meaning in the scope around the
class. -/
def Tree.prefixMeaning (t : Tree) (c : NodeId) (name : String) : Option NodeId :=
  (t.resolve ((t.declaredIn? c).getD c) name).declaration

/-- What is reported of the prefix of a class that denotes the given declaration, or none. -/
def Tree.prefixReports (t : Tree) (c : NodeId) (name : String) :
    Option NodeId → List Diagnostic
  | none => [(Finding.undefinedIdentifier name).onLine (t.line c)]
  | some d => if t.isClass d then [] else [(Finding.prefixNotAClass name).onLine (t.line c)]

/-- Only a class has a prefix class. -/
theorem Tree.prefixClass?_of_not_isClass {t : Tree} {id : NodeId} (h : t.isClass id = false) :
    t.prefixClass? id = none := by
  rw [isClass, Option.isSome_eq_false_iff, Option.isNone_iff_eq_none] at h
  rw [prefixClass?, h]
  rfl

/-- The parts of a class are the ones that are changed. -/
theorem NodeData.class?_modifyClass (f : ClassParts → ClassParts) (d : NodeData) :
    (d.modifyClass f).class? = d.class?.map f := by
  rcases d with _ | ⟨_, _, form⟩ | _ | _ | _
  case declaration => cases form <;> rfl
  all_goals rfl

/-- A class has the prefix class that is recorded for it. -/
theorem Tree.prefixClass?_update {t : Tree} {c : NodeId} {p : Option NodeId}
    (h : t.isClass c = true) :
    (t.update c fun d => d.modifyClass (·.withPrefixClass p)).prefixClass? c = p := by
  obtain ⟨parts, hparts⟩ := Option.isSome_iff_exists.mp h
  have hclass : (t.data c).class? = some parts := hparts
  rw [prefixClass?, class?, data_update_self _ (lt_of_class h), NodeData.class?_modifyClass, hclass]
  rfl

namespace CheckState

variable {s : CheckState} {c : NodeId} {name : String}

/-- A class that waits for no prefix is left alone. -/
theorem resolvePrefix_of_not_awaited (h : s.tree.awaitedPrefix? c = none) :
    s.resolvePrefix c = s := by
  rw [Tree.awaitedPrefix?] at h
  rw [resolvePrefix]
  cases hclass : s.tree.class? c with
  | none => rfl
  | some parts =>
    rw [hclass] at h
    cases hp : parts.prefixClass with
    | some p => simp [hp]
    | none => simp_all

/-- A class at its turn gets the class that its prefix denotes, or a report. -/
theorem resolvePrefix_of_awaited (h : s.tree.awaitedPrefix? c = some name) :
    (s.resolvePrefix c).tree.prefixClass? c =
      (s.tree.prefixMeaning c name).filter s.tree.isClass ∧
    (s.resolvePrefix c).diagnostics.entries.toList = s.diagnostics.entries.toList ++
      s.tree.prefixReports c name (s.tree.prefixMeaning c name) := by
  obtain ⟨parts, hclass, hparts⟩ := Option.bind_eq_some_iff.mp h
  have hnone : parts.prefixClass = none := by
    cases hp : parts.prefixClass with
    | none => rfl
    | some p => simp [hp] at hparts
  have hname : parts.prefixName = some name := by simpa [hnone] using hparts
  have hunset : s.tree.prefixClass? c = none := by simp [Tree.prefixClass?, hclass, hnone]
  cases hfound : s.tree.prefixMeaning c name with
  | none =>
    have hstep : s.resolvePrefix c = s.report (s.tree.line c) (.undefinedIdentifier name) := by
      rw [Tree.prefixMeaning] at hfound
      simp [resolvePrefix, hclass, hname, hnone, hfound]
    rw [hstep]
    exact ⟨hunset, Array.toList_push⟩
  | some d =>
    rw [Tree.prefixMeaning] at hfound
    cases hd : s.tree.isClass d with
    | false =>
      have hstep : s.resolvePrefix c = s.report (s.tree.line c) (.prefixNotAClass name) := by
        simp [resolvePrefix, hclass, hname, hnone, hfound, hd]
      rw [hstep, Tree.prefixReports, hd, Option.filter_some, hd]
      exact ⟨hunset, Array.toList_push⟩
    | true =>
      have hstep : s.resolvePrefix c =
          s.update c fun data => data.modifyClass (·.withPrefixClass (some d)) := by
        simp [resolvePrefix, hclass, hname, hnone, hfound, hd]
      rw [hstep, Tree.prefixReports, hd, Option.filter_some, hd]
      exact ⟨Tree.prefixClass?_update (by simp [Tree.isClass, hclass]), (List.append_nil _).symm⟩

/-- The turns of other classes, and that of a class that does not wait, leave a class as it is. -/
theorem nodes_forClasses_resolvePrefix {id : NodeId} {classes : List NodeId}
    (h : id ∉ classes ∨ s.tree.awaitedPrefix? id = none) :
    (s.forClasses resolvePrefix classes).tree.nodes[id]? = s.tree.nodes[id]? := by
  induction classes generalizing s with
  | nil => rfl
  | cons c classes ih =>
    have hstep : (s.resolvePrefix c).tree.nodes[id]? = s.tree.nodes[id]? := by
      by_cases hc : id = c
      · subst hc
        rw [resolvePrefix_of_not_awaited (h.resolve_left (by simp))]
      · rcases s.tree_resolvePrefix c with htree | ⟨p, htree⟩ <;> rw [htree]
        exact Tree.nodes_update_of_ne _ hc
    have hdata := Tree.data_congr hstep
    refine (ih ?_).trans hstep
    rw [Tree.awaitedPrefix?, Tree.class?, hdata]
    exact h.imp_left fun hmem hin => hmem (List.mem_cons_of_mem _ hin)

/-- Resolving prefixes gives one only to classes that wait for it. -/
theorem prefixClass?_forClasses_resolvePrefix {id : NodeId} {classes : List NodeId}
    (h : id ∉ classes ∨ s.tree.awaitedPrefix? id = none) :
    (s.forClasses resolvePrefix classes).tree.prefixClass? id = s.tree.prefixClass? id := by
  rw [Tree.prefixClass?, Tree.class?, Tree.data_congr (nodes_forClasses_resolvePrefix h)]
  rfl

/-- Reports of a prefix read the line of its class and what is a class, and both stay. -/
theorem prefixReports_forClasses_resolvePrefix {classes : List NodeId} (h : c ∉ classes)
    (found : Option NodeId) :
    (s.forClasses resolvePrefix classes).tree.prefixReports c name found =
      s.tree.prefixReports c name found := by
  have hline : (s.forClasses resolvePrefix classes).tree.line c = s.tree.line c := by
    rw [Tree.line, Tree.line, nodes_forClasses_resolvePrefix (.inl h)]
  have hisClass := (forClasses_resolvePrefix_regrows classes s).regrown.offers.isClass
  cases found with
  | none => rw [Tree.prefixReports, Tree.prefixReports, hline]
  | some d => rw [Tree.prefixReports, Tree.prefixReports, hline, hisClass]

/-- Where no circular chain is reported none is cut. -/
theorem forClasses_cutPrefixCycle_of_countCode {classes : List NodeId}
    (h : (s.forClasses cutPrefixCycle classes).diagnostics.countCode "E0107" ≤
      s.diagnostics.countCode "E0107") : s.forClasses cutPrefixCycle classes = s := by
  induction classes generalizing s with
  | nil => rfl
  | cons c classes ih =>
    have hrest : (s.cutPrefixCycle c).diagnostics.countCode "E0107" ≤
        ((s.cutPrefixCycle c).forClasses cutPrefixCycle classes).diagnostics.countCode "E0107" :=
      (forClasses_cutPrefixCycle_reportsMore classes _).countCode_le "E0107"
    have hcut : s.cutPrefixCycle c = s := by
      by_contra hne
      have hcycle : s.tree.inPrefixCycle c = true := by
        by_contra hno
        exact hne (by rw [cutPrefixCycle, if_neg hno])
      have hone : (s.cutPrefixCycle c).diagnostics.countCode "E0107" =
          s.diagnostics.countCode "E0107" + 1 := by
        rw [cutPrefixCycle, if_pos hcycle]
        simp [update, report, Diagnostics.report, Diagnostics.countCode, Finding.onLine,
          Finding.code]
      rw [forClasses, List.foldl_cons] at h
      rw [forClasses] at hrest
      omega
    rw [forClasses, List.foldl_cons, hcut] at h ⊢
    exact ih h

end CheckState

/-- The classes below a node are listed once each. -/
theorem Tree.nodup_classesBelow (t : Tree) (root : NodeId) : (t.classesBelow root).Nodup :=
  Graph.nodup_preorder.filter _

/-- The classes that a lookup searches, and whether from outside. -/
def Tree.Consults (t : Tree) (x : String) (start : NodeId) (outside : Bool) (d : NodeId) : Prop :=
  ∃ scope o c, t.Passes x start scope ∧ t.searchedClass? scope = some (o, c) ∧
    t.Searches x o c outside d

/-- All that the lookup of a prefix passes in the second state was there in the first: the scopes on
the way stand where they stood and connect the same classes, a hidden identifier leads behind the
same class, and no class behind which the search goes on is still waiting for its prefix class. -/
structure CheckState.Foreseen (turn s' : CheckState) (waiting : List NodeId) (c : NodeId)
    (name : String) : Prop where
  home : s'.tree.declaredIn? c = turn.tree.declaredIn? c
  scopes : ∀ scope, s'.tree.Passes name ((s'.tree.declaredIn? c).getD c) scope →
    s'.tree.searchedClass? scope = turn.tree.searchedClass? scope ∧
    (s'.tree.lookupScope scope name = none →
      s'.tree.declaredIn? scope = turn.tree.declaredIn? scope)
  classes : ∀ outside d, s'.tree.Consults name ((s'.tree.declaredIn? c).getD c) outside d →
    s'.tree.goesOnBehind? name outside d = turn.tree.goesOnBehind? name outside d ∧
    ∀ q, s'.tree.goesOnBehind? name outside d = some q → q ∈ waiting →
      turn.tree.awaitedPrefix? q = none

/-- What is foreseen has the meaning that it has in the end. -/
theorem CheckState.Foreseen.prefixMeaning_eq {turn s' : CheckState} {waiting : List NodeId}
    {c : NodeId} {name : String} (h : turn.Foreseen s' waiting c name)
    (hregrown : turn.tree.Regrown s'.tree)
    (hlinks : ∀ q, (q ∈ waiting → turn.tree.awaitedPrefix? q = none) →
      s'.tree.prefixClass? q = turn.tree.prefixClass? q) :
    s'.tree.prefixMeaning c name = turn.tree.prefixMeaning c name := by
  have hway : Tree.SameLookup turn.tree s'.tree name ((s'.tree.declaredIn? c).getD c) := by
    refine ⟨fun a ha => (h.scopes a ha).1, fun a o d ha hd outside e he => ?_,
      fun a ha => (h.scopes a ha).2⟩
    obtain ⟨hbehind, hwaiting⟩ := h.classes outside e ⟨a, o, d, ha, hd, he⟩
    exact ⟨hbehind, fun q hq => hlinks q (hwaiting q hq)⟩
  rw [Tree.prefixMeaning, hregrown.resolve_eq hway, h.home, Tree.prefixMeaning]

namespace CheckM

variable {s s' : CheckState} {module : NodeId}

/-- A check that reports no circular chain leaves the prefix classes as they have been resolved. -/
theorem prefixClass?_of_check (hcheck : check module s = .ok () s')
    (hcircular : s'.diagnostics.countCode "E0107" = s.diagnostics.countCode "E0107") :
    s.withPrefixes module = s.forClasses CheckState.resolvePrefix (s.tree.classesBelow module) ∧
    ∀ id, s'.tree.prefixClass? id = (s.withPrefixes module).tree.prefixClass? id := by
  constructor
  · refine CheckState.forClasses_cutPrefixCycle_of_countCode ?_
    have hresolved := (CheckState.forClasses_resolvePrefix_reportsMore
      (s.tree.classesBelow module) s).countCode_le "E0107"
    have hrest := (check_reportsMore module s).countCode_le "E0107"
    rw [leaves_of_ok hcheck, hcircular] at hrest
    exact Nat.le_trans hrest hresolved
  · intro id
    have hkeeps := check_keeps undisturbed_prefixClass module s
    have hregrows := check_regrows module s
    rw [leaves_of_ok hcheck] at hkeeps hregrows
    by_cases hid : id < (s.withPrefixes module).tree.size
    · exact hkeeps.same id hid
    · -- A new node is no class.
      have hold : (s.withPrefixes module).tree.isClass id = false := by
        rw [Tree.isClass, Tree.class?, Tree.data_of_size_le (Nat.le_of_not_lt hid)]
        rfl
      rw [Tree.prefixClass?_of_not_isClass hold, Tree.prefixClass?_of_not_isClass]
      rw [hregrows.regrown.offers.isClass, hold]

/-- **Prefixes in order.** Let a check of a module come to its end and report no circular chain. The
prefix of a class that has no prefix class yet means what it means at its turn, when the classes
before it have their prefix classes: the class gets the class that the prefix denotes then, and
what is reported then is that the prefix is undefined, that it is no class, or nothing. If all that
the lookup of the prefix passes in the checked tree was there at that turn, the prefix has the same
meaning in the checked tree. -/
theorem check_resolves_in_order {c : NodeId} {before after : List NodeId} {name : String}
    {turn : CheckState} (hcheck : check module s = .ok () s')
    (hcircular : s'.diagnostics.countCode "E0107" = s.diagnostics.countCode "E0107")
    (horder : s.tree.classesBelow module = before ++ c :: after)
    (hturn : s.forClasses CheckState.resolvePrefix before = turn)
    (hawaited : s.tree.awaitedPrefix? c = some name) :
    s'.tree.prefixClass? c = (turn.tree.prefixMeaning c name).filter s'.tree.isClass ∧
    (∃ later, s'.diagnostics.entries.toList = turn.diagnostics.entries.toList ++
      s.tree.prefixReports c name (turn.tree.prefixMeaning c name) ++ later) ∧
    (turn.Foreseen s' (c :: after) c name →
      s'.tree.prefixMeaning c name = turn.tree.prefixMeaning c name) := by
  have hnodup := s.tree.nodup_classesBelow module
  rw [horder, List.nodup_append, List.nodup_cons] at hnodup
  have hbefore : c ∉ before := fun hmem => hnodup.2.2 c hmem c List.mem_cons_self rfl
  have hafter : c ∉ after := hnodup.2.1.1
  obtain ⟨hprefixes, hfinal⟩ := prefixClass?_of_check hcheck hcircular
  have hresolved : s.withPrefixes module =
      (turn.resolvePrefix c).forClasses CheckState.resolvePrefix after := by
    rw [hprefixes, horder, ← hturn]
    simp [CheckState.forClasses]
  -- Until its turn the class is left alone.
  have hnode : turn.tree.nodes[c]? = s.tree.nodes[c]? :=
    hturn ▸ CheckState.nodes_forClasses_resolvePrefix (.inl hbefore)
  have hawaited' : turn.tree.awaitedPrefix? c = some name := by
    rw [Tree.awaitedPrefix?, Tree.class?, Tree.data_congr hnode]
    exact hawaited
  obtain ⟨hclass, hreports⟩ := CheckState.resolvePrefix_of_awaited hawaited'
  have hregrows : turn.Regrows s' := by
    have hrest := check_regrows module s
    rw [leaves_of_ok hcheck, hresolved] at hrest
    exact (CheckState.forClasses_resolvePrefix_regrows (c :: after) turn).trans hrest
  refine ⟨?_, ?_, fun hforeseen => hforeseen.prefixMeaning_eq hregrows.regrown fun q hq => ?_⟩
  · have hisClass : s'.tree.isClass = turn.tree.isClass :=
      funext hregrows.regrown.offers.isClass
    rw [hfinal, hresolved, CheckState.prefixClass?_forClasses_resolvePrefix (.inl hafter), hclass,
      hisClass]
  · have hmore := check_reportsMore module s
    rw [leaves_of_ok hcheck, hresolved] at hmore
    obtain ⟨later, hlater⟩ :=
      (CheckState.forClasses_resolvePrefix_reportsMore after (turn.resolvePrefix c)).trans hmore
    have hsame : turn.tree.prefixReports c name (turn.tree.prefixMeaning c name) =
        s.tree.prefixReports c name (turn.tree.prefixMeaning c name) :=
      hturn ▸ CheckState.prefixReports_forClasses_resolvePrefix hbefore _
    exact ⟨later, by rw [← hlater, hreports, hsame]⟩
  · have hlink : q ∉ c :: after ∨ turn.tree.awaitedPrefix? q = none := by
      by_cases hmem : q ∈ c :: after
      · exact .inr (hq hmem)
      · exact .inl hmem
    rw [hfinal, hresolved]
    exact CheckState.prefixClass?_forClasses_resolvePrefix hlink

/-- A block with the classes `Y class X`, `Z class Y` and `Z` in this order. The class `P class C`
stands in `X`, and `P` in `Z`. -/
def inheritedPrefix : CheckState where
  tree := { nodes := #[
    ⟨1, .declaration "MAIN" none (.block
      { declarations := ⟨#[("X", 1), ("Y", 3), ("Z", 4)]⟩ })⟩,
    ⟨2, .declaration "X" (some 0) (.classDeclaration
      { prefixName := some "Y", body := { declarations := ⟨#[("C", 2)]⟩ } })⟩,
    ⟨3, .declaration "C" (some 1) (.classDeclaration { prefixName := some "P" })⟩,
    ⟨4, .declaration "Y" (some 0) (.classDeclaration { prefixName := some "Z" })⟩,
    ⟨5, .declaration "Z" (some 0) (.classDeclaration
      { body := { declarations := ⟨#[("P", 5)]⟩ } })⟩,
    ⟨6, .declaration "P" (some 4) (.classDeclaration {})⟩] }

/-- The same classes in the order `Z`, `Z class Y`, `Y class X`. -/
def inheritedInOrder : CheckState where
  tree := { nodes := #[
    ⟨1, .declaration "MAIN" none (.block
      { declarations := ⟨#[("Z", 1), ("Y", 3), ("X", 4)]⟩ })⟩,
    ⟨2, .declaration "Z" (some 0) (.classDeclaration
      { body := { declarations := ⟨#[("P", 2)]⟩ } })⟩,
    ⟨3, .declaration "P" (some 1) (.classDeclaration {})⟩,
    ⟨4, .declaration "Y" (some 0) (.classDeclaration { prefixName := some "Z" })⟩,
    ⟨5, .declaration "X" (some 0) (.classDeclaration
      { prefixName := some "Y", body := { declarations := ⟨#[("C", 5)]⟩ } })⟩,
    ⟨6, .declaration "C" (some 4) (.classDeclaration { prefixName := some "P" })⟩] }

/-- Where a lookup of `P` from `X` leads in a tree: through `X` and `Y` to `Z`. -/
def LeadsToZ (t : Tree) : Prop :=
  t.declaredIn? 5 = some 4 ∧ t.lookupScope 4 "P" ≠ none ∧ t.searchedClass? 4 = some (false, 4) ∧
  t.goesOnBehind? "P" false 4 = some 4 ∧ t.prefixClass? 4 = some 3 ∧
  t.goesOnBehind? "P" true 3 = some 3 ∧ t.prefixClass? 3 = some 1 ∧
  t.goesOnBehind? "P" true 1 = none

instance (t : Tree) : Decidable (LeadsToZ t) := inferInstanceAs (Decidable (_ ∧ _))

/-- Such a lookup waits for no prefix but those of `X` and `Y`. -/
theorem foreseen_of_leadsToZ {turn s' : CheckState} (h : LeadsToZ turn.tree)
    (h' : LeadsToZ s'.tree) : turn.Foreseen s' [5] 5 "P" := by
  obtain ⟨hhome, -, hsearched, hx, -, hy, -, hz⟩ := h
  obtain ⟨hhome', hfound', hsearched', hx', hxp', hy', hyp', hz'⟩ := h'
  have hpasses : ∀ scope, s'.tree.Passes "P" 4 scope → scope = 4 := by
    intro scope hscope
    induction hscope with
    | start => rfl
    | outward _ hnone _ ih => exact absurd (ih ▸ hnone) hfound'
  have hsearches : ∀ o d, s'.tree.Searches "P" false 4 o d →
      (o, d) ∈ [(false, 4), (true, 3), (true, 1)] := by
    intro o d hd
    induction hd with
    | start => simp
    | @next o d q p _ hq hp ih =>
      simp only [List.mem_cons, Prod.mk.injEq, List.not_mem_nil, or_false] at ih
      rcases ih with ⟨rfl, rfl⟩ | ⟨rfl, rfl⟩ | ⟨rfl, rfl⟩
      · cases hx'.symm.trans hq
        cases hxp'.symm.trans hp
        simp
      · cases hy'.symm.trans hq
        cases hyp'.symm.trans hp
        simp
      · cases hz'.symm.trans hq
  refine ⟨hhome'.trans hhome.symm, fun scope hscope => ?_, fun o d hd => ?_⟩
  · rw [hhome'] at hscope
    obtain rfl := hpasses scope hscope
    exact ⟨hsearched'.trans hsearched.symm, fun hnone => absurd hnone hfound'⟩
  · obtain ⟨scope, o', c, hscope, hc, hd⟩ := hd
    rw [hhome'] at hscope
    obtain rfl := hpasses scope hscope
    cases hsearched'.symm.trans hc
    have hmem := hsearches o d hd
    simp only [List.mem_cons, Prod.mk.injEq, List.not_mem_nil, or_false] at hmem
    rcases hmem with ⟨rfl, rfl⟩ | ⟨rfl, rfl⟩ | ⟨rfl, rfl⟩
    · exact ⟨hx'.trans hx.symm, fun q hq hmem => by cases hx'.symm.trans hq; simp at hmem⟩
    · exact ⟨hy'.trans hy.symm, fun q hq hmem => by cases hy'.symm.trans hq; simp at hmem⟩
    · exact ⟨hz'.trans hz.symm, fun q hq _ => by cases hz'.symm.trans hq⟩

/-- The prefix of `C` is inherited through `Y`. Where the turn of `Y` is yet to come, the prefix is
reported as undefined, although it denotes `P` in the checked tree. Where `Y` has had its turn, `C`
gets the prefix class `P`. -/
theorem check_resolves_in_order_inheritedPrefix :
    (∃ s', check 0 inheritedPrefix = .ok () s' ∧
      s'.tree.prefixMeaning 2 "P" = some 5 ∧ s'.tree.isClass 5 = true ∧
      s'.tree.prefixClass? 2 = none ∧ ∃ later, s'.diagnostics.entries.toList =
        [(Finding.undefinedIdentifier "P").onLine 3] ++ later) ∧
    ∃ s', check 0 inheritedInOrder = .ok () s' ∧
      s'.tree.prefixMeaning 5 "P" = some 2 ∧ s'.tree.prefixClass? 5 = some 2 := by
  constructor
  · have horder : inheritedPrefix.tree.classesBelow 0 = [1] ++ 2 :: [3, 4, 5] := by
      rw [Tree.classesBelow, Graph.preorder_of_within 20 rfl]
      rfl
    have hrun : succeedsWith (checkScope 21 0) (((inheritedPrefix
        |>.forClasses CheckState.resolvePrefix [1, 2, 3, 4, 5])
        |>.forClasses CheckState.cutPrefixCycle [1, 2, 3, 4, 5])
        |>.forClasses CheckState.pairSpecifications [1, 2, 3, 4, 5])
        (fun _ s' => s'.diagnostics.countCode "E0107" = 0 ∧
          s'.tree.prefixMeaning 2 "P" = some 5 ∧ s'.tree.isClass 5 = true) = true := by
      decide +kernel
    obtain ⟨_, s', hok, htest⟩ := exists_of_succeedsWith hrun
    obtain ⟨hcircular, hmeaning, hclass⟩ := of_decide_eq_true htest
    have hcheck : check 0 inheritedPrefix = .ok () s' := check_of_classesBelow horder hok
    obtain ⟨hprefixClass, ⟨later, hlater⟩, -⟩ :=
      check_resolves_in_order hcheck hcircular horder rfl (show _ = some "P" by decide +kernel)
    have hturn : (inheritedPrefix.forClasses CheckState.resolvePrefix
        [1]).tree.prefixMeaning 2 "P" = none := by decide +kernel
    rw [hturn] at hprefixClass hlater
    exact ⟨s', hcheck, hmeaning, hclass, hprefixClass, later, hlater⟩
  · have horder : inheritedInOrder.tree.classesBelow 0 = [1, 2, 3, 4] ++ 5 :: [] := by
      rw [Tree.classesBelow, Graph.preorder_of_within 20 rfl]
      rfl
    have hrun : succeedsWith (checkScope 21 0) (((inheritedInOrder
        |>.forClasses CheckState.resolvePrefix [1, 2, 3, 4, 5])
        |>.forClasses CheckState.cutPrefixCycle [1, 2, 3, 4, 5])
        |>.forClasses CheckState.pairSpecifications [1, 2, 3, 4, 5])
        (fun _ s' => s'.diagnostics.countCode "E0107" = 0 ∧ LeadsToZ s'.tree ∧
          s'.tree.isClass 2 = true) = true := by
      decide +kernel
    obtain ⟨_, s', hok, htest⟩ := exists_of_succeedsWith hrun
    obtain ⟨hcircular, hleads, hclass⟩ := of_decide_eq_true htest
    have hcheck : check 0 inheritedInOrder = .ok () s' := check_of_classesBelow horder hok
    obtain ⟨hprefixClass, -, hmeaning⟩ :=
      check_resolves_in_order hcheck hcircular horder rfl (show _ = some "P" by decide +kernel)
    have hturn : (inheritedInOrder.forClasses CheckState.resolvePrefix
        [1, 2, 3, 4]).tree.prefixMeaning 5 "P" = some 2 := by decide +kernel
    have hforeseen := hmeaning (foreseen_of_leadsToZ (by decide +kernel) hleads)
    rw [hturn] at hprefixClass hforeseen
    exact ⟨s', hcheck, hforeseen, by rw [hprefixClass, Option.filter_some, hclass]; rfl⟩

end CheckM

end Simula
