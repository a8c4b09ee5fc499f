import Simula.Proofs.Check.Prefixes
import Simula.Proofs.Graph.Reachability
import Simula.Proofs.Session.Enclosing
import Simula.Proofs.Session.Loading

/-!
# Prefix chains across separate compilation

Of a chain of classes that are compiled one after the other, each prefixed by the one before, the
file of a class keeps the name of its prefix but not the link. When the last class is loaded and
checked again, its own prefix is found behind its external declaration. The classes further up were
loaded, too, but nothing looks for their prefixes: the chain ends at the second class.
-/

namespace Simula

/-- The class with its external declaration has been loaded behind the module of that
declaration. -/
structure Tree.LoadedBehind (t : Tree) (external module previous : NodeId) (first : Nat)
    (i p : String) : Prop where
  linked : ∃ s k file, t.data external = .declaration i s (.external k file (some previous))
  prefixed : ∃ j s parts, t.data module = .declaration j s (.classDeclaration parts) ∧
    parts.prefixName = some p ∧ parts.prefixClass = none ∧ t.sameIdentifier i j = false
  named : t.sameIdentifier i p = true
  isClass : t.isClass previous = true
  root : t.prefixClass? previous = none
  /-- The nodes of the class come last. -/
  external_lt : external < first
  previous_lt : previous < first
  module_le : first ≤ module
  /-- What is below them is among them, but for the external declaration. -/
  closed : ∀ id, first ≤ id → id < t.size → ∀ c ∈ t.children id,
    c = external ∨ (first ≤ c ∧ c < t.size)

namespace Tree.LoadedBehind

variable {t t' : Tree} {external module previous : NodeId} {first : Nat} {i p : String}

/-- The module is a node of the tree. -/
theorem module_lt (h : t.LoadedBehind external module previous first i p) : module < t.size := by
  obtain ⟨_, _, _, hdata, -⟩ := h.prefixed
  exact lt_of_data (by simp [hdata])

/-- What was loaded behind the external declaration comes before the module. -/
theorem previous_lt_module (h : t.LoadedBehind external module previous first i p) :
    previous < module :=
  Nat.lt_of_lt_of_le h.previous_lt h.module_le

/-- It is not the external declaration itself. -/
theorem previous_ne (h : t.LoadedBehind external module previous first i p) :
    previous ≠ external := by
  rintro rfl
  obtain ⟨_, _, _, hdata⟩ := h.linked
  have hclass := h.isClass
  simp [Tree.isClass, class?, hdata, NodeData.class?] at hclass

/-- The class can be enclosed with its external declaration. -/
theorem declarable (h : t.LoadedBehind external module previous first i p) :
    t.Declarable [] [external, module] := by
  obtain ⟨j, _, _, hmodule, -, -, hdistinct⟩ := h.prefixed
  obtain ⟨_, _, _, hexternal⟩ := h.linked
  have hi : t.identifier? external = some i := congrArg NodeData.identifier? hexternal
  have hj : t.identifier? module = some j := congrArg NodeData.identifier? hmodule
  exact ⟨by simp, by simp [hi, hj], by simp [DistinctNames, hi, hj, hdistinct]⟩

/-- Once the class is enclosed, its prefix is in sight. -/
theorem prefixInSight (h : t.LoadedBehind external module previous first i p)
    (he : t.Enclosed t' [external, module]) :
    t'.PrefixInSight t.size external module previous p := by
  obtain ⟨_, _, parts, hmodule, hname, hnone, -⟩ := h.prefixed
  obtain ⟨_, k, file, hexternal⟩ := h.linked
  have hprevious : t'.data previous = t.data previous :=
    he.other previous (Nat.lt_trans h.previous_lt_module h.module_lt)
      (by simp [h.previous_ne, Nat.ne_of_lt h.previous_lt_module])
  refine ⟨⟨_, _, _, he.block, ?_⟩, ⟨t.spelling external, some t.size, k, file, ?_⟩,
    ⟨t.spelling module, parts, ?_, hname, .inl hnone⟩, ?_, ?_⟩
  · have hsame : t.caseRule.same i p = true := h.named
    have hi : t.identifier? external = some i := congrArg NodeData.identifier? hexternal
    simp [DeclarationList.find?, spelling, hi, normalize, he.caseRule, hsame]
  · rw [he.declared external (by simp), hexternal]
    rfl
  · rw [he.declared module (by simp), hmodule]
    rfl
  · rw [Tree.isClass, class?, hprevious]
    exact h.isClass
  · rw [prefixClass?, class?, hprevious]
    exact h.root

/-- From the block a traversal comes to the class and what is below it, but not behind the external
declaration. -/
theorem inside_of_reaches (h : t.LoadedBehind external module previous first i p)
    (he : t.Enclosed t' [external, module]) {n : NodeId}
    (hn : Graph.Reaches t'.size t'.children [t.size] n) :
    n = t.size ∨ n = external ∨ (first ≤ n ∧ n < t.size) := by
  obtain ⟨_, _, _, hexternal⟩ := h.linked
  have hleaf : t.children external = [] := by
    rw [children, hexternal]
    rfl
  have hids : ∀ id ∈ [external, module], first ≤ id ∨ t.children id = [] := by
    simp [hleaf, h.module_le]
  have hclosed : ∀ id, first ≤ id → id < t.size → ∀ c ∈ t.children id,
      c ∈ [external, module] ∨ (first ≤ c ∧ c < t.size) := fun id hlow hhigh c hc =>
    (h.closed id hlow hhigh c hc).imp_left (by rintro rfl; exact List.mem_cons_self)
  rcases he.inside_of_reaches hids hclosed hn with hn | hn | hn
  · exact .inl hn
  · rcases List.mem_cons.mp hn with rfl | hn
    · exact .inr (.inl rfl)
    · obtain rfl := List.mem_singleton.mp hn
      exact .inr (.inr ⟨h.module_le, h.module_lt⟩)
  · exact .inr (.inr hn)

/-- The class is among the classes of the block. -/
theorem mem_classesBelow (h : t.LoadedBehind external module previous first i p)
    (he : t.Enclosed t' [external, module]) : module ∈ t'.classesBelow t.size := by
  have hlast : t.size < t'.size := by
    rw [he.size]
    exact Nat.lt_succ_self _
  obtain ⟨_, _, hdata, -⟩ := (h.prefixInSight he).prefixed
  refine List.mem_filter.mpr ⟨Graph.mem_preorder_iff.mpr ?_, ?_⟩
  · refine .step (.root (List.mem_singleton_self _) hlast) ?_ (Nat.lt_trans h.module_lt hlast)
    rw [he.children_block]
    exact List.mem_cons_of_mem _ (List.mem_singleton_self _)
  · simp [Tree.isClass, class?, hdata, NodeData.class?]

/-- The prefixing class is not among them. -/
theorem notMem_classesBelow (h : t.LoadedBehind external module previous first i p)
    (he : t.Enclosed t' [external, module]) : previous ∉ t'.classesBelow t.size := by
  intro hmem
  rcases h.inside_of_reaches he (Graph.mem_preorder_iff.mp (List.mem_filter.mp hmem).1) with
    rfl | rfl | ⟨hlow, -⟩
  · exact Nat.lt_irrefl _ (Nat.lt_trans h.previous_lt_module h.module_lt)
  · exact h.previous_ne rfl
  · exact Nat.not_lt.mpr hlow h.previous_lt

end Tree.LoadedBehind

namespace Session

/-- The tree that a check leaves behind, whatever it reports. -/
def checkedTree (block : NodeId) (c : Compilation) : Tree := (leaves (check block) c).tree

/-- A check in a session leaves the tree that the check itself leaves. -/
theorem checkedTree_eq (block : NodeId) (c : Compilation) :
    checkedTree block c = (leaves (CheckM.check block) ⟨c.tree, c.session.diagnostics⟩).tree := by
  obtain ⟨s, t⟩ := c
  rw [checkedTree]
  cases hrun : CheckM.check block ⟨t, s.diagnostics⟩ with
  | error e r =>
    have hchecking : checking (CheckM.check block) ⟨s, t⟩ =
        .error e ⟨{ s with diagnostics := r.diagnostics }, r.tree⟩ := by
      simp only [checking, hrun]
    rw [leaves_of_error hrun, check, leaves_of_error (bind_of_error hchecking)]
  | ok a r =>
    have hchecking : checking (CheckM.check block) ⟨s, t⟩ =
        .ok a ⟨{ s with diagnostics := r.diagnostics }, r.tree⟩ := by
      simp only [checking, hrun]
    rw [leaves_of_ok hrun, check, leaves_bind_of_ok hchecking, leaves_bind_of_ok (get_apply _)]
    dsimp only
    split <;> rfl

/-- A loaded class gets its prefix class when it is enclosed and checked, but the prefix gets
none. -/
theorem prefixClass_enclosed {c : Compilation} {external module previous : NodeId} {first : Nat}
    {i p : String} (h : c.tree.LoadedBehind external module previous first i p) :
    ∃ block c', enclose ⟨module, [external]⟩ c = .ok block c' ∧
      (checkedTree block c').prefixClass? module = some previous ∧
      (checkedTree block c').prefixClass? previous = none := by
  obtain ⟨t, henclose, he⟩ := exists_enclose (m := ⟨module, [external]⟩) h.declarable
  refine ⟨_, _, henclose, ?_⟩
  rw [checkedTree_eq]
  exact CheckM.prefixClass_of_external (h.prefixInSight he) (h.mem_classesBelow he)
    (h.notMem_classesBelow he)

end Session

/-- A node of that kind is a class. -/
theorem Tree.isClass_of_kind {t : Tree} {id : NodeId} (h : t.kind id = .classDeclaration) :
    t.isClass id = true := by
  rw [kind] at h
  rw [isClass, class?]
  generalize t.data id = d at h
  cases d with
  | declaration i s f =>
    cases f with
    | classDeclaration c => rfl
    | _ => cases h
  | statement f => cases f <;> cases h
  | expression f ty => cases f <;> cases h
  | _ => cases h

/-- What a class is made of is in its node. -/
theorem Tree.exists_class {t : Tree} {id : NodeId} {parts : ClassParts}
    (h : t.class? id = some parts) :
    ∃ i s, t.data id = .declaration i s (.classDeclaration parts) := by
  rw [class?] at h
  generalize t.data id = d at h
  cases d with
  | declaration i s f =>
    cases f with
    | classDeclaration c =>
      cases h
      exact ⟨i, s, rfl⟩
    | _ => cases h
  | _ => cases h

/-! ## Compiled classes -/

open AttributeFile

/-- A class as a session has it when it emits the file of the class. -/
structure CompiledClass where
  session : Session
  tree : Tree
  module : NodeId
  externals : List NodeId
  entry : String

namespace CompiledClass

/-- The super-class edges in the file of the class. -/
def edges (c : CompiledClass) : List (ClassIdentity × ClassIdentity) :=
  (c.session.registerClasses c.tree c.module).hierarchy.edges

/-- The file of the class has been emitted into a package. -/
structure Stored (c : CompiledClass) (rule : CaseRule) (package : Package) : Prop where
  caseRule : c.tree.caseRule = rule
  isClass : c.tree.isClass c.module = true
  emitted : ∃ bytes, (c.session.emit c.tree c.module c.externals).2 = .ok (c.entry, bytes) ∧
    package.get? c.entry = some bytes
  edges : ∀ e ∈ c.edges, e.1.package ≠ hierarchyEnd

/-- A class is prefixed by another one, which was loaded behind its external declaration. -/
structure PrefixLink (c previous : CompiledClass) (external loaded : NodeId) (i p : String) :
    Prop where
  externals : c.externals = [external]
  linked : ∃ s, c.tree.data external =
    .declaration i s (.external .classDeclaration previous.entry (some loaded))
  isClass : c.tree.isClass loaded = true
  prefixClass : c.tree.prefixClass? c.module = some loaded
  prefixName : (c.tree.class? c.module).bind (·.prefixName) = some p
  named : c.tree.sameIdentifier i p = true
  distinct : ∀ j ∈ c.tree.identifier? c.module, c.tree.sameIdentifier i j = false

/-- A class is prefixed by another one that was compiled before. -/
def PrefixedBy (c previous : CompiledClass) : Prop :=
  ∃ external loaded i p, c.PrefixLink previous external loaded i p

/-- The prefix class, if any, is not in the file of the class. -/
def LosesPrefix (c : CompiledClass) : Prop :=
  ∀ q ∈ c.tree.prefixClass? c.module, q ∈ detached c.tree c.module c.externals

/-- A class without a prefix class has none to lose. -/
theorem losesPrefix_of_none {c : CompiledClass} (h : c.tree.prefixClass? c.module = none) :
    c.LosesPrefix := by
  intro q hq
  rw [h] at hq
  cases hq

/-- The class behind the external declaration is not in the file. -/
theorem PrefixLink.losesPrefix {c previous : CompiledClass} {external loaded : NodeId}
    {i p : String} (h : c.PrefixLink previous external loaded i p) : c.LosesPrefix := by
  intro q hq
  obtain rfl : loaded = q := by
    rw [h.prefixClass] at hq
    exact Option.some.inj hq
  obtain ⟨s, hdata⟩ := h.linked
  refine List.mem_append_right _ (Graph.mem_preorder_iff.mpr
    (.root ?_ (Tree.lt_of_class h.isClass)))
  simp [h.externals, externalModule?, hdata]

/-- What has been read from the file of a stored class is a copy of it. -/
theorem Stored.restored {c : CompiledClass} {rule : CaseRule} {package : Package}
    (h : c.Stored rule package) {loadExternal : NodeId → Loading NodeId}
    (hload : ∀ id, Follows LoadState.Extends (loadExternal id)) {bytes : Bytes}
    {s s' : LoadState} {m : LoadedModule} (hbytes : package.get? c.entry = some bytes)
    (hread : read loadExternal bytes s = .ok m s') (hrule : s.tree.caseRule = rule) :
    ∃ (copy : NodeId → NodeId) (s₁ : LoadState),
      addExternals loadExternal (c.externals.map (storedExternal c.tree))
        { s with hierarchy := s.hierarchy.registerEdges c.edges } =
          .ok (c.externals.map copy) s₁ ∧
      m = ⟨copy c.module, c.externals.map copy⟩ ∧
      Restored c.tree c.module c.externals copy s₁.tree s'.tree ∧
      s' = { s₁ with tree := s'.tree } := by
  obtain ⟨bytes', hemit, hbytes'⟩ := h.emitted
  obtain rfl : bytes' = bytes := Option.some.inj (hbytes'.symm.trans hbytes)
  obtain ⟨base, next, hwrite⟩ := Session.write_of_emit hemit
  exact (restored_of_read hload hwrite h.edges (hrule.trans h.caseRule.symm) hread).2

/-- The copy of a class that loses its prefix has none. -/
theorem LosesPrefix.prefixClass?_copy {c : CompiledClass} (h : c.LosesPrefix)
    {copy : NodeId → NodeId} {before after : Tree}
    (hrestored : Restored c.tree c.module c.externals copy before after) :
    after.prefixClass? (copy c.module) = none := by
  obtain ⟨o, ho, hnode⟩ := hrestored.root
  have hcopied := prefixClass?_of_copied (hrestored.nodes o ho)
  rw [hnode] at hcopied
  rw [hcopied]
  cases hlink : c.tree.prefixClass? c.module with
  | none => rfl
  | some q => exact copiedLink_of_mem (h q hlink) copy

/-- Behind an external declaration with the entry of a class that loses its prefix a session that
has loaded nothing finds a class without a prefix class, and remembers it. -/
theorem Stored.behind_external {previous : CompiledClass} {rule : CaseRule} {package : Package}
    (h : previous.Stored rule package) (hloses : previous.LosesPrefix) {entry i : String}
    {t : Tree} {external : NodeId} {scope l : Option NodeId}
    (hdata : t.data external =
      .declaration i scope (.external .classDeclaration previous.entry l))
    {s s₁ : LoadState} {ids : List NodeId} (hfresh : s.loaded = [])
    (hrule : s.tree.caseRule = rule)
    (hadd : addExternals (Session.externalLoader package entry) [storedExternal t external] s =
      .ok ids s₁) :
    ids = [s.tree.size] ∧ previous.entry ≠ entry ∧ ∃ before : LoadedModule,
      s₁.loaded.lookup previous.entry = some before ∧
      s₁.tree.data s.tree.size = .declaration i none
        (.external .classDeclaration previous.entry (some before.module)) ∧
      s₁.tree.isClass before.module = true ∧ s₁.tree.prefixClass? before.module = none := by
  obtain ⟨rfl, module, ls, hload, rfl⟩ := addExternals_singleton_eq_ok.mp hadd
  have hstored : (s.tree.push (storedExternal t external)).data s.tree.size =
      .declaration i none (.external .classDeclaration previous.entry none) := by
    rw [Tree.data_push, if_pos rfl]
    simp [storedExternal, hdata]
  obtain ⟨m, hwithin, hkind, rfl⟩ := Session.loadExternal_eq_ok hstored hload
  obtain ⟨hin, d, bytes, s₂, hbytes, hread, rfl⟩ :=
    Session.loadWithin_eq_ok (by rw [hfresh]; rfl) hwithin
  have hfollows : ∀ id, Follows LoadState.Extends
      (Session.loadExternal (Session.loadWithin package.library d [previous.entry, entry]) id) :=
    Session.loadExternal_follows fun _ => Session.loadWithin_follows _ _ _ _
  obtain ⟨copy, s₃, -, rfl, hrestored, -⟩ :=
    h.restored hfollows (Session.get?_of_read hbytes) hread hrule
  have hgrown : (s.tree.push (storedExternal t external)).Extends s₂.tree :=
    (read_follows hfollows bytes).of_ok hread
  have hlt : s.tree.size < (s.tree.push (storedExternal t external)).size := by simp
  have hexternal : s₂.tree.data s.tree.size =
      .declaration i none (.external .classDeclaration previous.entry none) :=
    (hgrown.data_eq hlt).trans hstored
  have hkind : s₂.tree.kind (copy previous.module) = .classDeclaration := hkind
  have hne : copy previous.module ≠ s.tree.size := by
    intro heq
    rw [heq, Tree.kind, hexternal] at hkind
    cases hkind
  refine ⟨rfl, by simpa using hin, _, List.lookup_cons_self, ?_, ?_, ?_⟩
  · rw [Tree.data_update_self _ (Nat.lt_of_lt_of_le hlt hgrown.size_le), hexternal]
    rfl
  · rw [Tree.isClass, Tree.class?, Tree.data_update_of_ne _ hne]
    exact Tree.isClass_of_kind hkind
  · rw [Tree.prefixClass?, Tree.class?, Tree.data_update_of_ne _ hne]
    exact hloses.prefixClass?_copy hrestored

/-- The copy of a class has its identifier and the name of its prefix. -/
theorem Stored.exists_copy {c : CompiledClass} {rule : CaseRule} {package : Package}
    (h : c.Stored rule package) {copy : NodeId → NodeId} {before after : Tree}
    (hrestored : Restored c.tree c.module c.externals copy before after) :
    ∃ j s parts, c.tree.identifier? c.module = some j ∧
      after.data (copy c.module) = .declaration j s (.classDeclaration parts) ∧
      parts.prefixName = (c.tree.class? c.module).bind (·.prefixName) := by
  obtain ⟨o, ho, hnode⟩ := hrestored.root
  have hcopied := Tree.data_of_node (hrestored.nodes o ho)
  rw [hnode, Tree.copiedNode] at hcopied
  obtain ⟨parts, hparts⟩ := Option.isSome_iff_exists.mp h.isClass
  obtain ⟨j, s, hdata⟩ := Tree.exists_class hparts
  rw [hdata] at hcopied
  refine ⟨j, _, _, ?_, hcopied, ?_⟩
  · rw [Tree.identifier?, hdata]
    rfl
  · rw [hparts]
    rfl

/-- A class that is prefixed by a class that loses its prefix is loaded behind that class. -/
theorem PrefixLink.loadedBehind {last previous : CompiledClass} {external loaded : NodeId}
    {i p : String} {rule : CaseRule} {package : Package}
    (hlink : last.PrefixLink previous external loaded i p) (hlast : last.Stored rule package)
    (hprevious : previous.Stored rule package) (hloses : previous.LosesPrefix)
    {s : Session} {t : Tree} {m : LoadedModule} {c : Compilation} (hfresh : s.loaded = [])
    (hrule : t.caseRule = rule)
    (hload : Session.load package.library last.entry ⟨s, t⟩ = .ok m c) :
    ∃ external' before first, m.externals = [external'] ∧
      c.session.loaded.lookup previous.entry = some before ∧
      c.tree.LoadedBehind external' m.module before.module first i p := by
  obtain ⟨bytes, -, hbytes⟩ := hlast.emitted
  obtain ⟨s', hread, rfl⟩ := (Session.load_eq_ok hbytes hfresh).mp hload
  have hfollows : ∀ id, Follows LoadState.Extends (Session.externalLoader package last.entry id) :=
    Session.loadExternal_follows fun _ => Session.loadWithin_follows _ _ _ _
  obtain ⟨copy, s₁, hadd, rfl, hrestored, hother⟩ := hlast.restored hfollows hbytes hread hrule
  obtain ⟨scope, hdata⟩ := hlink.linked
  rw [hlink.externals] at hadd
  obtain ⟨hids, hne, before, hlookup, hexternal, hclass, hroot⟩ :=
    hprevious.behind_external hloses hdata rfl hrule hadd
  obtain ⟨o, ho, hnode⟩ := hrestored.root
  have hbounds := hrestored.copy_bounds ho
  rw [hnode] at hbounds
  have hgrown : t.Extends s'.tree := (read_follows hfollows bytes).of_ok hread
  have hsame : ∀ a b, s'.tree.sameIdentifier a b = last.tree.sameIdentifier a b := by
    intro a b
    rw [Tree.sameIdentifier, hgrown.caseRule, hrule, ← hlast.caseRule]
    rfl
  have hcopy : copy external = t.size := (List.cons.inj hids).1
  have hexternal_lt : t.size < s₁.tree.size := Tree.lt_of_data (by simp [hexternal])
  have hprevious_lt : before.module < s₁.tree.size := Tree.lt_of_class hclass
  have hkept := hrestored.grown.data_eq hprevious_lt
  refine ⟨t.size, before, s₁.tree.size, ?_, ?_, ?_⟩
  · rw [hlink.externals, List.map_singleton, hcopy]
  · have hloaded : s'.loaded = s₁.loaded := by rw [hother]
    rw [List.lookup_cons, beq_eq_false_iff_ne.mpr hne, hloaded]
    exact hlookup
  · obtain ⟨j, s, parts, hj, hmodule, hname⟩ := hlast.exists_copy hrestored
    refine ⟨⟨_, _, _, (hrestored.grown.data_eq hexternal_lt).trans hexternal⟩,
      ⟨j, s, parts, hmodule, hname.trans hlink.prefixName, ?_, ?_⟩, ?_, ?_, ?_, hexternal_lt,
      hprevious_lt, hbounds.1, ?_⟩
    · have hnone := hlink.losesPrefix.prefixClass?_copy hrestored
      rw [Tree.prefixClass?, Tree.class?, hmodule] at hnone
      exact hnone
    · exact (hsame i j).trans (hlink.distinct j hj)
    · exact (hsame i p).trans hlink.named
    · rw [Tree.isClass, Tree.class?, hkept]
      exact hclass
    · rw [Tree.prefixClass?, Tree.class?, hkept]
      exact hroot
    · intro id hlow hhigh x hx
      refine (hrestored.children hlow hhigh hx).imp_left fun hmem => ?_
      rw [hlink.externals, List.map_singleton, hcopy] at hmem
      exact List.mem_singleton.mp hmem

/-- A stored class can be loaded if its records can be read where they stand and its external
declarations can be added. -/
theorem Stored.exists_loadWithin {c : CompiledClass} {rule : CaseRule} {package : Package}
    (h : c.Stored rule package) (hrestorable : Restorable c.tree c.module c.externals)
    {depth : Nat} {inProgress : List String} {s : LoadState} (hrule : s.tree.caseRule = rule)
    (hin : c.entry ∉ inProgress) (hnew : s.loaded.lookup c.entry = none)
    (hadd : ∃ ids s₁, addExternals
      (Session.loadExternal (Session.loadWithin package.library depth (c.entry :: inProgress)))
      (c.externals.map (storedExternal c.tree))
      { s with hierarchy := s.hierarchy.registerEdges c.edges } = .ok ids s₁) :
    ∃ m s', Session.loadWithin package.library (depth + 1) inProgress c.entry s = .ok m s' ∧
      s'.tree.kind m.module = .classDeclaration := by
  obtain ⟨ids, s₁, hadd⟩ := hadd
  obtain ⟨bytes, hemit, hbytes⟩ := h.emitted
  obtain ⟨base, next, hwrite⟩ := Session.write_of_emit hemit
  have hfollows : ∀ id, Follows LoadState.Extends (Session.loadExternal
      (Session.loadWithin package.library depth (c.entry :: inProgress)) id) :=
    Session.loadExternal_follows fun _ => Session.loadWithin_follows _ _ _ _
  obtain ⟨copy, s', hread, -, hrestored, -⟩ :=
    (read_written hfollows hwrite h.edges (hrule.trans h.caseRule.symm)).1 hrestorable hadd
  have hread' : package.library.read c.entry = .ok bytes := by
    change package.read c.entry = _
    rw [Package.read, hbytes]
  refine ⟨_, _, Session.loadWithin_of_read hnew hin hread' hread, ?_⟩
  obtain ⟨j, scope, parts, -, hdata, -⟩ := h.exists_copy hrestored
  rw [Tree.kind, hdata]
  rfl

/-- Classes that were compiled one after the other, the last one first: each is prefixed by the one
before, and the first one has no prefix. -/
structure Chain (rule : CaseRule) (package : Package) (chain : List CompiledClass) : Prop where
  stored : ∀ c ∈ chain, c.Stored rule package
  prefixed : chain.IsChain PrefixedBy
  root : ∀ c ∈ chain.getLast?, c.tree.prefixClass? c.module = none ∧ c.externals = []
  distinct : (chain.map (·.entry)).Nodup

namespace Chain

variable {rule : CaseRule} {package : Package} {c : CompiledClass} {rest : List CompiledClass}

/-- The classes before the last one are a chain, too. -/
theorem tail {previous : CompiledClass} (h : Chain rule package (c :: previous :: rest)) :
    Chain rule package (previous :: rest) where
  stored c' hc' := h.stored c' (List.mem_cons_of_mem _ hc')
  prefixed := (List.isChain_cons_cons.mp h.prefixed).2
  root := h.root
  distinct := (List.nodup_cons.mp h.distinct).2

/-- A class of a chain loses its prefix. -/
theorem losesPrefix (h : Chain rule package (c :: rest)) : c.LosesPrefix := by
  cases rest with
  | nil => exact losesPrefix_of_none (h.root c rfl).1
  | cons previous rest =>
    obtain ⟨external, loaded, i, p, hlink⟩ := (List.isChain_cons_cons.mp h.prefixed).1
    exact hlink.losesPrefix

/-- A class of a chain can be loaded if the records of all classes up to the first can be read where
they stand. -/
theorem exists_loadWithin (h : Chain rule package (c :: rest))
    (hrestorable : ∀ c' ∈ c :: rest, Restorable c'.tree c'.module c'.externals)
    {depth : Nat} {inProgress : List String} {s : LoadState} (hrule : s.tree.caseRule = rule)
    (hdepth : rest.length < depth) (hin : ∀ c' ∈ c :: rest, c'.entry ∉ inProgress)
    (hnew : ∀ c' ∈ c :: rest, s.loaded.lookup c'.entry = none) :
    ∃ m s', Session.loadWithin package.library depth inProgress c.entry s = .ok m s' ∧
      s'.tree.kind m.module = .classDeclaration := by
  -- Each class is read inside the file of the next one, into a tree that has only grown.
  induction rest generalizing c depth inProgress s with
  | nil =>
    obtain ⟨d, rfl⟩ := Nat.exists_eq_add_of_lt hdepth
    refine (h.stored c List.mem_cons_self).exists_loadWithin (hrestorable c List.mem_cons_self)
      hrule (hin c List.mem_cons_self) (hnew c List.mem_cons_self) ?_
    rw [(h.root c rfl).2]
    exact ⟨_, _, rfl⟩
  | cons previous rest ih =>
    obtain ⟨d, rfl⟩ := Nat.exists_eq_add_of_lt hdepth
    obtain ⟨external, loaded, i, p, hlink⟩ := (List.isChain_cons_cons.mp h.prefixed).1
    obtain ⟨scope, hdata⟩ := hlink.linked
    have hnotin : ∀ c' ∈ previous :: rest, c'.entry ∉ c.entry :: inProgress := by
      intro c' hc' hmem
      rcases List.mem_cons.mp hmem with heq | hmem
      · have hmem : c'.entry ∈ (previous :: rest).map (·.entry) := List.mem_map_of_mem hc'
        rw [heq] at hmem
        exact (List.nodup_cons.mp h.distinct).1 hmem
      · exact hin c' (List.mem_cons_of_mem _ hc') hmem
    obtain ⟨m, ls, hload, hkind⟩ := ih h.tail
      (fun c' hc' => hrestorable c' (List.mem_cons_of_mem _ hc'))
      (s := { s with
        tree := s.tree.push (storedExternal c.tree external)
        hierarchy := s.hierarchy.registerEdges c.edges })
      hrule (Nat.lt_of_lt_of_le (Nat.lt_succ_self _) (Nat.le_add_right _ d)) hnotin
      (fun c' hc' => hnew c' (List.mem_cons_of_mem _ hc'))
    have hstored : (s.tree.push (storedExternal c.tree external)).data s.tree.size =
        .declaration i none (.external (ls.tree.kind m.module) previous.entry none) := by
      rw [Tree.data_push, if_pos rfl, hkind]
      simp [storedExternal, hdata]
    refine (h.stored c List.mem_cons_self).exists_loadWithin (hrestorable c List.mem_cons_self)
      hrule (hin c List.mem_cons_self) (hnew c List.mem_cons_self) ?_
    rw [hlink.externals]
    exact ⟨_, _, addExternals_singleton_eq_ok.mpr
      ⟨rfl, _, _, Session.loadExternal_of_ok hload hstored, rfl⟩⟩

/-- A package that holds the files of a chain has as many entries. -/
theorem length_le_size {chain : List CompiledClass} (h : Chain rule package chain) :
    chain.length ≤ package.size := by
  have hsub : chain.map (·.entry) ⊆ package.entries.map (·.1) := by
    intro entry hentry
    obtain ⟨c, hc, rfl⟩ := List.mem_map.mp hentry
    obtain ⟨bytes, -, hbytes⟩ := (h.stored c hc).emitted
    have hfind : package.find? c.entry = some (some bytes) := Option.join_eq_some_iff.mp hbytes
    exact List.mem_map_of_mem (mem_of_lookup hfind)
  have hle := (List.subperm_of_subset h.distinct hsub).length_le
  rw [List.length_map, List.length_map] at hle
  exact hle

/-- The last class of a chain can be loaded by a session that has loaded nothing if the records of
all classes can be read where they stand. -/
theorem exists_load (h : Chain rule package (c :: rest))
    (hrestorable : ∀ c' ∈ c :: rest, Restorable c'.tree c'.module c'.externals) {s : Session}
    {t : Tree} (hfresh : s.loaded = []) (hrule : t.caseRule = rule) :
    ∃ m c', Session.load package.library c.entry ⟨s, t⟩ = .ok m c' := by
  obtain ⟨m, s', hload, -⟩ := h.exists_loadWithin hrestorable
    (s := ⟨t, s.hierarchy, s.loaded⟩) hrule h.length_le_size (fun _ _ => List.not_mem_nil)
    (fun c' _ => by rw [hfresh]; rfl)
  exact ⟨m, _, Session.loading_eq_ok.mpr ⟨s', hload, rfl⟩⟩

end Chain

end CompiledClass

/-- **Prefix chains across separate compilation.** The last of some classes that were compiled one
after the other can be loaded by a session that has loaded nothing if all records in their files can
be read where they stand. Once it is loaded, enclosed and checked, its prefix chain is the class
itself and the one before it. So it is a subclass of no other class, an attribute that is found from
inside it is one of these two classes', and the chain is complete only if there are no further
classes. -/
theorem Session.prefixChain_loaded {rule : CaseRule} {package : Package}
    {last previous : CompiledClass} {rest : List CompiledClass}
    (hchain : CompiledClass.Chain rule package (last :: previous :: rest)) {s : Session} {t : Tree}
    (hfresh : s.loaded = []) (hrule : t.caseRule = rule) :
    ((∀ c ∈ last :: previous :: rest, Restorable c.tree c.module c.externals) →
      ∃ m c, load package.library last.entry ⟨s, t⟩ = .ok m c) ∧
    ∀ m c, load package.library last.entry ⟨s, t⟩ = .ok m c →
      ∃ block c' before, enclose m c = .ok block c' ∧
        c.session.loaded.lookup previous.entry = some before ∧
        (checkedTree block c').prefixChain m.module = [m.module, before.module] ∧
        (∀ d, (checkedTree block c').isSubclass m.module d = true ↔ d = before.module) ∧
        (∀ x, (checkedTree block c').hiddenSpec? before.module x = none →
          (checkedTree block c').findAttribute m.module x false =
            (((checkedTree block c').lookupLocal m.module x).map fun d =>
              ⟨d, m.module, false⟩).or
            (((checkedTree block c').lookupLocal before.module x).map fun d =>
              ⟨d, before.module, false⟩)) ∧
        (((checkedTree block c').prefixChain m.module).length = (last :: previous :: rest).length ↔
          rest = []) := by
  refine ⟨fun hrestorable => hchain.exists_load hrestorable hfresh hrule, fun m c hload => ?_⟩
  obtain ⟨external, loaded, i, p, hlink⟩ := (List.isChain_cons_cons.mp hchain.prefixed).1
  obtain ⟨external', before, first, hexternals, hlookup, hbehind⟩ :=
    hlink.loadedBehind (hchain.stored last List.mem_cons_self)
      (hchain.stored previous (List.mem_cons_of_mem _ List.mem_cons_self)) hchain.tail.losesPrefix
      hfresh hrule hload
  obtain ⟨block, c', henclose, hmodule, hprevious⟩ := prefixClass_enclosed hbehind
  rw [← hexternals] at henclose
  refine ⟨block, c', before, henclose, hlookup, Tree.prefixChain_of_pair hmodule hprevious,
    Tree.isSubclass_of_pair hmodule hprevious,
    fun _ => Tree.findAttribute_of_pair hmodule hprevious, ?_⟩
  rw [Tree.prefixChain_of_pair hmodule hprevious]
  simp

/-- A class `C1` with an attribute. -/
def firstClass : CompiledClass where
  session := {}
  tree := { nodes := #[
    ⟨1, .declaration "MAIN" none (.block
      { declarations := ⟨#[("C1", 1)]⟩, labels := { accumulated := some #[], ready := true } })⟩,
    ⟨1, .declaration "C1" (some 0) (.classDeclaration { body :=
      { declarations := ⟨#[("X", 2)]⟩, labels := { accumulated := some #[], ready := true } } })⟩,
    ⟨1, .declaration "X" (some 1) (.simpleVariable .integer none)⟩] }
  module := 1
  externals := []
  entry := "simula/user/C1.atr"

/-- A class `C2` that is prefixed by `C1`, which has been loaded. -/
def secondClass : CompiledClass where
  session := ({} : Session).registerEdge ⟨"simula/user", "C1"⟩ .runtimeClass
  tree := { nodes := #[
    ⟨1, .declaration "C1" none (.classDeclaration { body :=
      { declarations := ⟨#[("X", 1)]⟩, labels := { ready := true } } })⟩,
    ⟨1, .declaration "X" (some 0) (.simpleVariable .integer none)⟩,
    ⟨1, .declaration "MAIN" none (.block
      { declarations := ⟨#[("C1", 3), ("C2", 4)]⟩
        labels := { accumulated := some #[], ready := true } })⟩,
    ⟨1, .declaration "C1" (some 2)
      (.external .classDeclaration "simula/user/C1.atr" (some 0))⟩,
    ⟨1, .declaration "C2" (some 2) (.classDeclaration
      { prefixName := some "C1", prefixClass := some 0,
        body := { labels := { accumulated := some #[], ready := true } } })⟩] }
  module := 4
  externals := [3]
  entry := "simula/user/C2.atr"

/-- A class `C3` that is prefixed by `C2`, which has been loaded behind `C1`. -/
def thirdClass : CompiledClass where
  session := (({} : Session).registerEdge ⟨"simula/user", "C1"⟩ .runtimeClass).registerEdge
    ⟨"simula/user", "C2"⟩ ⟨"simula/user", "C1"⟩
  tree := { nodes := #[
    ⟨1, .declaration "C1" none (.external .classDeclaration "simula/user/C1.atr" (some 1))⟩,
    ⟨1, .declaration "C1" none (.classDeclaration { body :=
      { declarations := ⟨#[("X", 2)]⟩, labels := { ready := true } } })⟩,
    ⟨1, .declaration "X" (some 1) (.simpleVariable .integer none)⟩,
    ⟨1, .declaration "C2" none (.classDeclaration
      { prefixName := some "C1", body := { labels := { ready := true } } })⟩,
    ⟨1, .declaration "MAIN" none (.block
      { declarations := ⟨#[("C2", 5), ("C3", 6)]⟩
        labels := { accumulated := some #[], ready := true } })⟩,
    ⟨1, .declaration "C2" (some 4)
      (.external .classDeclaration "simula/user/C2.atr" (some 3))⟩,
    ⟨1, .declaration "C3" (some 4) (.classDeclaration
      { prefixName := some "C2", prefixClass := some 3,
        body := { labels := { accumulated := some #[], ready := true } } })⟩] }
  module := 6
  externals := [5]
  entry := "simula/user/C3.atr"

/-- A class that passes the check of its block and whose file can be emitted and read. -/
structure CompiledClass.Clean (c : CompiledClass) (block : NodeId) : Prop where
  checked : ∃ c', Session.check block ⟨c.session, c.tree⟩ = .ok () c' ∧ c'.tree = c.tree
  emitted : ∃ bytes, (c.session.emit c.tree c.module c.externals).2 = .ok (c.entry, bytes)
  edges : ∀ e ∈ c.edges, e.1.package ≠ hierarchyEnd
  restorable : Restorable c.tree c.module c.externals

/-- A class is clean if it passes the check and its records can be written and read, with what its
file leaves out and the edges in it. -/
theorem CompiledClass.clean_of_writable {c : CompiledClass} {block : NodeId}
    {classes order left : List NodeId} {edges : List (ClassIdentity × ClassIdentity)}
    (hclasses : c.tree.classesBelow block = classes)
    (horder : c.tree.registrationOrder c.module = order)
    (hdetached : detached c.tree c.module c.externals = left)
    (hedges : (c.session.hierarchy.registerEdges
      (order.filterMap (c.session.edge? c.tree c.module))).edges = edges)
    (hcheck : succeedsWith (CheckM.checkScope (nestingLimit c.tree.size) block)
      ((((⟨c.tree, c.session.diagnostics⟩ : CheckState)
        |>.forClasses CheckState.resolvePrefix classes)
        |>.forClasses CheckState.cutPrefixCycle classes)
        |>.forClasses CheckState.pairSpecifications classes)
      (fun _ r => r.tree = c.tree ∧ r.diagnostics.errorCount = 0) = true)
    (hkind : (c.tree.kind c.module).isModule = true)
    (hentry : attributeEntry c.session.options.package
      ((c.tree.identifier? c.module).getD "") = c.entry)
    (hwrite : succeedsWith (do
        Writer.emit (Encoder.string (some version))
        Writer.emit (writeEdges edges)
        writeExternals c.tree left c.externals
        Writer.object c.tree left (some c.module))
      { next := c.session.options.sequenceBase } (fun _ _ => true) = true)
    (hend : ∀ e ∈ edges, e.1.package ≠ hierarchyEnd) (hnodup : c.externals.Nodup)
    (hattached : ∀ id ∈ c.externals ++ [c.module], id ∉ left)
    (hreadable : ∀ o ∈ c.tree.openings left ((c.externals ++ [c.module]).map some),
      o.Readable c.tree left) : c.Clean block := by
  have hrecorded : c.edges = edges := by
    rw [CompiledClass.edges, Session.registerClasses_eq, horder]
    exact hedges
  subst hdetached
  obtain ⟨_, r, hrun, htest⟩ := exists_of_succeedsWith hcheck
  obtain ⟨htree, herrors⟩ := of_decide_eq_true htest
  have hchecked := Session.check_eq_ok.mpr
    ⟨r, CheckM.check_of_classesBelow hclasses hrun, herrors, rfl⟩
  rw [← hrecorded] at hwrite hend
  obtain ⟨_, w, hwritten, -⟩ := exists_of_succeedsWith hwrite
  refine ⟨⟨_, hchecked, htree⟩, ⟨w.out.toList, ?_⟩, hend, ⟨hnodup, hattached, hreadable⟩⟩
  rw [← hentry]
  exact Session.emit_of_writeAll hkind hwritten

/-- The first class can be compiled. -/
theorem firstClass_clean : firstClass.Clean 0 := by
  have hclasses : firstClass.tree.classesBelow 0 = [1] := by
    rw [Tree.classesBelow, Graph.preorder_of_within 20 rfl]
    rfl
  have horder : firstClass.tree.registrationOrder firstClass.module = [1, 2] :=
    Graph.preorder_of_within 20 rfl
  have hdetached : detached firstClass.tree firstClass.module firstClass.externals = [0] := by
    rw [detached, externalGraph, Graph.preorder_of_within 20 rfl]
    rfl
  apply CompiledClass.clean_of_writable hclasses horder hdetached rfl ?_ rfl rfl <;>
    decide +kernel

/-- The second class can be compiled behind the first. -/
theorem secondClass_clean : secondClass.Clean 2 := by
  have hclasses : secondClass.tree.classesBelow 2 = [4] := by
    rw [Tree.classesBelow, Graph.preorder_of_within 20 rfl]
    rfl
  have horder : secondClass.tree.registrationOrder secondClass.module = [4] :=
    Graph.preorder_of_within 20 rfl
  have hdetached : detached secondClass.tree secondClass.module secondClass.externals =
      [2, 2, 0, 1] := by
    rw [detached, externalGraph, Graph.preorder_of_within 20 rfl]
    rfl
  apply CompiledClass.clean_of_writable hclasses horder hdetached rfl ?_ rfl rfl <;>
    decide +kernel

/-- The third class can be compiled behind the second. -/
theorem thirdClass_clean : thirdClass.Clean 4 := by
  have hclasses : thirdClass.tree.classesBelow 4 = [6] := by
    rw [Tree.classesBelow, Graph.preorder_of_within 20 rfl]
    rfl
  have horder : thirdClass.tree.registrationOrder thirdClass.module = [6] :=
    Graph.preorder_of_within 20 rfl
  have hdetached : detached thirdClass.tree thirdClass.module thirdClass.externals =
      [4, 4, 3] := by
    rw [detached, externalGraph, Graph.preorder_of_within 20 rfl]
    rfl
  apply CompiledClass.clean_of_writable hclasses horder hdetached rfl ?_ rfl rfl <;>
    decide +kernel

/-- A package with the files of the three classes. -/
def threeFiles (first second third : Bytes) : Package :=
  ((Package.stage .empty firstClass.entry (some first)).stage secondClass.entry
    (some second)).stage thirdClass.entry (some third)

/-- The package has the file of each class under its entry. -/
theorem get?_threeFiles (first second third : Bytes) :
    (threeFiles first second third).get? firstClass.entry = some first ∧
    (threeFiles first second third).get? secondClass.entry = some second ∧
    (threeFiles first second third).get? thirdClass.entry = some third := by
  refine ⟨?_, ?_, ?_⟩
  · rw [threeFiles, Session.get?_stage, if_neg (by decide), Session.get?_stage,
      if_neg (by decide), Session.get?_stage, if_pos rfl]
  · rw [threeFiles, Session.get?_stage, if_neg (by decide), Session.get?_stage, if_pos rfl]
  · rw [threeFiles, Session.get?_stage, if_pos rfl]

/-- Of three classes the loaded last one has only two in its prefix chain, although each was
compiled without an error. -/
theorem Session.prefixChain_loaded_threeClasses :
    (firstClass.Clean 0 ∧ secondClass.Clean 2 ∧ thirdClass.Clean 4) ∧
    ∃ package, CompiledClass.Chain .insensitive package [thirdClass, secondClass, firstClass] ∧
      ∃ m c block c', load package.library thirdClass.entry ⟨{}, {}⟩ = .ok m c ∧
        enclose m c = .ok block c' ∧
        ((checkedTree block c').prefixChain m.module).length = 2 := by
  refine ⟨⟨firstClass_clean, secondClass_clean, thirdClass_clean⟩, ?_⟩
  obtain ⟨first, hfirst⟩ := firstClass_clean.emitted
  obtain ⟨second, hsecond⟩ := secondClass_clean.emitted
  obtain ⟨third, hthird⟩ := thirdClass_clean.emitted
  obtain ⟨hget₁, hget₂, hget₃⟩ := get?_threeFiles first second third
  have hchain : CompiledClass.Chain .insensitive (threeFiles first second third)
      [thirdClass, secondClass, firstClass] := by
    refine ⟨?_, ?_, ?_, by decide⟩
    · simp only [List.forall_mem_cons, List.not_mem_nil, false_imp_iff, implies_true, and_true]
      exact ⟨⟨rfl, rfl, ⟨third, hthird, hget₃⟩, thirdClass_clean.edges⟩,
        ⟨rfl, rfl, ⟨second, hsecond, hget₂⟩, secondClass_clean.edges⟩,
        ⟨rfl, rfl, ⟨first, hfirst, hget₁⟩, firstClass_clean.edges⟩⟩
    · refine .cons_cons ⟨5, 3, "C2", "C2", rfl, ⟨_, rfl⟩, rfl, rfl, rfl, by decide, ?_⟩
        (.cons_cons ⟨3, 0, "C1", "C1", rfl, ⟨_, rfl⟩, rfl, rfl, rfl, by decide, ?_⟩
          (.singleton _))
      all_goals
        rintro _ ⟨⟩
        decide
    · rintro _ ⟨⟩
      exact ⟨rfl, rfl⟩
  obtain ⟨hloads, hloaded⟩ := prefixChain_loaded hchain (s := {}) (t := {}) rfl rfl
  obtain ⟨m, c, hload⟩ := hloads (by
    simpa using ⟨thirdClass_clean.restorable, secondClass_clean.restorable,
      firstClass_clean.restorable⟩)
  obtain ⟨block, c', before, henclose, -, hpair, -⟩ := hloaded m c hload
  exact ⟨_, hchain, m, c, block, c', hload, henclose, by rw [hpair]; rfl⟩

end Simula
