import Simula.Proofs.Session.CheckedCopies
import Simula.Proofs.Session.Loading

/-!
# Separate compilation

A module that one session has compiled is loaded by another. Whether it can be loaded depends on
the order in which its records were opened: a scope whose declarations include a class that is
itself still being read is refused. The links that a check adds between hidden and protected
specifications can lead into such a scope, so a module that was checked without errors may be
lost; where it is not, all its links are found again.
-/

namespace Simula

/-! ## The links of a copy -/

/-- The class whose attributes a branch of an inspect statement makes visible. -/
def Tree.connectedClass? (t : Tree) (id : NodeId) : Option NodeId :=
  match t.data id with
  | .connection c => c.classDeclaration
  | _ => none

section

variable {t t' : Tree} {detached : List NodeId} {copy : NodeId → NodeId} {id : NodeId}

/-- A copied hidden specification has the copy of its protected one. -/
theorem protectedBy?_of_copied (h : t'.nodes[copy id]? = some (t.copiedNode detached copy id)) :
    t'.protectedBy? (copy id) = copiedLink detached copy (t.protectedBy? id) := by
  rw [Tree.protectedBy?, Tree.data_of_node h]
  exact NodeData.protectedBy?_relabel t detached copy (t.data id)

/-- A copied branch of an inspect statement has the copy of its class. -/
theorem connectedClass?_of_copied (h : t'.nodes[copy id]? = some (t.copiedNode detached copy id)) :
    t'.connectedClass? (copy id) = copiedLink detached copy (t.connectedClass? id) := by
  rw [Tree.connectedClass?, Tree.data_of_node h, Tree.copiedNode, Tree.connectedClass?]
  generalize t.data id = d
  cases d <;> rfl

end

namespace Session

open AttributeFile

/-- What a session starts from that loads a module into a new tree, once the edges in the header of
the file are recorded. -/
def beforeExternals (s : Session) (edges : List (ClassIdentity × ClassIdentity)) : LoadState where
  tree := s.newTree
  hierarchy := ClassHierarchy.empty.registerEdges edges

/-- **Separate compilation.** A module that a session has emitted into a package can be loaded by a
fresh session exactly if its records can be read where they stand and its external declarations can
be added again, with the modules behind them. The module is then copied node by node behind its
external declarations, and each prefix class, each protected specification and each connected class
is the copy of what it was, unless that was left out of the file. It can be enclosed if its
identifier differs from those of its external declarations, which differ from each other. A check of
the block that reports no error leaves each prefix class as it is; and if the pairs in the module
were the right ones, it finds each of them again, while connected classes are looked up anew. -/
theorem load_emitted {s : Session} {t : Tree} {module : NodeId} {externals : List NodeId}
    {package : Package} {entry : String} {bytes : Bytes}
    (hemit : (s.emit t module externals).2 = .ok (entry, bytes))
    (hstored : package.get? entry = some bytes)
    (hend : ∀ e ∈ (s.registerClasses t module).hierarchy.edges, e.1.package ≠ hierarchyEnd)
    (hrule : t.caseRule = s.options.caseRule) :
    ((∃ m c, load package.library entry ⟨s.reset, s.newTree⟩ = .ok m c) ↔
      Restorable t module externals ∧ ∃ ids s₁,
        addExternals (externalLoader package entry) (externals.map (storedExternal t))
          (s.beforeExternals (s.registerClasses t module).hierarchy.edges) = .ok ids s₁) ∧
    ∀ m c, load package.library entry ⟨s.reset, s.newTree⟩ = .ok m c →
      ∃ (copy : NodeId → NodeId) (s₁ : LoadState),
        addExternals (externalLoader package entry) (externals.map (storedExternal t))
          (s.beforeExternals (s.registerClasses t module).hierarchy.edges) =
            .ok (externals.map copy) s₁ ∧
        m = ⟨copy module, externals.map copy⟩ ∧
        Restored t module externals copy s₁.tree c.tree ∧
        (∀ o ∈ moduleOpenings t module externals,
          c.tree.prefixClass? (copy o.node) =
            copiedLink (detached t module externals) copy (t.prefixClass? o.node) ∧
          c.tree.protectedBy? (copy o.node) =
            copiedLink (detached t module externals) copy (t.protectedBy? o.node) ∧
          c.tree.connectedClass? (copy o.node) =
            copiedLink (detached t module externals) copy (t.connectedClass? o.node)) ∧
        (t.Declarable [] (externals ++ [module]) → ∃ t₁,
          enclose m c = .ok c.tree.size ⟨c.session, t₁⟩ ∧
          ∀ c', check c.tree.size ⟨c.session, t₁⟩ = .ok () c' →
            (∀ o ∈ moduleOpenings t module externals, ∀ p ∉ detached t module externals,
              t.prefixClass? o.node = some p →
                c'.tree.prefixClass? (copy o.node) = some (copy p)) ∧
            (t.ListedInScope → t.PairsRecorded →
              (∀ id ∈ externals ++ [module], ∀ scope ∈ t.declaredIn? id,
                t.isClass scope = false) →
              ∀ o ∈ moduleOpenings t module externals, ∀ p ∉ detached t module externals,
                t.protectedBy? o.node = some p →
                  c'.tree.protectedBy? (copy o.node) = some (copy p))) := by
  obtain ⟨base, next, hwrite⟩ := write_of_emit hemit
  have hload : ∀ id, Follows LoadState.Extends (externalLoader package entry id) :=
    loadExternal_follows fun _ => loadWithin_follows _ _ _ _
  obtain ⟨hok, hback⟩ := read_written hload hwrite hend
    (s := ⟨s.newTree, ClassHierarchy.empty, []⟩) hrule.symm
  refine ⟨⟨?_, ?_⟩, ?_⟩
  · rintro ⟨m, c, h⟩
    obtain ⟨s₁, hread, -⟩ := (load_eq_ok hstored rfl).mp h
    exact hback hread
  · rintro ⟨hrestorable, ids, s₁, hadd⟩
    obtain ⟨copy, s', hread, -⟩ := hok hrestorable hadd
    exact ⟨_, _, (load_eq_ok hstored rfl).mpr ⟨s', hread, rfl⟩⟩
  · intro m c h
    obtain ⟨s', hread, rfl⟩ := (load_eq_ok hstored rfl).mp h
    obtain ⟨-, copy, s₁, hadd, rfl, hrestored, -⟩ :=
      restored_of_read hload hwrite hend hrule.symm hread
    refine ⟨copy, s₁, hadd, rfl, hrestored, fun o ho =>
      ⟨prefixClass?_of_copied (hrestored.nodes o ho), protectedBy?_of_copied (hrestored.nodes o ho),
        connectedClass?_of_copied (hrestored.nodes o ho)⟩, fun hdeclarable => ?_⟩
    have hrule' : s'.tree.caseRule = t.caseRule :=
      ((read_follows hload bytes).of_ok hread).caseRule.trans hrule.symm
    obtain ⟨t₁, henclose, hreopened⟩ := hrestored.exists_reopened hrule' (kinds_of_write hwrite)
      (fun e he => external_of_addExternals hload hadd he) hdeclarable _
    refine ⟨t₁, henclose, fun c' hc' => ?_⟩
    obtain ⟨r, hcheck, herrors, rfl⟩ := check_eq_ok.mp hc'
    refine ⟨fun o ho p hattached hp => ?_, fun hlisted hpairs hscopes o ho p hattached hp => ?_⟩
    · exact (hreopened.prefixClass?_of_check hcheck herrors ⟨o, ho, rfl⟩ hp hattached).2
    · exact hreopened.protectedBy?_of_check hcheck herrors hlisted hscopes hpairs ⟨o, ho, rfl⟩ hp
        hattached

/-- A class `M` with two classes: `K` protects its attribute `x`, and in `A` a class `B` that is
prefixed by `K` hides it. The parameters are what a check fills in. -/
def hiddenInBranch (labels : LabelList) (prefixClass protectedBy hiddenBy : Option NodeId) :
    Tree where
  nodes := #[
    ⟨1, .declaration "MAIN" none (.block { declarations := ⟨#[("M", 1)]⟩, labels })⟩,
    ⟨2, .declaration "M" (some 0) (.classDeclaration
      { body := { declarations := ⟨#[("K", 2), ("A", 5)]⟩, labels } })⟩,
    ⟨3, .declaration "K" (some 1) (.classDeclaration
      { guarded := #[4], body := { declarations := ⟨#[("X", 3)]⟩, labels } })⟩,
    ⟨4, .declaration "X" (some 2) (.simpleVariable .integer none)⟩,
    ⟨5, .declaration "X" (some 2) (.protectedSpec hiddenBy)⟩,
    ⟨6, .declaration "A" (some 1) (.classDeclaration
      { body := { declarations := ⟨#[("B", 6)]⟩, labels } })⟩,
    ⟨7, .declaration "B" (some 5) (.classDeclaration
      { prefixName := some "K", prefixClass, hidden := #[7], body := { labels } })⟩,
    ⟨8, .declaration "X" (some 6) (.hiddenSpec protectedBy)⟩]

/-- The tree after a check. -/
def hiddenInBranchChecked : Tree :=
  hiddenInBranch { accumulated := some #[], ready := true } (some 2) (some 4) (some 7)

/-- The same classes after a check, but `B` stands in `M` itself. -/
def hiddenInsideChecked : Tree :=
  let labels : LabelList := { accumulated := some #[], ready := true }
  { nodes := #[
    ⟨1, .declaration "MAIN" none (.block { declarations := ⟨#[("M", 1)]⟩, labels })⟩,
    ⟨2, .declaration "M" (some 0) (.classDeclaration
      { body := { declarations := ⟨#[("K", 2), ("B", 5)]⟩, labels } })⟩,
    ⟨3, .declaration "K" (some 1) (.classDeclaration
      { guarded := #[4], body := { declarations := ⟨#[("X", 3)]⟩, labels } })⟩,
    ⟨4, .declaration "X" (some 2) (.simpleVariable .integer none)⟩,
    ⟨5, .declaration "X" (some 2) (.protectedSpec (some 6))⟩,
    ⟨6, .declaration "B" (some 1) (.classDeclaration
      { prefixName := some "K", prefixClass := some 2, hidden := #[6], body := { labels } })⟩,
    ⟨7, .declaration "X" (some 5) (.hiddenSpec (some 4))⟩] }

/-- What is loaded of it, in its block. -/
def hiddenInsideEnclosed : Tree :=
  let labels : LabelList := { ready := true }
  { nodes := #[
    ⟨2, .declaration "M" (some 6) (.classDeclaration
      { body := { declarations := ⟨#[("K", 1), ("B", 4)]⟩, labels } })⟩,
    ⟨3, .declaration "K" (some 0) (.classDeclaration
      { guarded := #[2], body := { declarations := ⟨#[("X", 5)]⟩, labels } })⟩,
    ⟨5, .declaration "X" (some 1) (.protectedSpec (some 3))⟩,
    ⟨7, .declaration "X" (some 4) (.hiddenSpec (some 2))⟩,
    ⟨6, .declaration "B" (some 0) (.classDeclaration
      { prefixName := some "K", prefixClass := some 1, hidden := #[3], body := { labels } })⟩,
    ⟨4, .declaration "X" (some 1) (.simpleVariable .integer none)⟩,
    ⟨0, .declaration "library" none (.block { declarations := ⟨#[("M", 0)]⟩ })⟩] }

/-- A package with the file of `M`. -/
def onlyFile (bytes : Bytes) : Package := Package.stage .empty "simula/user/M.atr" (some bytes)

/-- The package has the file under its entry. -/
theorem get?_onlyFile (bytes : Bytes) :
    (onlyFile bytes).get? "simula/user/M.atr" = some bytes := by
  rw [onlyFile, get?_stage, if_pos rfl]

/-- What the file of the second `M` leaves out. -/
theorem detached_hiddenInside : detached hiddenInsideChecked 1 [] = [0] := by
  rw [detached, externalGraph, Graph.preorder_of_within 20 rfl]
  rfl

/-- The super-class edges in the file of the second `M`. -/
theorem edges_hiddenInside :
    (({} : Session).registerClasses hiddenInsideChecked 1).hierarchy.edges =
      [(⟨"simula/user", "B"⟩, ⟨"simula/user", "K"⟩), (⟨"simula/user", "K"⟩, .runtimeClass),
        (⟨"simula/user", "M"⟩, .runtimeClass)] := by
  have horder : hiddenInsideChecked.registrationOrder 1 = [1, 5, 6, 2, 3, 4] :=
    Graph.preorder_of_within 20 rfl
  rw [registerClasses_eq, horder]
  decide +kernel

/-- The second `M` is emitted, loaded, enclosed and checked again without errors. -/
theorem check_hiddenInside :
    ∃ bytes m c c₁ c',
      (({} : Session).emit hiddenInsideChecked 1 []).2 = .ok ("simula/user/M.atr", bytes) ∧
      load (onlyFile bytes).library "simula/user/M.atr" ⟨{}, {}⟩ = .ok m c ∧
      enclose m c = .ok c.tree.size c₁ ∧ check c.tree.size c₁ = .ok () c' := by
  have hclasses : hiddenInsideEnclosed.classesBelow 6 = [0, 1, 4] := by
    rw [Tree.classesBelow, Graph.preorder_of_within 20 rfl]
    rfl
  have hcheck : succeedsWith (CheckM.checkScope (nestingLimit hiddenInsideEnclosed.size) 6)
      ((((⟨hiddenInsideEnclosed, {}⟩ : CheckState)
        |>.forClasses CheckState.resolvePrefix [0, 1, 4])
        |>.forClasses CheckState.cutPrefixCycle [0, 1, 4])
        |>.forClasses CheckState.pairSpecifications [0, 1, 4])
      (fun _ r => r.diagnostics.errorCount = 0) = true := by
    decide +kernel
  have hwrite : succeedsWith (writeAll hiddenInsideChecked 1 []
      (({} : Session).registerClasses hiddenInsideChecked 1).hierarchy)
      { next := ({} : Options).sequenceBase }
      (fun _ w => succeedsWith (load (onlyFile w.out.toList).library "simula/user/M.atr") ⟨{}, {}⟩
        fun m c => succeedsWith (enclose m) c fun block c₁ => block = c.tree.size ∧ block = 6 ∧
          c₁.session.diagnostics.entries = #[] ∧ c₁.tree = hiddenInsideEnclosed) = true := by
    unfold writeAll
    rw [detached_hiddenInside, edges_hiddenInside]
    decide +kernel
  obtain ⟨_, w, hwritten, hload⟩ := exists_of_succeedsWith hwrite
  have hemit : (({} : Session).emit hiddenInsideChecked 1 []).2 =
      .ok ("simula/user/M.atr", w.out.toList) := emit_of_writeAll rfl hwritten
  obtain ⟨m, c, hload, henclose⟩ := exists_of_succeedsWith hload
  obtain ⟨_, c₁, henclose, htest⟩ := exists_of_succeedsWith henclose
  obtain ⟨rfl, hblock, hentries, htree⟩ := of_decide_eq_true htest
  obtain ⟨_, r, hrun, herrors⟩ := exists_of_succeedsWith hcheck
  obtain ⟨session, tree⟩ := c₁
  have hnone : session.diagnostics = {} := congrArg Diagnostics.mk hentries
  have hchecked := CheckM.check_of_classesBelow (s := ⟨hiddenInsideEnclosed, {}⟩) hclasses hrun
  rw [← hnone, ← htree, ← hblock] at hchecked
  exact ⟨w.out.toList, m, c, _, _, hemit, hload, henclose,
    check_eq_ok.mpr ⟨r, hchecked, of_decide_eq_true herrors, rfl⟩⟩

/-- The class is checked without errors and emitted, but it cannot be loaded: its record of `A` is
opened inside that of `B`, which `A` declares. With `B` in `M` itself it is loaded and checked
again, and then `B` has the copies of its prefix class and of its pair. -/
theorem load_emitted_hiddenInBranch :
    (∃ c, check 0 ⟨{}, hiddenInBranch {} none none none⟩ = .ok () c ∧
      c.tree = hiddenInBranchChecked) ∧
    (∃ bytes,
      (({} : Session).emit hiddenInBranchChecked 1 []).2 = .ok ("simula/user/M.atr", bytes) ∧
      ∀ m c, load (onlyFile bytes).library "simula/user/M.atr" ⟨{}, {}⟩ ≠ .ok m c) ∧
    ∃ bytes m c c₁ c', ∃ copy : NodeId → NodeId,
      (({} : Session).emit hiddenInsideChecked 1 []).2 = .ok ("simula/user/M.atr", bytes) ∧
      load (onlyFile bytes).library "simula/user/M.atr" ⟨{}, {}⟩ = .ok m c ∧
      m.module = copy 1 ∧ enclose m c = .ok c.tree.size c₁ ∧ check c.tree.size c₁ = .ok () c' ∧
      c'.tree.prefixClass? (copy 5) = some (copy 2) ∧
      c'.tree.protectedBy? (copy 6) = some (copy 4) := by
  have hclasses : (hiddenInBranch {} none none none).classesBelow 0 = [1, 2, 5, 6] := by
    rw [Tree.classesBelow, Graph.preorder_of_within 20 rfl]
    rfl
  have hcheck : succeedsWith (CheckM.checkScope 27 0)
      ((((⟨hiddenInBranch {} none none none, {}⟩ : CheckState)
        |>.forClasses CheckState.resolvePrefix [1, 2, 5, 6])
        |>.forClasses CheckState.cutPrefixCycle [1, 2, 5, 6])
        |>.forClasses CheckState.pairSpecifications [1, 2, 5, 6])
      (fun _ r => r.tree = hiddenInBranchChecked ∧ r.diagnostics.errorCount = 0) = true := by
    decide +kernel
  have hdetached : detached hiddenInBranchChecked 1 [] = [0] := by
    rw [detached, externalGraph, Graph.preorder_of_within 20 rfl]
    rfl
  have hedges : (({} : Session).registerClasses hiddenInBranchChecked 1).hierarchy.edges =
      [(⟨"simula/user", "A"⟩, .runtimeClass), (⟨"simula/user", "B"⟩, ⟨"simula/user", "K"⟩),
        (⟨"simula/user", "K"⟩, .runtimeClass), (⟨"simula/user", "M"⟩, .runtimeClass)] := by
    have horder : hiddenInBranchChecked.registrationOrder 1 = [1, 5, 6, 7, 2, 3, 4] :=
      Graph.preorder_of_within 20 rfl
    rw [registerClasses_eq, horder]
    decide +kernel
  have hwrite : succeedsWith (writeAll hiddenInBranchChecked 1 []
      (({} : Session).registerClasses hiddenInBranchChecked 1).hierarchy)
      { next := ({} : Options).sequenceBase } (fun _ _ => true) = true := by
    unfold writeAll
    rw [hdetached, hedges]
    decide +kernel
  obtain ⟨_, r, hrun, htest⟩ := exists_of_succeedsWith hcheck
  obtain ⟨htree, herrors⟩ := of_decide_eq_true htest
  have hchecked := check_eq_ok (s := {}).mpr
    ⟨r, CheckM.check_of_classesBelow hclasses hrun, herrors, rfl⟩
  obtain ⟨_, w, hwritten, -⟩ := exists_of_succeedsWith hwrite
  have hemit : (({} : Session).emit hiddenInBranchChecked 1 []).2 =
      .ok ("simula/user/M.atr", w.out.toList) := emit_of_writeAll rfl hwritten
  refine ⟨⟨_, hchecked, htree⟩, ⟨w.out.toList, hemit, fun m c hload => ?_⟩, ?_⟩
  · have hend : ∀ e ∈ (({} : Session).registerClasses hiddenInBranchChecked 1).hierarchy.edges,
        e.1.package ≠ hierarchyEnd := by
      rw [hedges]
      decide
    obtain ⟨hrestorable, -⟩ :=
      (load_emitted hemit (get?_onlyFile _) hend rfl).1.mp ⟨m, c, hload⟩
    have hreadable := hrestorable.readable
    rw [hdetached] at hreadable
    revert hreadable
    decide +kernel
  · obtain ⟨bytes, m, c, c₁, c', hemit, hload, henclose, hcheck⟩ := check_hiddenInside
    have hend : ∀ e ∈ (({} : Session).registerClasses hiddenInsideChecked 1).hierarchy.edges,
        e.1.package ≠ hierarchyEnd := by
      rw [edges_hiddenInside]
      decide
    obtain ⟨copy, s₁, -, rfl, -, -, hrechecked⟩ :=
      (load_emitted hemit (get?_onlyFile _) hend rfl).2 m c hload
    obtain ⟨t₁, henclose', hchecked⟩ := hrechecked (by decide)
    obtain rfl : c₁ = ⟨c.session, t₁⟩ := by
      cases henclose.symm.trans henclose'
      rfl
    obtain ⟨hkept, hpair⟩ := hchecked c' hcheck
    have hopened : ∀ id ∈ [5, 6], ∃ o ∈ moduleOpenings hiddenInsideChecked 1 [], o.node = id := by
      rw [moduleOpenings, detached_hiddenInside]
      decide +kernel
    have hattached : ∀ id ∈ [2, 4], id ∉ detached hiddenInsideChecked 1 [] := by
      rw [detached_hiddenInside]
      decide
    obtain ⟨o, ho, hnode⟩ := hopened 5 (by decide)
    obtain ⟨o', ho', hnode'⟩ := hopened 6 (by decide)
    refine ⟨bytes, _, c, _, c', copy, hemit, hload, rfl, henclose, hcheck, ?_, ?_⟩
    · exact hnode ▸ hkept o ho 2 (hattached 2 (by decide)) (hnode ▸ rfl)
    · exact hnode' ▸ hpair (by decide +kernel) (by decide +kernel) (by decide) o' ho' 4
        (hattached 4 (by decide)) (hnode' ▸ rfl)

end Session

end Simula
