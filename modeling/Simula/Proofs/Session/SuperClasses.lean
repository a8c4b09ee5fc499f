import Simula.Proofs.Graph.Reachability
import Simula.Proofs.Hierarchy.Loading
import Simula.Proofs.Session.Loading

/-!
# Super-class edges of a module

When the classes of a module are recorded, each gets an edge to its prefix class, or to the runtime
root. Both ends of an edge are named by the package of the session and by an identifier. So classes
with one identifier share an edge, and the one that is recorded last decides where it leads. And an
edge to a prefix class from another file names the class that was recorded with that file exactly if
the file was written by a session with the same package.
-/

namespace Simula

/-! ## The last edge decides -/

namespace ClassHierarchy

variable {h : ClassHierarchy} {edges : List (ClassIdentity × ClassIdentity)} {c : ClassIdentity}

/-- Edges of other classes do not change what is above a class. -/
theorem super?_registerEdges_of_notMem (hnot : ∀ e ∈ edges, e.1 ≠ c) :
    (h.registerEdges edges).super? c = h.super? c := by
  induction edges generalizing h with
  | nil => rfl
  | cons e edges ih =>
    rw [List.forall_mem_cons] at hnot
    calc (h.registerEdges (e :: edges)).super? c
        = (h.registerEdge e.1 e.2).super? c := ih hnot.2
      _ = h.super? c := by rw [super?_registerEdge, if_neg (Ne.symm hnot.1)]

/-- Among edges that are recorded in order, one can be singled out. -/
theorem registerEdges_append_cons (h : ClassHierarchy) (c sup : ClassIdentity)
    (before after : List (ClassIdentity × ClassIdentity)) :
    h.registerEdges (before ++ (c, sup) :: after) =
      ((h.registerEdges before).registerEdge c sup).registerEdges after :=
  List.foldl_append

/-- Of the edges of one class the last one decides. -/
theorem super?_registerEdges_of_last {before after : List (ClassIdentity × ClassIdentity)}
    {sup : ClassIdentity} (hlast : ∀ e ∈ after, e.1 ≠ c) :
    (h.registerEdges (before ++ (c, sup) :: after)).super? c = some sup := by
  rw [registerEdges_append_cons, super?_registerEdges_of_notMem hlast, super?_registerEdge, if_pos rfl]

/-- A class with a recorded edge is known. -/
theorem isSome_super?_registerEdges {sup : ClassIdentity} (hmem : (c, sup) ∈ edges) :
    ((h.registerEdges edges).super? c).isSome = true := by
  obtain ⟨before, after, rfl⟩ := List.append_of_mem hmem
  have hknown : (((h.registerEdges before).registerEdge c sup).super? c).isSome = true := by
    rw [super?_registerEdge, if_pos rfl]
    rfl
  rw [registerEdges_append_cons]
  exact KnowsMore.registerEdges _ after c hknown

end ClassHierarchy

/-! ## The edges of a module -/

/-- The nodes below a module are those that can be reached through children. -/
theorem Tree.mem_registrationOrder {t : Tree} {module id : NodeId} :
    id ∈ t.registrationOrder module ↔ Graph.Reaches t.size t.children [module] id := by
  rw [registrationOrder, Graph.mem_preorder_iff]
  constructor
  · exact Graph.Reaches.mono fun n m hm => List.mem_reverse.mp hm
  · exact Graph.Reaches.mono fun n m hm => List.mem_reverse.mpr hm

namespace Session

variable {s : Session} {t : Tree} {module : NodeId}

/-- A class stands for the edge to its prefix class. -/
theorem edge?_of_class {id : NodeId} (h : t.kind id = .classDeclaration) :
    s.edge? t module id = some (s.classIdentity t id, s.superIdentity t id) := by
  rw [edge?, h]

/-- Of the nodes of a module with one identity the last one decides. -/
theorem super?_registerClasses_of_last {before after : List NodeId} {d : NodeId}
    {identity sup : ClassIdentity} (horder : t.registrationOrder module = before ++ d :: after)
    (hedge : s.edge? t module d = some (identity, sup))
    (hlast : ∀ x ∈ after, ∀ e, s.edge? t module x = some e → e.1 ≠ identity) :
    (s.registerClasses t module).hierarchy.super? identity = some sup := by
  rw [registerClasses_eq, horder, List.filterMap_append, List.filterMap_cons_some hedge]
  apply ClassHierarchy.super?_registerEdges_of_last
  intro e he
  obtain ⟨x, hx, hxe⟩ := List.mem_filterMap.mp he
  exact hlast x hx e hxe

/-- Every class below a module shares its edge with the last node of its identity. -/
theorem exists_last_namesake {c : NodeId} (hc : Graph.Reaches t.size t.children [module] c)
    (hkind : t.kind c = .classDeclaration) :
    ∃ before d after sup, t.registrationOrder module = before ++ d :: after ∧
      s.edge? t module d = some (s.classIdentity t c, sup) ∧
      ∀ x ∈ after, ∀ e, s.edge? t module x = some e → e.1 ≠ s.classIdentity t c := by
  let shares (x : NodeId) : Bool := (s.edge? t module x).any (·.1 = s.classIdentity t c)
  have hshares : ((t.registrationOrder module).reverse.find? shares).isSome = true := by
    rw [List.find?_isSome]
    refine ⟨c, List.mem_reverse.mpr (Tree.mem_registrationOrder.mpr hc), ?_⟩
    simp [shares, edge?_of_class hkind]
  obtain ⟨d, hd⟩ := Option.isSome_iff_exists.mp hshares
  obtain ⟨hsame, after, before, horder, hlast⟩ := List.find?_eq_some_iff_append.mp hd
  obtain ⟨e, he, hidentity⟩ := (Option.any_eq_true _ _).mp hsame
  have hidentity : e.1 = s.classIdentity t c := of_decide_eq_true hidentity
  refine ⟨before.reverse, d, after.reverse, e.2, ?_, ?_, ?_⟩
  · rw [← List.reverse_reverse (t.registrationOrder module), horder]
    simp
  · rw [he, ← hidentity]
  · intro x hx e' he' hsame'
    have hnot := hlast x (List.mem_reverse.mp hx)
    simp [shares, he', hsame'] at hnot

/-! ## Classes of other files -/

open AttributeFile

/-- The module of a session has been loaded from the file that the session has emitted for it. -/
structure LoadedFrom (s₀ : Session) (t₀ : Tree) (module₀ : NodeId) (externals : List NodeId)
    (library : AttributeLibrary) (l : LoadState) (m : LoadedModule) (l' : LoadState) : Prop where
  load : ∃ depth inProgress entry bytes,
    (s₀.emit t₀ module₀ externals).2 = .ok (entry, bytes) ∧ library.read entry = .ok bytes ∧
    l.loaded.lookup entry = none ∧ loadWithin library depth inProgress entry l = .ok m l'
  /-- The header can be read back as a whole. -/
  header : ∀ e ∈ (s₀.registerClasses t₀ module₀).hierarchy.edges, e.1.package ≠ hierarchyEnd
  caseRule : l.tree.caseRule = t₀.caseRule

/-- Adding external declarations keeps the known classes. -/
theorem addExternals_knowsMore {loadExternal : NodeId → Loading NodeId}
    (hload : ∀ id, Follows LoadState.KnowsMore (loadExternal id)) (nodes : List Node) :
    Follows LoadState.KnowsMore (addExternals loadExternal nodes) := by
  induction nodes with
  | nil => exact .pure _
  | cons node nodes ih =>
    have hkeep : ∀ f : Tree → Tree, Follows LoadState.KnowsMore
        (modify fun s => { s with tree := f s.tree } : Loading Unit) := fun f =>
      .of_modify fun s => .refl s.hierarchy
    exact Follows.get.bind fun s => (hkeep (·.push node)).bind fun _ => (hload _).bind fun module =>
      (hkeep (·.update _ (withModule module))).bind fun _ => ih.bind fun _ => .pure _

section

variable {s₀ : Session} {t₀ : Tree} {module₀ : NodeId} {externals : List NodeId}
variable {library : AttributeLibrary} {l l' : LoadState} {m : LoadedModule}

/-- A loaded module is a copy of the one that was emitted. The classes below it are known by the
package of the session that has emitted it. -/
theorem LoadedFrom.exists_copy (h : LoadedFrom s₀ t₀ module₀ externals library l m l') :
    ∃ (copy : NodeId → NodeId) (before : Tree), m.module = copy module₀ ∧
      Restored t₀ module₀ externals copy before l'.tree ∧
      ∀ x, Graph.Reaches t₀.size t₀.children [module₀] x → t₀.kind x = .classDeclaration →
        (l'.hierarchy.super? (s₀.classIdentity t₀ x)).isSome = true := by
  obtain ⟨depth, inProgress, entry, bytes, hemit, hstored, hnew, hload⟩ := h.load
  obtain ⟨base, next, hwrite⟩ := write_of_emit hemit
  obtain ⟨-, d, bytes', s₁, hbytes, hread, rfl⟩ := loadWithin_eq_ok hnew hload
  obtain rfl : bytes = bytes' := by
    rw [hstored] at hbytes
    cases hbytes
    rfl
  obtain ⟨-, copy, s₂, hadd, rfl, hrestored, hs₁⟩ := restored_of_read
    (loadExternal_follows fun _ => loadWithin_follows _ _ _ _) hwrite h.header h.caseRule hread
  refine ⟨copy, s₂.tree, rfl, hrestored, fun x hreach hkind => ?_⟩
  obtain ⟨_, _, _, sup, horder, hedge, hlast⟩ := exists_last_namesake (s := s₀) hreach hkind
  have hlisted := mem_of_lookup (super?_registerClasses_of_last horder hedge hlast)
  have hrecorded : ((l.hierarchy.registerEdges
      (s₀.registerClasses t₀ module₀).hierarchy.edges).super?
      (s₀.classIdentity t₀ x)).isSome = true :=
    ClassHierarchy.isSome_super?_registerEdges hlisted
  have hkept := (addExternals_knowsMore
    (loadExternal_follows fun _ => loadWithin_knowsMore _ _ _ _) _).of_ok hadd
  rw [hs₁]
  exact hkept _ hrecorded

/-- A copied node declares or uses the identifier of its original. -/
theorem identifier?_of_restored {copy : NodeId → NodeId} {before after : Tree}
    (h : Restored t₀ module₀ externals copy before after) {o : Opening}
    (ho : o ∈ moduleOpenings t₀ module₀ externals) :
    after.identifier? (copy o.node) = t₀.identifier? o.node := by
  rw [Tree.identifier?, Tree.data_of_node (h.nodes o ho), Tree.copiedNode,
    NodeData.identifier?_relabel, ← Tree.identifier?]

/-- Recording the classes of a module keeps the known classes. -/
theorem knowsMore_registerClasses (s : Session) (t : Tree) (module : NodeId) :
    s.hierarchy.KnowsMore (s.registerClasses t module).hierarchy := by
  rw [registerClasses_eq]
  exact .registerEdges _ _

end

/-- **Super-class edges.** When the classes of a module have been recorded, the edge of a class
below the module is that of the last node with its identity, so it leads to the class's own
super-class if all nodes with that identity agree on it. That is the runtime root for a class
without prefix class, and otherwise the identifier of the prefix class in the package of the
session. A prefix class below the module is recorded under just that identity. One that was loaded
from a file is recorded by the package of the session that has written the file, and the edge leads
there exactly if both sessions have the same package. -/
theorem super?_of_registerClasses {c : NodeId} (hc : Graph.Reaches t.size t.children [module] c)
    (hkind : t.kind c = .classDeclaration) :
    (∃ before d after sup, t.registrationOrder module = before ++ d :: after ∧
      s.edge? t module d = some (s.classIdentity t c, sup) ∧
      (∀ x ∈ after, ∀ e, s.edge? t module x = some e → e.1 ≠ s.classIdentity t c) ∧
      (s.registerClasses t module).hierarchy.super? (s.classIdentity t c) = some sup) ∧
    ((∀ d e, Graph.Reaches t.size t.children [module] d → s.edge? t module d = some e →
        e.1 = s.classIdentity t c → e.2 = s.superIdentity t c) →
      (s.registerClasses t module).hierarchy.super? (s.classIdentity t c) =
        some (s.superIdentity t c)) ∧
    (t.prefixClass? c = none → s.superIdentity t c = .runtimeClass) ∧
    ∀ p, t.prefixClass? c = some p →
      (Graph.Reaches t.size t.children [module] p → t.kind p = .classDeclaration →
        s.superIdentity t c = s.classIdentity t p ∧
        ((s.registerClasses t module).hierarchy.super? (s.classIdentity t p)).isSome = true) ∧
      ∀ {s₀ : Session} {t₀ : Tree} {module₀ : NodeId} {externals : List NodeId}
        {library : AttributeLibrary} {l l' : LoadState} {m : LoadedModule},
        LoadedFrom s₀ t₀ module₀ externals library l m l' → l'.hierarchy.KnowsMore s.hierarchy →
        t.identifier? p = l'.tree.identifier? p →
        ∃ (copy : NodeId → NodeId) (before : Tree), m.module = copy module₀ ∧
          Restored t₀ module₀ externals copy before l'.tree ∧
          ∀ o ∈ moduleOpenings t₀ module₀ externals, p = copy o.node →
            Graph.Reaches t₀.size t₀.children [module₀] o.node →
            t₀.kind o.node = .classDeclaration →
            ((s.registerClasses t module).hierarchy.super?
              (s₀.classIdentity t₀ o.node)).isSome = true ∧
            (s.superIdentity t c = s₀.classIdentity t₀ o.node ↔
              s.options.package = s₀.options.package) := by
  obtain ⟨before, d, after, sup, horder, hedge, hlast⟩ := exists_last_namesake (s := s) hc hkind
  have hsuper := super?_registerClasses_of_last horder hedge hlast
  refine ⟨⟨before, d, after, sup, horder, hedge, hlast, hsuper⟩, fun hagree => ?_, fun hnone => ?_,
    fun p hp => ⟨fun hreach hclass => ?_, fun hloaded hknown hname => ?_⟩⟩
  · have hd : d ∈ t.registrationOrder module := by
      rw [horder]
      simp
    have hsup : sup = s.superIdentity t c :=
      hagree d _ (Tree.mem_registrationOrder.mp hd) hedge rfl
    rw [hsuper, hsup]
  · rw [superIdentity, hnone]
  · obtain ⟨_, _, _, sup', horder', hedge', hlast'⟩ :=
      exists_last_namesake (s := s) hreach hclass
    rw [super?_registerClasses_of_last horder' hedge' hlast', superIdentity, hp]
    exact ⟨rfl, rfl⟩
  · obtain ⟨copy, tree, hmodule, hrestored, hrecorded⟩ := hloaded.exists_copy
    refine ⟨copy, tree, hmodule, hrestored, fun o ho heq hreach hclass => ⟨?_, ?_⟩⟩
    · exact knowsMore_registerClasses s t module _ (hknown _ (hrecorded _ hreach hclass))
    · rw [superIdentity, hp]
      rw [heq, identifier?_of_restored hrestored ho, ← heq] at hname
      simp only [classIdentity, hname, ClassIdentity.mk.injEq, and_true]

/-- A session for the package of a class. -/
def baseSession : Session := { options := { package := "lib/base" } }

/-- A class without a prefix is recorded below the class of the runtime. -/
theorem edges_loneClass : (baseSession.registerClasses loneClass 0).hierarchy.edges =
    [(⟨"lib/base", "A"⟩, .runtimeClass)] := by
  have horder : loneClass.registrationOrder 0 = [0] := Graph.preorder_of_within 20 rfl
  rw [registerClasses_eq, horder]
  rfl

/-- The file of this class can be read. -/
theorem restorable_loneClass : Restorable loneClass 0 [] := by
  refine ⟨.nil, ?_, ?_⟩
  · rw [detached_loneClass]
    decide
  · rw [detached_loneClass]
    decide +kernel

/-- The file of this class has one record. -/
theorem moduleOpenings_loneClass : moduleOpenings loneClass 0 [] = [⟨0, []⟩] := by
  rw [moduleOpenings, detached_loneClass]
  decide +kernel

/-- The class is emitted, since its record can be written. -/
theorem exists_emit_loneClass :
    ∃ bytes, (baseSession.emit loneClass 0 []).2 = .ok ("lib/base/A.atr", bytes) := by
  have hwrite : succeedsWith (writeAll loneClass 0 []
      (baseSession.registerClasses loneClass 0).hierarchy)
      { next := baseSession.options.sequenceBase } (fun _ _ => true) = true := by
    unfold writeAll
    rw [detached_loneClass, edges_loneClass]
    decide +kernel
  obtain ⟨_, w, hw, -⟩ := exists_of_succeedsWith hwrite
  exact ⟨_, emit_of_writeAll rfl hw⟩

/-- Loaded into an empty tree, the class is the first node. -/
theorem exists_loadedFrom_loneClass : ∃ library m l',
    LoadedFrom baseSession loneClass 0 [] library ⟨{}, {}, []⟩ m l' ∧
      m.module = 0 ∧ l'.tree.identifier? 0 = some "A" := by
  obtain ⟨bytes, hemit⟩ := exists_emit_loneClass
  have hend : ∀ e ∈ (baseSession.registerClasses loneClass 0).hierarchy.edges,
      e.1.package ≠ hierarchyEnd := by
    rw [edges_loneClass]
    decide
  obtain ⟨base, next, hfile⟩ := write_of_emit hemit
  let library : AttributeLibrary := ⟨fun _ => .ok bytes, 1⟩
  obtain ⟨copy, l', hread, -, hrestored, -⟩ := (read_written
    (loadExternal_follows fun _ => loadWithin_follows library 0 ["lib/base/A.atr"] _) hfile hend
    (s := ⟨{}, {}, []⟩) rfl).1 restorable_loneClass rfl
  have hbytes : library.read "lib/base/A.atr" = .ok bytes := rfl
  have hload := loadWithin_of_read rfl List.not_mem_nil hbytes hread
  have hcopy : copy 0 = 0 := by
    have hplaces := hrestored.places
    rw [moduleOpenings_loneClass] at hplaces
    exact (List.cons.inj hplaces).1
  have hmem : Opening.mk 0 [] ∈ moduleOpenings loneClass 0 [] := by
    rw [moduleOpenings_loneClass]
    exact List.mem_singleton_self _
  have hname := identifier?_of_restored hrestored hmem
  rw [hcopy] at hname
  exact ⟨library, _, _, ⟨⟨1, [], _, _, hemit, rfl, rfl, hload⟩, hend, rfl⟩, hcopy, hname⟩

/-- A block with a class `B` that is prefixed by the loaded class `A`. -/
def derivedClass : Tree where
  nodes := #[
    ⟨1, .declaration "A" none (.classDeclaration {})⟩,
    ⟨1, .declaration "MAIN" none (.block { declarations := ⟨#[("A", 2), ("B", 3)]⟩ })⟩,
    ⟨2, .declaration "A" (some 1) (.external .classDeclaration "lib/base/A.atr" (some 0))⟩,
    ⟨3, .declaration "B" (some 1) (.classDeclaration
      { prefixName := some "A", prefixClass := some 0 })⟩]

/-- A session for another package. -/
def derivedSession (h : ClassHierarchy) : Session :=
  { options := { package := "app/main" }, hierarchy := h }

/-- The class leads to its declarations only. -/
theorem reaches_derivedClass {d : NodeId}
    (hd : Graph.Reaches derivedClass.size derivedClass.children [1] d) : d = 1 ∨ d = 2 ∨ d = 3 := by
  induction hd with
  | root hroot _ => exact .inl (List.mem_singleton.mp hroot)
  | step _ hchild _ ih =>
    right
    rcases ih with rfl | rfl | rfl
    · simpa using (show _ ∈ [2, 3] from hchild)
    · cases hchild
    · cases hchild

/-- The loaded class is known in its own package, but the edge of `B` leads to a class of that name
in the package of the session. -/
theorem super?_of_registerClasses_derivedClass :
    ∃ library m l', LoadedFrom baseSession loneClass 0 [] library ⟨{}, {}, []⟩ m l' ∧
      ((derivedSession l'.hierarchy).registerClasses derivedClass 1).hierarchy.super?
        ⟨"app/main", "B"⟩ = some ⟨"app/main", "A"⟩ ∧
      (((derivedSession l'.hierarchy).registerClasses derivedClass 1).hierarchy.super?
        ⟨"lib/base", "A"⟩).isSome = true := by
  obtain ⟨library, m, l', hloaded, hmodule, hname⟩ := exists_loadedFrom_loneClass
  have hmem : Opening.mk 0 [] ∈ moduleOpenings loneClass 0 [] := by
    rw [moduleOpenings_loneClass]
    exact List.mem_singleton_self _
  have hroot : Graph.Reaches loneClass.size loneClass.children [0] 0 :=
    .root (List.mem_singleton_self 0) (by decide)
  have hbelow : Graph.Reaches derivedClass.size derivedClass.children [1] 3 :=
    .step (.root (List.mem_singleton_self 1) (by decide)) (by decide) (by decide)
  obtain ⟨-, hsuper, -, hlink⟩ :=
    super?_of_registerClasses (s := derivedSession l'.hierarchy) hbelow rfl
  refine ⟨library, m, l', hloaded, hsuper ?_, ?_⟩
  · intro d e hd
    rcases reaches_derivedClass hd with rfl | rfl | rfl
    · intro he
      cases he
    · intro he
      cases he
    · intro he _
      cases he
      rfl
  · obtain ⟨copy, _, hcopy, -, hrecorded⟩ := (hlink 0 rfl).2 hloaded (.refl _) hname.symm
    exact (hrecorded _ hmem (hmodule.symm.trans hcopy) hroot rfl).1

end Session

end Simula
