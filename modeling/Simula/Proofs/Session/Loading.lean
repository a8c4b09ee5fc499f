import Simula.Library.Package
import Simula.Proofs.AttributeFile.RoundTrip
import Simula.Proofs.Graph.Reachability
import Simula.Proofs.Hierarchy.Edges

/-!
# Loading and emitting modules

A session loads an entry at most once and remembers what it has read. The lemmas here open the
operations of a session on attribute files: a load that succeeds has read the file of the entry, and
the file of a module that has been emitted holds the module and the edges that the session knows,
those of the module's own classes among them.
-/

namespace Simula

/-- What a compilation has to load with. -/
def Compilation.loadState (c : Compilation) : LoadState :=
  ⟨c.tree, c.session.hierarchy, c.session.loaded⟩

/-- The nodes of a module in the order in which their super-classes are recorded. -/
def Tree.registrationOrder (t : Tree) (module : NodeId) : List NodeId :=
  Graph.preorder t.size (fun id => (t.children id).reverse) [module]

namespace Session

open AttributeFile

section

variable {library : AttributeLibrary} {inProgress : List String} {entry : String}
variable {s s' : LoadState} {m : LoadedModule}

/-- An entry that has not been read yet is read, unless it is being read already, and
remembered. -/
theorem remembered_eq_ok {read : Loading LoadedModule} (hnew : s.loaded.lookup entry = none) :
    remembered inProgress entry read s = .ok m s' ↔ entry ∉ inProgress ∧ ∃ s₁,
      read s = .ok m s₁ ∧ s' = { s₁ with loaded := (entry, m) :: s₁.loaded } := by
  rw [remembered, bind_of_ok (get_apply s), hnew]
  by_cases hin : entry ∈ inProgress
  · simp only [hin, if_true, not_true_eq_false, false_and, iff_false]
    intro h
    obtain ⟨_, _, hthrow, -⟩ := bind_eq_ok.mp h
    cases hthrow
  · simp only [hin, if_false, not_false_eq_true, true_and, bind_eq_ok, pure_eq_ok, modify_apply]
    constructor
    · rintro ⟨m', s₁, hread, _, s₂, hmodify, rfl, rfl⟩
      cases hmodify
      exact ⟨s₁, hread, rfl⟩
    · rintro ⟨s₁, hread, rfl⟩
      exact ⟨m, s₁, hread, (), _, rfl, rfl, rfl⟩

/-- An entry that has not been read yet and can be loaded is not being read already and is in the
library, and its file can be read. -/
theorem loadWithin_eq_ok {depth : Nat} (hnew : s.loaded.lookup entry = none)
    (h : loadWithin library depth inProgress entry s = .ok m s') :
    entry ∉ inProgress ∧ ∃ d bytes s₁, library.read entry = .ok bytes ∧
      read (loadExternal (loadWithin library d (entry :: inProgress))) bytes s = .ok m s₁ ∧
      s' = { s₁ with loaded := (entry, m) :: s₁.loaded } := by
  cases depth with
  | zero =>
    obtain ⟨-, s₁, hread, -⟩ := (remembered_eq_ok hnew).mp h
    cases hread
  | succ d =>
    obtain ⟨hin, s₁, hread, rfl⟩ := (remembered_eq_ok hnew).mp h
    cases hbytes : library.read entry with
    | error e =>
      rw [hbytes] at hread
      cases hread
    | ok bytes =>
      rw [hbytes] at hread
      exact ⟨hin, d, bytes, s₁, rfl, hread, rfl⟩

/-- An entry that has not been read yet is loaded if its file can be read. -/
theorem loadWithin_of_read {depth : Nat} {bytes : Bytes} {s₁ : LoadState}
    (hnew : s.loaded.lookup entry = none) (hin : entry ∉ inProgress)
    (hbytes : library.read entry = .ok bytes)
    (hread : read (loadExternal (loadWithin library depth (entry :: inProgress))) bytes s =
      .ok m s₁) :
    loadWithin library (depth + 1) inProgress entry s =
      .ok m { s₁ with loaded := (entry, m) :: s₁.loaded } := by
  rw [loadWithin, remembered_eq_ok hnew, hbytes]
  exact ⟨hin, s₁, hread, rfl⟩

/-- An external declaration gets a module of the announced kind. -/
theorem loadExternal_of_ok {load : String → Loading LoadedModule} {external : NodeId}
    {i : String} {scope l : Option NodeId} (hload : load entry s = .ok m s')
    (hdata : s.tree.data external =
      .declaration i scope (.external (s'.tree.kind m.module) entry l)) :
    loadExternal load external s = .ok m.module s' := by
  rw [loadExternal, bind_of_ok (get_apply s), hdata]
  refine (bind_of_ok hload).trans ?_
  rw [bind_of_ok (get_apply s')]
  exact congrFun (if_pos rfl) s'

/-- The module behind an external declaration is that of the named entry, and of the announced
kind. -/
theorem loadExternal_eq_ok {load : String → Loading LoadedModule} {external module : NodeId}
    {i : String} {scope l : Option NodeId} {k : Kind}
    (hdata : s.tree.data external = .declaration i scope (.external k entry l))
    (h : loadExternal load external s = .ok module s') :
    ∃ m, load entry s = .ok m s' ∧ s'.tree.kind m.module = k ∧ module = m.module := by
  rw [loadExternal, bind_of_ok (get_apply s), hdata] at h
  obtain ⟨m, s₁, hload, h⟩ := bind_eq_ok.mp h
  rw [bind_of_ok (get_apply s₁)] at h
  split at h
  case isFalse => cases h
  next hkind =>
  cases h
  exact ⟨m, hload, hkind, rfl⟩

/-- An entry is found, is refused, or is read and remembered. -/
theorem remembered_ends {read : Loading LoadedModule} {P : LoadedModule → LoadState → Prop}
    {E : LoadState → Prop} (hknown : ∀ m, s.loaded.lookup entry = some m → P m s)
    (hrefused : s.loaded.lookup entry = none → entry ∈ inProgress → E s)
    (hread : s.loaded.lookup entry = none → entry ∉ inProgress →
      Ends read s (fun m s' => P m { s' with loaded := (entry, m) :: s'.loaded }) E) :
    Ends (remembered inProgress entry read) s P E := by
  refine .after (get_apply s) ?_
  cases hlookup : s.loaded.lookup entry with
  | some m => exact hknown m hlookup
  | none =>
    dsimp only
    split
    · next hin => exact .of_error rfl (hrefused hlookup hin)
    · next hin =>
      exact (hread hlookup hin).bind fun m s' _ hm => .after (modify_apply _ _) hm

/-- The module behind an external declaration is loaded, and then its kind is looked at. -/
theorem loadExternal_ends {load : String → Loading LoadedModule} {external : NodeId} {i : String}
    {scope l : Option NodeId} {k : Kind} {P : LoadedModule → LoadState → Prop}
    {E : LoadState → Prop}
    (hdata : s.tree.data external = .declaration i scope (.external k entry l))
    (hload : Ends (load entry) s P E) :
    Ends (loadExternal load external) s
      (fun module s' => ∃ m, P m s' ∧ s'.tree.kind m.module = k ∧ module = m.module)
      (fun s' => E s' ∨ ∃ m, P m s') := by
  rw [loadExternal]
  refine .after (get_apply s) ?_
  rw [hdata]
  cases h : load entry s with
  | error e s' => exact .of_error (bind_of_error h) (.inl (hload.error h))
  | ok m s' =>
    refine .after h (.after (get_apply s') ?_)
    dsimp only
    split
    · next hkind => exact ⟨m, hload.ok h, hkind, rfl⟩
    · exact .of_error rfl (.inr ⟨m, hload.ok h⟩)

end

/-- A loading action that succeeds in a session leaves its result there. -/
theorem loading_eq_ok {α : Type} {l : Loading α} {s : Session} {t : Tree} {a : α}
    {c : Compilation} :
    loading l ⟨s, t⟩ = .ok a c ↔ ∃ r, l ⟨t, s.hierarchy, s.loaded⟩ = .ok a r ∧
      c = ⟨{ s with hierarchy := r.hierarchy, loaded := r.loaded }, r.tree⟩ := by
  rw [loading]
  cases l ⟨t, s.hierarchy, s.loaded⟩ with
  | ok b r =>
    constructor
    · intro h
      cases h
      exact ⟨r, rfl, rfl⟩
    · rintro ⟨_, h, rfl⟩
      cases h
      rfl
  | error e r => simp

/-- A loading action ends in a session as it ends otherwise. -/
theorem loading_ends {α : Type} {l : Loading α} {c : Compilation} {P : α → LoadState → Prop}
    {E : LoadState → Prop} (h : Ends l c.loadState P E) :
    Ends (loading l) c (fun a c' => P a c'.loadState) (fun c' => E c'.loadState) := by
  obtain ⟨session, tree⟩ := c
  rw [Ends, loading]
  cases hl : l ⟨tree, session.hierarchy, session.loaded⟩ with
  | ok a r => exact h.ok hl
  | error e r => exact h.error hl

/-- An entry that a package can read has content there. -/
theorem get?_of_read {package : Package} {entry : String} {bytes : Bytes}
    (h : package.library.read entry = .ok bytes) : package.get? entry = some bytes := by
  change package.read entry = _ at h
  rw [Package.read] at h
  split at h
  · next hget =>
    cases h
    exact hget
  · cases h

/-- A file that has been stored is found under its entry, and any other file as before. -/
theorem get?_stage (package : Package) (entry file : String) (content : Option Bytes) :
    (package.stage entry content).get? file =
      if file = entry then content else package.get? file := by
  have hlookup := Table.lookup_insertEntry entry file content package.entries
  rw [Package.get?, Table.find?, Package.stage, Table.insert, hlookup]
  split <;> rfl

/-- Loads the module behind an external declaration in the file of an entry. -/
def externalLoader (package : Package) (entry : String) : NodeId → Loading NodeId :=
  loadExternal (loadWithin package.library (package.size - 1) [entry])

/-- Loading an entry of a package is reading its file, unless it has been read before. -/
theorem loadWithin_of_get {package : Package} {entry : String} {bytes : Bytes}
    (hbytes : package.get? entry = some bytes) :
    loadWithin package.library package.library.chainBound [] entry =
      remembered [] entry (read (externalLoader package entry) bytes) := by
  have hsize : package.library.chainBound = package.size - 1 + 1 := by
    have hne : package.entries ≠ [] := by
      intro h
      rw [Package.get?, Table.find?, h] at hbytes
      cases hbytes
    have hpos := List.length_pos_iff.mpr hne
    change package.size = _
    rw [Table.size]
    omega
  have hread : package.library.read entry = .ok bytes := by
    change package.read entry = _
    rw [Package.read, hbytes]
  rw [hsize, loadWithin, hread]
  rfl

/-- An entry of a package can be loaded by a session that has loaded nothing exactly if its file
can be read. -/
theorem load_eq_ok {package : Package} {entry : String} {bytes : Bytes} {s : Session} {t : Tree}
    {m : LoadedModule} {c : Compilation} (hbytes : package.get? entry = some bytes)
    (hfresh : s.loaded = []) :
    load package.library entry ⟨s, t⟩ = .ok m c ↔ ∃ s₁,
      read (externalLoader package entry) bytes ⟨t, s.hierarchy, []⟩ = .ok m s₁ ∧
      c = ⟨{ s with hierarchy := s₁.hierarchy, loaded := (entry, m) :: s₁.loaded }, s₁.tree⟩ := by
  rw [load, loadWithin_of_get hbytes, loading_eq_ok, hfresh]
  constructor
  · rintro ⟨r, hr, rfl⟩
    obtain ⟨-, s₁, hs₁, rfl⟩ := (remembered_eq_ok rfl).mp hr
    exact ⟨s₁, hs₁, rfl⟩
  · rintro ⟨s₁, hs₁, rfl⟩
    exact ⟨_, (remembered_eq_ok rfl).mpr ⟨List.not_mem_nil, s₁, hs₁, rfl⟩, rfl⟩

/-- A file that cannot be read is not loaded, but the session keeps what it has found in it. -/
theorem load_of_error {package : Package} {entry : String} {bytes : Bytes} {s : Session} {t : Tree}
    {e : Error} {s₁ : LoadState} (hbytes : package.get? entry = some bytes) (hfresh : s.loaded = [])
    (h : read (externalLoader package entry) bytes ⟨t, s.hierarchy, []⟩ = .error e s₁) :
    load package.library entry ⟨s, t⟩ =
      .error e ⟨{ s with hierarchy := s₁.hierarchy, loaded := s₁.loaded }, s₁.tree⟩ := by
  have hremembered : remembered [] entry (read (externalLoader package entry) bytes)
      ⟨t, s.hierarchy, []⟩ = .error e s₁ := by
    rw [remembered, bind_of_ok (get_apply _)]
    exact bind_of_error h
  rw [load, loadWithin_of_get hbytes, loading, hfresh, hremembered]

/-- The file that a session emits holds the module and the edges that the session knows. -/
theorem write_of_emit {s : Session} {t : Tree} {module : NodeId} {externals : List NodeId}
    {entry : String} {bytes : Bytes} (h : (s.emit t module externals).2 = .ok (entry, bytes)) :
    ∃ base next, write t module externals (s.registerClasses t module).hierarchy base =
      .ok (bytes, next) := by
  have hwrite : (write t module externals (s.registerClasses t module).hierarchy
      (s.registerClasses t module).options.sequenceBase).map
      (fun b => (attributeEntry (s.registerClasses t module).options.package
        ((t.identifier? module).getD ""), b.1)) = .ok (entry, bytes) := h
  cases hfile : write t module externals (s.registerClasses t module).hierarchy
      (s.registerClasses t module).options.sequenceBase with
  | error e =>
    rw [hfile] at hwrite
    cases hwrite
  | ok file =>
    obtain ⟨bytes', next⟩ := file
    rw [hfile] at hwrite
    cases hwrite
    exact ⟨_, next, hfile⟩

/-- The identity that a session takes for the super-class of a class. -/
def superIdentity (s : Session) (t : Tree) (id : NodeId) : ClassIdentity :=
  match t.prefixClass? id with
  | some p => s.classIdentity t p
  | none => .runtimeClass

/-- The edge that a node of a module stands for. -/
def edge? (s : Session) (t : Tree) (module id : NodeId) : Option (ClassIdentity × ClassIdentity) :=
  match t.kind id with
  | .classDeclaration => some (s.classIdentity t id, s.superIdentity t id)
  | .procedure =>
    if id = module then some (s.classIdentity t id, .runtimeProcedure) else none
  | _ => none

/-- Recording a node records the edge that it stands for. -/
theorem registerClass_eq (s : Session) (t : Tree) (module id : NodeId) :
    registerClass t module s id =
      { s with hierarchy := s.hierarchy.registerEdges (s.edge? t module id).toList } := by
  unfold registerClass edge?
  generalize t.kind id = kind
  cases kind with
  | classDeclaration => rfl
  | procedure =>
    dsimp only
    split <;> rfl
  | _ => rfl

/-- Recording the classes of a module records the edges that its nodes stand for, in order. -/
theorem registerClasses_eq (s : Session) (t : Tree) (module : NodeId) :
    s.registerClasses t module =
      { s with
        hierarchy := s.hierarchy.registerEdges
          ((t.registrationOrder module).filterMap (s.edge? t module)) } := by
  have hfold : ∀ (ids : List NodeId) (h : ClassHierarchy),
      ids.foldl (registerClass t module) { s with hierarchy := h } =
        { s with hierarchy := h.registerEdges (ids.filterMap (s.edge? t module)) } := by
    intro ids
    induction ids with
    | nil => exact fun h => rfl
    | cons id ids ih =>
      intro h
      have hedge : ({ s with hierarchy := h } : Session).edge? t module id =
          s.edge? t module id := rfl
      rw [List.foldl_cons, registerClass_eq, ih, hedge, List.filterMap_cons]
      cases s.edge? t module id <;> rfl
  exact hfold _ s.hierarchy

/-- Recording the classes of a module changes the hierarchy only. -/
theorem exists_registerClasses (s : Session) (t : Tree) (module : NodeId) :
    ∃ h, s.registerClasses t module = { s with hierarchy := h } :=
  ⟨_, s.registerClasses_eq t module⟩

/-- Recording the classes of a module leaves the options. -/
theorem options_registerClasses (s : Session) (t : Tree) (module : NodeId) :
    (s.registerClasses t module).options = s.options := by
  obtain ⟨h, hs⟩ := s.exists_registerClasses t module
  rw [hs]

/-- A module whose records can be written is emitted. -/
theorem emit_of_writeAll {s : Session} {t : Tree} {module : NodeId} {externals : List NodeId}
    {w : WriterState} (hkind : (t.kind module).isModule = true)
    (h : writeAll t module externals (s.registerClasses t module).hierarchy
      { next := s.options.sequenceBase } = .ok () w) :
    (s.emit t module externals).2 =
      .ok (attributeEntry s.options.package ((t.identifier? module).getD ""), w.out.toList) := by
  simp only [emit, write, options_registerClasses, hkind, if_true, h]
  rfl

/-- A class `A` that is alone in its tree. -/
def loneClass : Tree where
  nodes := #[⟨1, .declaration "A" none (.classDeclaration {})⟩]

/-- Nothing is left out of the file of a class that is alone. -/
theorem detached_loneClass : detached loneClass 0 [] = [] := by
  rw [detached, externalGraph, Graph.preorder_of_within 20 rfl]
  rfl

end Session

end Simula
