import Simula.Proofs.AttributeFile.Calls
import Simula.Proofs.Check.Prefixes
import Simula.Proofs.Session.Loading

/-!
# A session at work on several trees

A session may work on one tree after the other, and then back on the first. Its table of loaded
files knows the entries and the nodes of their modules, but not the trees that these nodes are in.
Every entry of the table has been read into the tree of some load since the session was last reset,
and its module and external declarations are nodes of that tree, whatever has been checked, emitted
or loaded since. A load of an entry in the table gives them back for any other tree as well.
-/

namespace Simula

open AttributeFile

/-- What neither loading nor checking changes of a node: its kind and its face. -/
def NodeData.profile (d : NodeData) : Kind × Option String × Option String := (d.kind, d.face)

/-- A check does not touch the kind and the face of a node. -/
theorem undisturbed_profile : Undisturbed NodeData.profile where
  protectedBy _ d := NodeData.view_withProtectedBy d fun _ _ _ => rfl
  hiddenBy _ d := NodeData.view_withHiddenBy d fun _ _ _ => rfl
  expressionType _ d := NodeData.view_withExpressionType d fun form _ => by cases form <;> rfl
  assigned _ d := NodeData.view_withAssigned d fun _ _ _ _ => rfl
  connectedClass _ _ d := NodeData.view_withConnectedClass d fun _ _ => rfl
  scope _ d := NodeData.view_withScope d (fun _ _ form => by cases form <;> rfl) fun _ => rfl
  labelIndex _ d := NodeData.view_withLabelIndex d fun _ _ _ => rfl
  labels _ _ d :=
    NodeData.view_modifyBody d (fun _ _ _ => rfl) (fun _ _ _ _ _ => rfl) fun _ _ _ => rfl

/-- The prefix class of a class shows neither in its kind nor in its face. -/
theorem NodeData.profile_withPrefixClass (p : Option NodeId) (d : NodeData) :
    (d.modifyClass (·.withPrefixClass p)).profile = d.profile :=
  view_modifyClass d fun _ _ _ => rfl

/-- Nor does the module behind an external declaration. -/
theorem profile_withModule (module : NodeId) (d : NodeData) :
    (withModule module d).profile = d.profile :=
  congrArg₂ Prod.mk (kind_withModule module d) (face_withModule module d)

namespace Session

/-! ## What a load enters in the table -/

/-- The file of an entry in the library has been read, and the nodes of the tree that it was read
into are still in the tree, with their profiles. -/
def ReadInto (library : AttributeLibrary) (t : Tree) (entry : String) (m : LoadedModule) : Prop :=
  ∃ bytes depth inProgress s s', library.read entry = .ok bytes ∧
    read (loadExternal (loadWithin library depth inProgress)) bytes s = .ok m s' ∧
    s'.tree.Keeps NodeData.profile t

/-- Every entry of the later table has been in the earlier one, or has been read into the tree. -/
structure Enters (library : AttributeLibrary) (s s' : LoadState) : Prop where
  tree : s.tree.Keeps NodeData.profile s'.tree
  rows : ∀ entry m, (entry, m) ∈ s'.loaded →
    (entry, m) ∈ s.loaded ∨ ReadInto library s'.tree entry m

section

variable {library : AttributeLibrary}

/-- What has been read into a tree stays there. -/
theorem ReadInto.mono {t t' : Tree} {entry : String} {m : LoadedModule}
    (h : ReadInto library t entry m) (ht : t.Keeps NodeData.profile t') :
    ReadInto library t' entry m := by
  obtain ⟨bytes, depth, inProgress, s, s', hbytes, hread, hkeeps⟩ := h
  exact ⟨bytes, depth, inProgress, s, s', hbytes, hread, hkeeps.trans ht⟩

/-- Loading nothing enters nothing. -/
theorem Enters.refl (s : LoadState) : Enters library s s := ⟨.refl s.tree, fun _ _ => .inl⟩

/-- A change that enters nothing. -/
theorem Enters.of_keeps {s s' : LoadState} (ht : s.tree.Keeps NodeData.profile s'.tree)
    (hloaded : s'.loaded = s.loaded) : Enters library s s' :=
  ⟨ht, fun _ _ hrow => .inl (hloaded ▸ hrow)⟩

/-- What is entered step by step is entered. -/
theorem Enters.trans {s s₁ s₂ : LoadState} (h : Enters library s s₁) (h' : Enters library s₁ s₂) :
    Enters library s s₂ where
  tree := h.tree.trans h'.tree
  rows entry m hrow := by
    rcases h'.rows entry m hrow with hrow | hread
    · exact (h.rows entry m hrow).imp id fun hread => hread.mono h'.tree
    · exact .inr hread

section

variable {load : String → Loading LoadedModule}
variable (hload : ∀ file s, Ends (load file) s (fun _ => Enters library s) (Enters library s))
include hload

/-- A call of the loader enters what it enters for the file that is named. -/
theorem loadExternal_enters {s s₁ : LoadState} {c : LoaderCall} (h : Enters library s s₁)
    (hc : c.Begins s₁) :
    Ends (loadExternal load c.external) c.state (fun _ => Enters library s)
      (Enters library s) := by
  obtain ⟨i, scope, k, file, hdata⟩ := hc.unlinked
  have hbegun : Enters library s c.state := h.trans (.of_keeps hc.tree.keeps hc.loaded)
  refine (loadExternal_ends hdata (hload file c.state)).mono ?_ ?_
  · exact fun _ _ ⟨m, hm, _⟩ => hbegun.trans hm
  · exact fun _ hs => hbegun.trans (hs.elim id fun ⟨m, hm⟩ => hm)

/-- Reading a file enters what loading its external declarations enters. -/
theorem carried_enters (s : LoadState) :
    Carried (loadExternal load) (fun _ => Enters library s) (fun _ => Enters library s) where
  grow h ht hloaded := h.trans (.of_keeps ht.keeps hloaded)
  fail := id
  call_ok h hc hok := ((loadExternal_enters hload h hc).ok hok).trans
    (.of_keeps (.update _ _ (profile_withModule _)) rfl)
  call_error h hc herror := (loadExternal_enters hload h hc).error herror

end

/-- A load enters only what it reads into the tree, and the entry itself if it succeeds. -/
theorem loadWithin_enters (depth : Nat) (inProgress : List String) (entry : String)
    (s : LoadState) :
    Ends (loadWithin library depth inProgress entry) s
      (fun m s' => Enters library s s' ∧ (entry, m) ∈ s'.loaded) (Enters library s) := by
  induction depth generalizing inProgress entry s with
  | zero =>
    exact remembered_ends (fun m hm => ⟨.refl s, mem_of_lookup hm⟩) (fun _ _ => .refl s)
      fun _ _ => .of_error rfl (.refl s)
  | succ depth ih =>
    refine remembered_ends (fun m hm => ⟨.refl s, mem_of_lookup hm⟩) (fun _ _ => .refl s) ?_
    intro _ _
    cases hbytes : library.read entry with
    | error e => exact .of_error rfl (.refl s)
    | ok bytes =>
      have hload : ∀ file s, Ends (loadWithin library depth (entry :: inProgress) file) s
          (fun _ => Enters library s) (Enters library s) := fun file s =>
        (ih (entry :: inProgress) file s).mono (fun _ _ h => h.1) fun _ => id
      have hread := (carried_enters hload s).read bytes (.refl s)
      cases hfile :
        read (loadExternal (loadWithin library depth (entry :: inProgress))) bytes s with
      | error e s' => exact .of_error hfile (hread.error hfile)
      | ok m s' =>
        refine .of_ok hfile ⟨(hread.ok hfile).1.trans ⟨.refl _, ?_⟩, List.mem_cons_self⟩
        intro entry' m' hrow
        rcases List.mem_cons.mp hrow with heq | hrow
        · cases heq
          exact .inr ⟨bytes, depth, _, s, s', hbytes, hfile, .refl _⟩
        · exact .inl hrow

end

/-- A loaded module belongs to a tree: it is a class or procedure there, read from the file of the
entry, and its external declarations are external declarations there. -/
structure Belongs (library : AttributeLibrary) (t : Tree) (entry : String) (m : LoadedModule) :
    Prop where
  module_lt : m.module < t.size
  module_kind : (t.kind m.module).isModule = true
  externals : ∀ x ∈ m.externals, x < t.size ∧ t.kind x = .externalDeclaration
  read : ReadInto library t entry m

/-- What has been read into a tree belongs to it. -/
theorem ReadInto.belongs {library : AttributeLibrary} {t : Tree} {entry : String}
    {m : LoadedModule} (h : ReadInto library t entry m) : Belongs library t entry m := by
  obtain ⟨bytes, depth, inProgress, s, s', -, hread, hkeeps⟩ := id h
  have hkind : ∀ {x}, s'.tree.kind x ≠ .null → x < t.size ∧ t.kind x = s'.tree.kind x := by
    intro x hx
    have hlt := Tree.lt_of_kind hx
    exact ⟨Nat.lt_of_lt_of_le hlt hkeeps.size_le, congrArg Prod.fst (hkeeps.same x hlt)⟩
  have hmodule := isModule_of_read hread
  obtain ⟨hlt, heq⟩ := hkind (x := m.module) (by rintro hnull; rw [hnull] at hmodule; cases hmodule)
  refine ⟨hlt, heq ▸ hmodule, fun x hx => ?_, h⟩
  have hexternal := kind_externals
    (loadExternal_follows fun file => loadWithin_follows library depth inProgress file) hread x hx
  obtain ⟨hlt, heq⟩ := hkind (x := x) (by rw [hexternal]; exact nofun)
  exact ⟨hlt, heq.trans hexternal⟩

/-- A check enters nothing in the table, and leaves the profiles of the nodes. -/
theorem check_keeps (module : NodeId) (c : Compilation) :
    c.tree.Keeps NodeData.profile (leaves (check module) c).tree ∧
      (leaves (check module) c).session.loaded = c.session.loaded := by
  have hchecking : leaves (check module) c = leaves (checking (CheckM.check module)) c := by
    rw [check]
    cases h : checking (CheckM.check module) c with
    | error e c' => rw [leaves_of_error (bind_of_error h), leaves_of_error h]
    | ok _ c' =>
      rw [leaves_bind_of_ok h, leaves_bind_of_ok (get_apply c'), leaves_of_ok h]
      dsimp only
      split <;> rfl
  obtain ⟨session, tree⟩ := c
  have hkeeps : tree.Keeps NodeData.profile
      (leaves (CheckM.check module) ⟨tree, session.diagnostics⟩).tree :=
    Tree.Keeps.trans
      (CheckState.withPrefixes_keeps NodeData.profile_withPrefixClass
        ⟨tree, session.diagnostics⟩ module)
      (CheckM.check_keeps undisturbed_profile module ⟨tree, session.diagnostics⟩)
  rw [hchecking]
  cases h : CheckM.check module ⟨tree, session.diagnostics⟩ with
  | error e r =>
    rw [leaves_of_error h] at hkeeps
    rw [leaves, checking, h]
    exact ⟨hkeeps, rfl⟩
  | ok _ r =>
    rw [leaves_of_ok h] at hkeeps
    rw [leaves, checking, h]
    exact ⟨hkeeps, rfl⟩

end Session

/-! ## Runs of a session -/

/-- A session and the trees that it works on. -/
structure Workspace where
  session : Session
  trees : List Tree

/-- The operations of a session on trees of its workspace. -/
inductive Operation
  | newTree
  | load (tree : Nat) (library : AttributeLibrary) (entry : String)
  | check (tree : Nat) (module : NodeId)
  | emit (tree : Nat) (module : NodeId) (externals : List NodeId)
  | reset

namespace Workspace

/-- The workspace after an operation on one of its trees, whether it succeeds or not. -/
def onTree {α : Type} (w : Workspace) (i : Nat) (x : SessionM α) : Workspace :=
  match w.trees[i]? with
  | none => w
  | some t =>
    let c := leaves x ⟨w.session, t⟩
    ⟨c.session, w.trees.set i c.tree⟩

/-- The workspace after an operation; one on a tree that is not there changes nothing. -/
def perform (w : Workspace) : Operation → Workspace
  | .newTree => { w with trees := w.trees ++ [w.session.newTree] }
  | .load i library entry => w.onTree i (Session.load library entry)
  | .check i module => w.onTree i (Session.check module)
  | .emit i module externals =>
    match w.trees[i]? with
    | none => w
    | some t => { w with session := (w.session.emit t module externals).1 }
  | .reset => { w with session := w.session.reset }

/-- The workspace after some operations, the latest first. -/
def after (w : Workspace) : List Operation → Workspace
  | [] => w
  | op :: earlier => (w.after earlier).perform op

end Workspace

/-- The operations since the session was last reset, of some operations, the latest first. -/
def sinceReset : List Operation → List Operation
  | [] => []
  | .reset :: _ => []
  | op :: earlier => op :: sinceReset earlier

namespace Session

/-- Every entry of the table has been read into the tree of a load since the last reset. -/
def Located (w : Workspace) (ops : List Operation) : Prop :=
  ∀ entry m, (entry, m) ∈ w.session.loaded → ∃ j library e t,
    Operation.load j library e ∈ sinceReset ops ∧ w.trees[j]? = some t ∧
      ReadInto library t entry m

section

variable {w : Workspace} {ops : List Operation}

/-- An operation that reads no entry, and leaves all trees, changes no place. -/
theorem Located.mono {w' : Workspace} {op : Operation} (h : Located w ops)
    (hop : sinceReset (op :: ops) = op :: sinceReset ops)
    (hloaded : w'.session.loaded = w.session.loaded)
    (htrees : ∀ (j : Nat) (t : Tree), w.trees[j]? = some t → w'.trees[j]? = some t) :
    Located w' (op :: ops) := by
  intro entry m hrow
  obtain ⟨j, library, e, t, hmem, ht, hread⟩ := h entry m (hloaded ▸ hrow)
  exact ⟨j, library, e, t, hop ▸ List.mem_cons_of_mem _ hmem, htrees j t ht, hread⟩

/-- An operation on one tree leaves what has been read there, and what it reads itself is there
too. -/
theorem Located.set {op : Operation} {i : Nat} {t : Tree} {c : Compilation} (h : Located w ops)
    (hop : sinceReset (op :: ops) = op :: sinceReset ops) (ht : w.trees[i]? = some t)
    (hkeeps : t.Keeps NodeData.profile c.tree)
    (hrows : ∀ entry m, (entry, m) ∈ c.session.loaded → (entry, m) ∈ w.session.loaded ∨
      ∃ library e, op = .load i library e ∧ ReadInto library c.tree entry m) :
    Located ⟨c.session, w.trees.set i c.tree⟩ (op :: ops) := by
  intro entry m hrow
  have hset : (w.trees.set i c.tree)[i]? = some c.tree :=
    List.getElem?_set_self (List.getElem?_eq_some_iff.mp ht).1
  rcases hrows entry m hrow with hold | ⟨library, e, rfl, hread⟩
  · obtain ⟨j, library, e, t', hmem, ht', hread⟩ := h entry m hold
    have hmem' : Operation.load j library e ∈ sinceReset (op :: ops) :=
      hop ▸ List.mem_cons_of_mem _ hmem
    by_cases hj : j = i
    · subst hj
      obtain rfl : t' = t := Option.some.inj (ht'.symm.trans ht)
      exact ⟨j, library, e, c.tree, hmem', hset, hread.mono hkeeps⟩
    · exact ⟨j, library, e, t', hmem', (List.getElem?_set_ne (Ne.symm hj)).trans ht', hread⟩
  · exact ⟨i, library, e, c.tree, hop ▸ List.mem_cons_self, hset, hread⟩

/-- Every operation leaves the entries of the table in the trees of loads since the last reset. -/
theorem Located.perform (h : Located w ops) (op : Operation) :
    Located (w.perform op) (op :: ops) := by
  cases op with
  | newTree =>
    refine h.mono rfl rfl fun j t ht => ?_
    exact (List.getElem?_append_left (List.getElem?_eq_some_iff.mp ht).1).trans ht
  | load i library entry =>
    rw [Workspace.perform, Workspace.onTree]
    cases ht : w.trees[i]? with
    | none => exact h.mono rfl rfl fun _ _ => id
    | some t =>
      have henters : Enters library ⟨t, w.session.hierarchy, w.session.loaded⟩
          (leaves (Session.load library entry) ⟨w.session, t⟩).loadState :=
        Ends.iff_leaves.mp (loading_ends (c := ⟨w.session, t⟩)
          ((loadWithin_enters library.chainBound [] entry _).mono (fun _ _ h => h.1) fun _ => id))
      exact h.set rfl ht henters.tree fun entry' m hrow =>
        (henters.rows entry' m hrow).imp id fun hread => ⟨library, entry, rfl, hread⟩
  | check i module =>
    rw [Workspace.perform, Workspace.onTree]
    cases ht : w.trees[i]? with
    | none => exact h.mono rfl rfl fun _ _ => id
    | some t =>
      obtain ⟨hkeeps, hloaded⟩ := check_keeps module ⟨w.session, t⟩
      exact h.set rfl ht hkeeps fun entry m hrow => .inl (hloaded ▸ hrow)
  | emit i module externals =>
    rw [Workspace.perform]
    cases ht : w.trees[i]? with
    | none => exact h.mono rfl rfl fun _ _ => id
    | some t =>
      obtain ⟨hierarchy, hsession⟩ := w.session.exists_registerClasses t module
      have hloaded : (w.session.emit t module externals).1.loaded = w.session.loaded := by
        change (w.session.registerClasses t module).loaded = _
        rw [hsession]
      exact h.mono rfl hloaded fun _ _ => id
  | reset =>
    intro entry m hrow
    cases hrow

/-- After every run that has started with an empty table, its entries are in the trees of loads
since the last reset. -/
theorem located_after (hfresh : w.session.loaded = []) (ops : List Operation) :
    Located (w.after ops) ops := by
  induction ops with
  | nil =>
    intro entry m hrow
    rw [Workspace.after, hfresh] at hrow
    cases hrow
  | cons op earlier ih => exact ih.perform op

end

/-- An entry in the table is not read again. -/
theorem load_of_lookup (library : AttributeLibrary) {session : Session} {t : Tree} {entry : String}
    {m : LoadedModule} (h : session.loaded.lookup entry = some m) :
    load library entry ⟨session, t⟩ = .ok m ⟨session, t⟩ := by
  have hwithin : ∀ depth, loadWithin library depth [] entry ⟨t, session.hierarchy, session.loaded⟩ =
      .ok m ⟨t, session.hierarchy, session.loaded⟩ := by
    intro depth
    cases depth <;> rw [loadWithin, remembered, bind_of_ok (get_apply _), h] <;> rfl
  rw [load, loading, hwithin]

/-- **The tree of a loaded module.** In every run of a session over its trees, a load that succeeds
gives a module that belongs to the tree of a load since the last reset. That is the tree of the load
at hand if the entry was not in the table, or if all these loads were into that tree. A load of an
entry in the table gives what the table has, and changes no tree. -/
theorem load_belongs {w : Workspace} (hfresh : w.session.loaded = []) (ops : List Operation)
    {i : Nat} {t : Tree} (ht : (w.after ops).trees[i]? = some t) {library : AttributeLibrary}
    {entry : String} {m : LoadedModule} {c : Compilation}
    (hload : load library entry ⟨(w.after ops).session, t⟩ = .ok m c) :
    (∃ j library' e t', Operation.load j library' e ∈ sinceReset (.load i library entry :: ops) ∧
      (w.after (.load i library entry :: ops)).trees[j]? = some t' ∧ Belongs library' t' entry m) ∧
    ((w.after ops).session.loaded.lookup entry = none → Belongs library c.tree entry m) ∧
    ((∀ j library' e, Operation.load j library' e ∈ sinceReset ops → j = i) →
      ∃ library', Belongs library' c.tree entry m) ∧
    ∀ m', (w.after ops).session.loaded.lookup entry = some m' →
      m = m' ∧ c = ⟨(w.after ops).session, t⟩ := by
  have hafter : w.after (.load i library entry :: ops) =
      ⟨c.session, (w.after ops).trees.set i c.tree⟩ := by
    rw [Workspace.after, Workspace.perform, Workspace.onTree, ht]
    simp only [leaves_of_ok hload]
  obtain ⟨henters, hmem⟩ := (loading_ends (c := ⟨(w.after ops).session, t⟩)
    (loadWithin_enters library.chainBound [] entry _)).ok hload
  obtain ⟨j, library', e, t', hsince, ht', hread⟩ :=
    located_after hfresh (.load i library entry :: ops) entry m (by rw [hafter]; exact hmem)
  refine ⟨⟨j, library', e, t', hsince, ht', hread.belongs⟩, fun hnew => ?_, fun hsame => ?_, ?_⟩
  · rcases henters.rows entry m hmem with hold | hread
    · have hne := List.lookup_eq_none_iff.mp hnew _ hold
      simp at hne
    · exact hread.belongs
  · have hj : j = i := by
      rcases List.mem_cons.mp hsince with heq | hsince
      · cases heq
        rfl
      · exact hsame j library' e hsince
    rw [hafter, hj, List.getElem?_set_self (List.getElem?_eq_some_iff.mp ht).1] at ht'
    obtain rfl := Option.some.inj ht'
    exact ⟨library', hread.belongs⟩
  · intro m' hm'
    have hknown := load_of_lookup library (t := t) hm'
    cases hload.symm.trans hknown
    exact ⟨rfl, rfl⟩

/-- The file of an empty class `A`. -/
def emptyClassFile : Bytes :=
  plainHeader ++
  [3, 31, 65, 0, 1, 0, 2, 0, 65, 0, 0, 0, 0, 0, 0, 0, 0, 0, 0, 0, 0, 0, 0, 0, 0, 0, 0, 0]

/-- A package with that file. -/
def oneClass : Package := ⟨[("simula/user/A.atr", some emptyClassFile)], by decide⟩

/-- A new session loads a class into its first tree, and makes a second tree. -/
def firstTreeLoaded : List Operation :=
  [.newTree, .load 0 oneClass.library "simula/user/A.atr", .newTree]

/-- The class is then loaded into the second tree, which stays empty: its module is node 0 of the
first. -/
theorem load_belongs_secondTree :
    let w : Workspace := ⟨{}, []⟩
    let second := Operation.load 1 oneClass.library "simula/user/A.atr"
    ∃ m c, (w.after firstTreeLoaded).trees[1]? = some ({} : Tree) ∧
      load oneClass.library "simula/user/A.atr" ⟨(w.after firstTreeLoaded).session, {}⟩ =
        .ok m c ∧
      c.tree.size = 0 ∧ m.module = 0 ∧
      ∃ library t, (w.after (second :: firstTreeLoaded)).trees[0]? = some t ∧
        Belongs library t "simula/user/A.atr" m := by
  intro w second
  have htree : (w.after firstTreeLoaded).trees[1]? = some ({} : Tree) := by decide +kernel
  have hload : succeedsWith (load oneClass.library "simula/user/A.atr")
      ⟨(w.after firstTreeLoaded).session, {}⟩
      (fun m c => m.module = 0 ∧ c.tree.size = 0) = true := by
    decide +kernel
  obtain ⟨m, c, hload, htest⟩ := exists_of_succeedsWith hload
  obtain ⟨hmodule, hsize⟩ := of_decide_eq_true htest
  obtain ⟨⟨j, library, e, t, hsince, ht, hbelongs⟩, -⟩ :=
    load_belongs (w := w) rfl firstTreeLoaded htree hload
  refine ⟨m, c, htree, hload, hsize, hmodule, library, t, ?_, hbelongs⟩
  have hempty : (w.after (second :: firstTreeLoaded)).trees[1]? = some ({} : Tree) := by
    decide +kernel
  have hj : j = 1 ∨ j = 0 := by
    simp only [sinceReset, firstTreeLoaded, List.mem_cons, Operation.load.injEq, reduceCtorEq,
      List.not_mem_nil, or_false, false_or] at hsince
    exact hsince.imp And.left And.left
  rcases hj with rfl | rfl
  · rw [hempty] at ht
    cases ht
    exact absurd hbelongs.module_lt (Nat.not_lt_zero _)
  · exact ht

end Session

end Simula
