import Mathlib.Logic.Relation
import Simula.Proofs.AttributeFile.Bounds
import Simula.Proofs.AttributeFile.Calls
import Simula.Proofs.Session.Decoding

/-!
# The files that a load depends on

Reading a file loads the files that it names, and those may name others in turn, or lead back. A
file is entered in the table of loaded files after those that it names, so every file in the table
names only files behind it. A file that leads back to itself can never be entered.
-/

namespace Simula

open AttributeFile

namespace Session

/-! ## The table of loaded files -/

/-- The external declaration is linked to the module that the table has for its file, and that is of
the announced kind. -/
def Linked (t : Tree) (table : List (String × LoadedModule)) (external : NodeId) : Prop :=
  ∃ i scope k file m, t.data external = .declaration i scope (.external k file (some m.module)) ∧
    (file, m) ∈ table ∧ m.module < t.size ∧ t.kind m.module = k

/-- The file of an entry has been read into the tree, and every file that it names is behind it in
the table, with the module that it is linked to. -/
structure ReadBefore (library : AttributeLibrary) (t : Tree) (entry : String) (m : LoadedModule)
    (rest : List (String × LoadedModule)) : Prop where
  fresh : entry ∉ rest.map (·.1)
  module : (t.kind m.module).isModule = true
  names : ∃ bytes, library.read entry = .ok bytes ∧
    m.externals.filterMap (fun x => (t.data x).file?) = named t.caseRule bytes
  linked : ∀ x ∈ m.externals, Linked t rest x

/-- Every entry of the table has been read before those in front of it. -/
def Sound (library : AttributeLibrary) (s : LoadState) : Prop :=
  ∀ entry m rest, (entry, m) :: rest <:+ s.loaded → ReadBefore library s.tree entry m rest

end Session

/-- The later tree has all nodes of the earlier one, with their kinds, and external declarations
that were linked stay as they were. -/
structure Tree.KeepsLinks (t t' : Tree) : Prop extends t.Keeps NodeData.kind t' where
  caseRule : t'.caseRule = t.caseRule
  data_eq : ∀ {id i scope k file module},
    t.data id = .declaration i scope (.external k file (some module)) → t'.data id = t.data id

/-- Nodes that stay as they are keep their links. -/
theorem Tree.Extends.keepsLinks {t t' : Tree} (h : t.Extends t') : t.KeepsLinks t' where
  toKeeps := h.keeps
  caseRule := h.caseRule
  data_eq hdata := h.data_eq (lt_of_data (by rw [hdata]; exact nofun))

/-- Linking an external declaration that was not linked keeps the others. -/
theorem Tree.keepsLinks_update {t : Tree} {external : NodeId} {i : String} {scope : Option NodeId}
    {k : Kind} {file : String}
    (hdata : t.data external = .declaration i scope (.external k file none)) (module : NodeId) :
    t.KeepsLinks (t.update external (withModule module)) where
  toKeeps := .update t external (kind_withModule module)
  caseRule := rfl
  data_eq {id _ _ _ _ _} hid := by
    refine data_update_of_ne _ ?_
    rintro rfl
    cases hdata.symm.trans hid

namespace Session

section

variable {library : AttributeLibrary} {t t' : Tree} {table table' : List (String × LoadedModule)}

/-- A linked external declaration stays as it is while links are kept. -/
theorem Linked.data_eq {x : NodeId} (h : Linked t table x) (ht : t.KeepsLinks t') :
    t'.data x = t.data x := by
  obtain ⟨i, scope, k, file, m, hdata, -⟩ := h
  exact ht.data_eq hdata

/-- Links stay while the table grows. -/
theorem Linked.mono {x : NodeId} (h : Linked t table x) (ht : t.KeepsLinks t')
    (htable : table ⊆ table') : Linked t' table' x := by
  have hx := h.data_eq ht
  obtain ⟨i, scope, k, file, m, hdata, hmem, hlt, hkind⟩ := h
  exact ⟨i, scope, k, file, m, hx.trans hdata, htable hmem, Nat.lt_of_lt_of_le hlt ht.size_le,
    (ht.same _ hlt).trans hkind⟩

/-- What has been read stays read while links are kept. -/
theorem ReadBefore.mono {entry : String} {m : LoadedModule}
    (h : ReadBefore library t entry m table) (ht : t.KeepsLinks t') :
    ReadBefore library t' entry m table where
  fresh := h.fresh
  module := by
    rw [Tree.kind, ht.same _ (Tree.lt_of_isModule h.module)]
    exact h.module
  names := by
    obtain ⟨bytes, hbytes, hnames⟩ := h.names
    refine ⟨bytes, hbytes, ?_⟩
    rw [ht.caseRule, ← hnames]
    exact List.filterMap_congr fun x hx => by rw [(h.linked x hx).data_eq ht]
  linked x hx := (h.linked x hx).mono ht (List.Subset.refl _)

/-- A sound table stays sound while links are kept. -/
theorem Sound.mono {s s' : LoadState} (h : Sound library s) (ht : s.tree.KeepsLinks s'.tree)
    (hloaded : s'.loaded = s.loaded) : Sound library s' :=
  fun entry m rest hrest => (h entry m rest (hloaded ▸ hrest)).mono ht

/-- An entry whose file has been read is added to the table. -/
theorem Sound.cons {s : LoadState} {entry : String} {m : LoadedModule} (h : Sound library s)
    (hm : ReadBefore library s.tree entry m s.loaded) :
    Sound library { s with loaded := (entry, m) :: s.loaded } := by
  intro entry' m' rest hrest
  rcases List.suffix_cons_iff.mp hrest with heq | hrest
  · cases heq
    exact hm
  · exact h entry' m' rest hrest

/-- An entry of the table stands before the rest of it. -/
theorem Sound.exists_readBefore {s : LoadState} (h : Sound library s) {entry : String}
    {m : LoadedModule} (hm : (entry, m) ∈ s.loaded) :
    ∃ rest, (entry, m) :: rest <:+ s.loaded ∧ ReadBefore library s.tree entry m rest := by
  obtain ⟨front, rest, hloaded⟩ := List.append_of_mem hm
  have hsuffix : (entry, m) :: rest <:+ s.loaded := ⟨front, hloaded.symm⟩
  exact ⟨rest, hsuffix, h entry m rest hsuffix⟩

end

/-! ## What a load leaves behind -/

/-- The table is in order, and has none of the entries in progress. -/
structure Ready (library : AttributeLibrary) (inProgress : List String) (s : LoadState) : Prop where
  sound : Sound library s
  unread : ∀ entry ∈ inProgress, entry ∉ s.entries

/-- Loading has gone on: nodes have been appended, the table has grown, and is still in order. -/
structure Advances (library : AttributeLibrary) (inProgress : List String) (s s' : LoadState) :
    Prop extends Ready library inProgress s' where
  tree : s.tree.Extends s'.tree
  loaded : s.loaded <:+ s'.loaded

section

variable {library : AttributeLibrary} {inProgress : List String} {s s₁ s₂ : LoadState}

/-- What is ready stays ready while links are kept. -/
theorem Ready.mono (h : Ready library inProgress s) (ht : s.tree.KeepsLinks s₁.tree)
    (hloaded : s₁.loaded = s.loaded) : Ready library inProgress s₁ where
  sound := h.sound.mono ht hloaded
  unread entry hentry := by
    rw [LoadState.entries, hloaded]
    exact h.unread entry hentry

/-- Loading nothing advances. -/
theorem Ready.advances (h : Ready library inProgress s) : Advances library inProgress s s :=
  ⟨h, .refl s.tree, List.suffix_refl _⟩

/-- Loading advances step by step. -/
theorem Advances.trans (h : Advances library inProgress s s₁)
    (h' : Advances library inProgress s₁ s₂) : Advances library inProgress s s₂ :=
  ⟨h'.toReady, h.tree.trans h'.tree, h.loaded.trans h'.loaded⟩

/-- Reading on in the file at hand changes nothing about the table. -/
theorem Advances.grow (h : Advances library inProgress s s₁) (ht : s₁.tree.Extends s₂.tree)
    (hloaded : s₂.loaded = s₁.loaded) : Advances library inProgress s s₂ :=
  ⟨h.toReady.mono ht.keepsLinks hloaded, h.tree.trans ht, hloaded ▸ h.loaded⟩

variable {load : String → Loading LoadedModule}
variable (hload : ∀ file s, Ready library inProgress s →
  Ends (load file) s (fun m s' => Advances library inProgress s s' ∧ (file, m) ∈ s'.loaded)
    (Advances library inProgress s))
include hload

/-- While a file is read, the table stays in order, and the external declarations so far are
linked. -/
theorem carried_linked (s : LoadState) :
    Carried (loadExternal load)
      (fun cs s' => Advances library inProgress s s' ∧ ∀ c ∈ cs,
        Linked s'.tree s'.loaded c.external ∧ (s'.tree.data c.external).file? = c.file?)
      (fun _ s' => Advances library inProgress s s') where
  grow h ht hloaded := by
    refine ⟨h.1.grow ht hloaded, fun c hc => ?_⟩
    obtain ⟨hlinked, hfile⟩ := h.2 c hc
    rw [hlinked.data_eq ht.keepsLinks, hloaded]
    exact ⟨hlinked.mono ht.keepsLinks (List.Subset.refl _), hfile⟩
  fail h := h.1
  call_ok {cs s₁ c module s₂} h hc hcall := by
    obtain ⟨i, scope, k, file, hdata⟩ := hc.unlinked
    have hbegun := h.1.grow hc.tree hc.loaded
    obtain ⟨m, ⟨hstep, hmem⟩, hkind, rfl⟩ :=
      (loadExternal_ends hdata (hload file c.state hbegun.toReady)).ok hcall
    have hlt : c.external < c.state.tree.size := Tree.lt_of_data (by rw [hdata]; exact nofun)
    have hdata₂ := (hstep.tree.data_eq hlt).trans hdata
    have hlinks := Tree.keepsLinks_update hdata₂ m.module
    have hlt₂ : c.external < s₂.tree.size := Nat.lt_of_lt_of_le hlt hstep.tree.size_le
    have hall := hbegun.trans hstep
    have hle : s.tree.size ≤ c.external := hc.external ▸ h.1.tree.size_le
    refine ⟨⟨hall.toReady.mono hlinks rfl, hall.tree.update hle _, hall.loaded⟩, fun c' hc' => ?_⟩
    rcases List.mem_append.mp hc' with hold | hnew
    · -- An earlier declaration was linked before, and stays so.
      obtain ⟨hlinked, hfile⟩ := h.2 c' hold
      have hlinked₂ : Linked s₂.tree s₂.loaded c'.external :=
        hlinked.mono (hc.tree.trans hstep.tree).keepsLinks (hc.loaded ▸ hstep.loaded.subset)
      refine ⟨hlinked₂.mono hlinks (List.Subset.refl _), ?_⟩
      rw [LoadState.link, hlinked₂.data_eq hlinks,
        hlinked.data_eq (hc.tree.trans hstep.tree).keepsLinks, hfile]
    · obtain rfl := List.mem_singleton.mp hnew
      obtain ⟨rest, -, hrest⟩ := hstep.sound.exists_readBefore hmem
      have hmodule := Tree.lt_of_isModule hrest.module
      have hnow := Tree.data_update_self (withModule m.module) hlt₂
      rw [hdata₂] at hnow
      refine ⟨⟨i, scope, k, file, m, hnow, hmem, ?_, ?_⟩, ?_⟩
      · exact Nat.lt_of_lt_of_le hmodule hlinks.size_le
      · exact (hlinks.same _ hmodule).trans hkind
      · rw [LoadState.link, hnow, LoaderCall.file?, hdata]
        rfl
  call_error {cs s₁ c e s₂} h hc hcall := by
    obtain ⟨i, scope, k, file, hdata⟩ := hc.unlinked
    have hbegun := h.1.grow hc.tree hc.loaded
    rcases (loadExternal_ends hdata (hload file c.state hbegun.toReady)).error hcall with
      hstep | ⟨m, hstep, -⟩
    · exact hbegun.trans hstep
    · exact hbegun.trans hstep

/-- A file that can be read names only files that are in the table by then. -/
theorem read_ends (hfollows : ∀ file, Follows LoadState.Extends (load file)) {entry : String}
    {bytes : Bytes} (hentry : entry ∈ inProgress) (hbytes : library.read entry = .ok bytes)
    (hs : Ready library inProgress s) :
    Ends (read (loadExternal load) bytes) s
      (fun m s' => Advances library inProgress s s' ∧
        ReadBefore library s'.tree entry m s'.loaded)
      (Advances library inProgress s) := by
  have hread := (carried_linked hload s).read bytes ⟨hs.advances, nofun⟩
  cases hfile : read (loadExternal load) bytes s with
  | error e s' => exact .of_error hfile (hread.error hfile)
  | ok m s' =>
    obtain ⟨⟨hstep, hcalls⟩, hexternals⟩ := hread.ok hfile
    refine .of_ok hfile ⟨hstep, ?_⟩
    refine ⟨hstep.unread entry hentry, isModule_of_read hfile, ⟨bytes, hbytes, ?_⟩, ?_⟩
    · rw [hstep.tree.caseRule, ← filterMap_file?_calls (loadExternal_follows hfollows) hfile,
        hexternals, List.filterMap_map]
      exact List.filterMap_congr fun c hc => (hcalls c hc).2
    · rw [hexternals]
      exact List.forall_mem_map.mpr fun c hc => (hcalls c hc).1

end

/-- A load leaves the table in order, with the entry in it if it succeeds. -/
theorem loadWithin_ends (library : AttributeLibrary) (depth : Nat) (inProgress : List String)
    (entry : String) (s : LoadState) (hs : Ready library inProgress s) :
    Ends (loadWithin library depth inProgress entry) s
      (fun m s' => Advances library inProgress s s' ∧ (entry, m) ∈ s'.loaded)
      (Advances library inProgress s) := by
  induction depth generalizing inProgress entry s with
  | zero =>
    exact remembered_ends (fun m hm => ⟨hs.advances, mem_of_lookup hm⟩) (fun _ _ => hs.advances)
      fun _ _ => .of_error rfl hs.advances
  | succ depth ih =>
    refine remembered_ends (fun m hm => ⟨hs.advances, mem_of_lookup hm⟩) (fun _ _ => hs.advances) ?_
    intro hnew hin
    cases hbytes : library.read entry with
    | error e => exact .of_error rfl hs.advances
    | ok bytes =>
      have hstart : Ready library (entry :: inProgress) s := by
        refine ⟨hs.sound, List.forall_mem_cons.mpr ⟨fun hmem => ?_, hs.unread⟩⟩
        obtain ⟨e, he, hentry⟩ := List.mem_map.mp hmem
        have hne := List.lookup_eq_none_iff.mp hnew e he
        simp [hentry] at hne
      refine (read_ends (ih (entry :: inProgress)) (loadWithin_follows library depth _)
        List.mem_cons_self hbytes hstart).mono ?_ ?_
      · intro m s' ⟨hstep, hm⟩
        refine ⟨⟨⟨hstep.sound.cons hm, fun f hf => ?_⟩, hstep.tree, ?_⟩, List.mem_cons_self⟩
        · refine List.not_mem_cons_of_ne_of_not_mem ?_ (hstep.unread f (List.mem_cons_of_mem _ hf))
          rintro rfl
          exact hin hf
        · exact hstep.loaded.trans (List.suffix_cons _ _)
      · intro s' hstep
        exact ⟨⟨hstep.sound, fun f hf => hstep.unread f (List.mem_cons_of_mem _ hf)⟩, hstep.tree,
          hstep.loaded⟩

/-! ## Dependencies -/

/-- The file of an entry has the record of an external declaration that names the other. -/
def Names (library : AttributeLibrary) (rule : CaseRule) (entry file : String) : Prop :=
  ∃ bytes, library.read entry = .ok bytes ∧ file ∈ named rule bytes

namespace Sound

variable {library : AttributeLibrary} {s : LoadState} (h : Sound library s)
include h

section

variable {entry file : String} {m : LoadedModule} {rest : List (String × LoadedModule)}
variable (hrest : (entry, m) :: rest <:+ s.loaded)
include hrest

/-- A file in the table names only files behind it. -/
theorem mem_of_names (hnames : Names library s.tree.caseRule entry file) :
    file ∈ rest.map (·.1) := by
  have hread := h entry m rest hrest
  obtain ⟨bytes, hbytes, hfile⟩ := hnames
  obtain ⟨bytes', hbytes', hnamed⟩ := hread.names
  obtain rfl : bytes' = bytes := Except.ok.inj (hbytes'.symm.trans hbytes)
  rw [← hnamed] at hfile
  obtain ⟨x, hx, hname⟩ := List.mem_filterMap.mp hfile
  obtain ⟨i, scope, k, file', m', hdata, hmem, -⟩ := hread.linked x hx
  rw [hdata] at hname
  cases hname
  exact List.mem_map_of_mem hmem

/-- A file in the table depends only on files behind it. -/
theorem mem_of_transGen (hpath : Relation.TransGen (Names library s.tree.caseRule) entry file) :
    file ∈ rest.map (·.1) := by
  induction hpath with
  | single hnames => exact h.mem_of_names hrest hnames
  | tail _ hnames ih =>
    obtain ⟨⟨_, m'⟩, hmem, rfl⟩ := List.mem_map.mp ih
    obtain ⟨front, rest', rfl⟩ := List.append_of_mem hmem
    have hrest' : (_, m') :: rest' <:+ s.loaded :=
      (List.suffix_append front _).trans ((List.suffix_cons _ _).trans hrest)
    have hmem' := h.mem_of_names hrest' hnames
    rw [List.map_append, List.map_cons]
    exact List.mem_append_right _ (List.mem_cons_of_mem _ hmem')

end

/-- No file in the table depends on itself. -/
theorem not_transGen {entry : String} (hentry : entry ∈ s.entries) :
    ¬ Relation.TransGen (Names library s.tree.caseRule) entry entry := by
  obtain ⟨⟨_, m⟩, hm, rfl⟩ := List.mem_map.mp hentry
  obtain ⟨rest, hrest, hread⟩ := h.exists_readBefore hm
  exact fun hpath => hread.fresh (h.mem_of_transGen hrest hpath)

/-- The table has every file that one of its files depends on. -/
theorem mem_entries {entry file : String} (hentry : entry ∈ s.entries)
    (hpath : Relation.ReflTransGen (Names library s.tree.caseRule) entry file) :
    file ∈ s.entries := by
  rcases Relation.reflTransGen_iff_eq_or_transGen.mp hpath with rfl | hpath
  · exact hentry
  · obtain ⟨⟨_, m⟩, hm, rfl⟩ := List.mem_map.mp hentry
    obtain ⟨rest, hrest, -⟩ := h.exists_readBefore hm
    have hmem := h.mem_of_transGen hrest hpath
    exact (((List.suffix_cons _ _).trans hrest).map _).subset hmem

/-- The table has an entry only once. -/
theorem nodup_entries : s.entries.Nodup := by
  have hsuffix : ∀ table, table <:+ s.loaded → (table.map (·.1)).Nodup := by
    intro table htable
    induction table with
    | nil => exact List.nodup_nil
    | cons row rest ih =>
      obtain ⟨entry, m⟩ := row
      exact List.nodup_cons.mpr
        ⟨(h entry m rest htable).fresh, ih ((List.suffix_cons _ _).trans htable)⟩
  exact hsuffix s.loaded (List.suffix_refl _)

end Sound

/-! ## Runs of loads -/

/-- The compilation after the loads of some entries, whether they succeed or not. -/
def loadEach (library : AttributeLibrary) : List String → Compilation → Compilation
  | [], c => c
  | entry :: rest, c => loadEach library rest (leaves (load library entry) c)

/-- `loading` with a record of the entries whose files have been decoded. -/
def recordLoading {α : Type} (l : LoadRecorder α) : Recording Error Compilation String α :=
  fun (⟨s, tree⟩, record) =>
    match l (⟨tree, s.hierarchy, s.loaded⟩, record) with
    | .ok a (r, record) =>
      .ok a (⟨{ s with hierarchy := r.hierarchy, loaded := r.loaded }, r.tree⟩, record)
    | .error e (r, record) =>
      .error e (⟨{ s with hierarchy := r.hierarchy, loaded := r.loaded }, r.tree⟩, record)

/-- `load` with a record. -/
def recordLoad (library : AttributeLibrary) (entry : String) :
    Recording Error Compilation String LoadedModule :=
  recordLoading (recordWithin library library.chainBound [] entry)

/-- `loadEach` with a record. -/
def recordEach (library : AttributeLibrary) :
    List String → Compilation × List String → Compilation × List String
  | [], c => c
  | entry :: rest, c => recordEach library rest (leaves (recordLoad library entry) c)

section

variable {library : AttributeLibrary}

/-- A load in a session leaves the table in order, with the entry in it if it succeeds. -/
theorem load_ends (entry : String) {c : Compilation} (hc : Ready library [] c.loadState) :
    Ends (load library entry) c
      (fun m c' => Advances library [] c.loadState c'.loadState ∧ (entry, m) ∈ c'.session.loaded)
      (fun c' => Advances library [] c.loadState c'.loadState) :=
  loading_ends (loadWithin_ends library library.chainBound [] entry c.loadState hc)

/-- A load in a session does with a record what it does without, and adds the entries of the
record. -/
theorem records_load (library : AttributeLibrary) (entry : String) (c : Compilation) :
    Records (fun c added c' => c.loadState.Adds added c'.loadState) (recordLoad library entry)
      (load library entry) c := by
  obtain ⟨session, tree⟩ := c
  obtain ⟨added, hadded, hrun⟩ :=
    records_loadWithin library library.chainBound [] entry ⟨tree, session.hierarchy, session.loaded⟩
  refine ⟨added, ?_, fun record => ?_⟩
  · rw [leaves, load, loading]
    rw [leaves] at hadded
    cases hload : loadWithin library library.chainBound [] entry
        ⟨tree, session.hierarchy, session.loaded⟩ <;> rw [hload] at hadded <;> exact hadded
  · rw [recordLoad, recordLoading, hrun, load, loading]
    cases loadWithin library library.chainBound [] entry
      ⟨tree, session.hierarchy, session.loaded⟩ <;> rfl

/-- Loads one after the other leave the table in order. -/
theorem loadEach_advances (entries : List String) {c : Compilation}
    (hc : Ready library [] c.loadState) :
    Advances library [] c.loadState (loadEach library entries c).loadState := by
  induction entries generalizing c with
  | nil => exact hc.advances
  | cons entry rest ih =>
    have hstep : Advances library [] c.loadState (leaves (load library entry) c).loadState :=
      Ends.iff_leaves.mp ((load_ends entry hc).mono (fun _ _ h => h.1) fun _ h => h)
    exact hstep.trans (ih hstep.toReady)

/-- So do loads one after the other. -/
theorem recordEach_adds (library : AttributeLibrary) (entries : List String) (c : Compilation)
    (record : List String) :
    ∃ added, c.loadState.Adds added (loadEach library entries c).loadState ∧
      recordEach library entries (c, record) = (loadEach library entries c, record ++ added) := by
  induction entries generalizing c record with
  | nil => exact ⟨[], rfl, by rw [List.append_nil]; rfl⟩
  | cons entry rest ih =>
    obtain ⟨added, hadded, hstep⟩ := (records_load library entry c).leaves_eq record
    obtain ⟨later, hlater, hrest⟩ := ih (leaves (load library entry) c) (record ++ added)
    refine ⟨added ++ later, RecordTrail.append (R := LoadState.Adds) hadded hlater, ?_⟩
    rw [recordEach, hstep, hrest, loadEach, List.append_assoc]

/-- Loads one after the other can be made in two parts. -/
theorem loadEach_append (first second : List String) (c : Compilation) :
    loadEach library (first ++ second) c = loadEach library second (loadEach library first c) := by
  induction first generalizing c with
  | nil => rfl
  | cons entry rest ih => exact ih _

section

variable {c : Compilation} (hfresh : c.session.loaded = [])
include hfresh

/-- A table without entries is in order. -/
theorem ready_of_fresh : Ready library [] c.loadState := by
  refine ⟨fun entry m rest hrest => ?_, nofun⟩
  rw [Compilation.loadState, hfresh, List.suffix_nil] at hrest
  cases hrest

/-- In a run of loads, an entry of the table has been decoded just once. -/
theorem count_recordEach {entries : List String} {file : String}
    (h : file ∈ (loadEach library entries c).loadState.entries) :
    (recordEach library entries (c, [])).2.count file = 1 := by
  have hready : Ready library [] c.loadState := ready_of_fresh hfresh
  have hnodup := (loadEach_advances entries hready).sound.nodup_entries
  obtain ⟨added, hadded, hrun⟩ := recordEach_adds library entries c []
  have hempty : c.loadState.entries = [] := by
    rw [LoadState.entries, Compilation.loadState, hfresh, List.map_nil]
  rw [LoadState.Adds, hempty, List.append_nil] at hadded
  rw [hadded] at h hnodup
  rw [hrun, List.nil_append, ← List.count_reverse]
  exact List.count_eq_one_of_mem hnodup h

end

end

/-- Every external declaration of a loaded file is linked to the module that the table has for the
file that it names, and that module is of the announced kind. -/
def SharesModules (c : Compilation) : Prop :=
  ∀ file m, c.session.loaded.lookup file = some m → ∀ x ∈ m.externals, ∃ i scope k named m',
    c.tree.data x = .declaration i scope (.external k named (some m'.module)) ∧
      c.session.loaded.lookup named = some m' ∧ c.tree.kind m'.module = k

/-- A table in order has the modules that the external declarations are linked to. -/
theorem Ready.sharesModules {library : AttributeLibrary} {c : Compilation}
    (h : Ready library [] c.loadState) : SharesModules c := by
  intro file m hm x hx
  obtain ⟨rest, hrest, hread⟩ := h.sound.exists_readBefore (mem_of_lookup hm)
  obtain ⟨i, scope, k, named, m', hdata, hmem, -, hkind⟩ := hread.linked x hx
  have hmem' : (named, m') ∈ c.session.loaded :=
    hrest.subset (List.mem_cons_of_mem _ hmem)
  exact ⟨i, scope, k, named, m', hdata, lookup_of_mem h.sound.nodup_entries hmem', hkind⟩

/-- **Loading ends, refuses circles, and shares what has been loaded.** Entries of a package are
loaded one after the other in a session that had loaded nothing, whatever the package holds. A load
has the same outcome at every depth from the number of the entries on, and no file is cut short by a
bound on what is read of it. A load that keeps a record of the files that it decodes does what the
load does. If a load succeeds, no file that the entry depends on depends on itself; each of them is
in the table, and is once in the record of the whole run; and the external declarations of all files
in the table share the modules of the table. A load whose files depend on each other in a circle
fails. -/
theorem load_dependencies (package : Package) (c₀ : Compilation) (hfresh : c₀.session.loaded = [])
    (before : List String) (entry : String) (after : List String) :
    let names := Names package.library c₀.tree.caseRule
    let c := loadEach package.library before c₀
    (∀ depth, package.size ≤ depth →
      loading (loadWithin package.library depth [] entry) c = load package.library entry c) ∧
    (∀ s : FileState, s.EndsByItself) ∧
    (∀ file c record, ∃ added, recordLoad package.library file (c, record) =
      beside (record ++ added) (load package.library file c)) ∧
    (∀ m c', load package.library entry c = .ok m c' →
      c'.session.loaded.lookup entry = some m ∧ SharesModules c' ∧
      ∀ file, Relation.ReflTransGen names entry file →
        ¬ Relation.TransGen names file file ∧ (c'.session.loaded.lookup file).isSome = true ∧
        (recordEach package.library (before ++ entry :: after) (c₀, [])).2.count file = 1) ∧
    ((∃ file, Relation.ReflTransGen names entry file ∧ Relation.TransGen names file file) →
      ∃ e c', load package.library entry c = .error e c') := by
  intro names c
  have hbefore : Advances package.library [] c₀.loadState c.loadState :=
    loadEach_advances before (ready_of_fresh hfresh)
  have hsound : ∀ m c', load package.library entry c = .ok m c' →
      Advances package.library [] c₀.loadState c'.loadState ∧
      (entry, m) ∈ c'.session.loaded ∧
      ∀ file, Relation.ReflTransGen names entry file → file ∈ c'.loadState.entries ∧
        ¬ Relation.TransGen names file file := by
    intro m c' hload
    obtain ⟨hstep, hmem⟩ := (load_ends entry hbefore.toReady).ok hload
    have hall := hbefore.trans hstep
    have hrule : names = Names package.library c'.loadState.tree.caseRule := by
      rw [hall.tree.caseRule]
      rfl
    refine ⟨hall, hmem, fun file hpath => ?_⟩
    rw [hrule] at hpath ⊢
    have hfile := hall.sound.mem_entries (List.mem_map_of_mem hmem) hpath
    exact ⟨hfile, hall.sound.not_transGen hfile⟩
  refine ⟨fun depth hdepth => ?_, endsByItself, fun file c record => ?_, fun m c' hload => ?_, ?_⟩
  · rw [loadWithin_of_size_le hdepth]
    rfl
  · obtain ⟨added, -, hrun⟩ := records_load package.library file c
    exact ⟨added, hrun record⟩
  · obtain ⟨hall, hmem, hfiles⟩ := hsound m c' hload
    have hlookup : ∀ {file m'}, (file, m') ∈ c'.session.loaded →
        c'.session.loaded.lookup file = some m' := lookup_of_mem hall.sound.nodup_entries
    refine ⟨hlookup hmem, hall.toReady.sharesModules, fun file hpath => ?_⟩
    obtain ⟨hfile, hcircle⟩ := hfiles file hpath
    refine ⟨hcircle, ?_, count_recordEach hfresh ?_⟩
    · obtain ⟨⟨_, m'⟩, hm', rfl⟩ := List.mem_map.mp hfile
      rw [hlookup hm']
      rfl
    · rw [loadEach_append, loadEach, leaves_of_ok hload]
      exact ((loadEach_advances after hall.toReady).loaded.map _).subset hfile
  · rintro ⟨file, hpath, hcircle⟩
    cases hload : load package.library entry c with
    | error e c' => exact ⟨e, c', rfl⟩
    | ok m c' => exact absurd hcircle ((hsound m c' hload).2.2 file hpath).2

/-- The file of an empty class, with external declarations of other classes. The names of the
classes and of their files are single letters. -/
def lettersFile (letter : UInt8) (externals : List UInt8) : Bytes :=
  plainHeader ++
  externals.flatMap (fun e => [2, 0, e, 0, 1, 0, 2, 0, e, 3, 0, 2, 0, e, 0]) ++
  [3, 0, 1, 0, 1, 0, 2, 0, letter, 0, 0, 0, 0, 0, 0, 0, 0, 0, 0, 0, 0, 0, 0, 0, 0, 0, 0, 0]

/-- `A` names `B` and `C`, and `B` names `C`. -/
def diamond : Package :=
  ⟨[("A", some (lettersFile 65 [66, 67])), ("B", some (lettersFile 66 [67])),
    ("C", some (lettersFile 67 []))], by decide⟩

/-- `A` names `B`, and `B` names `A`. -/
def mutualPair : Package :=
  ⟨[("A", some (lettersFile 65 [66])), ("B", some (lettersFile 66 [65]))], by decide⟩

/-- A file that is needed twice is decoded once, also if one of the files that need it has been
loaded before; two files that need each other are not loaded. -/
theorem load_dependencies_letters :
    (∃ m c', load diamond.library "A" (loadEach diamond.library ["B"] ⟨{}, {}⟩) = .ok m c' ∧
      m.externals.length = 2 ∧ SharesModules c' ∧
      (recordEach diamond.library ["B", "A"] (⟨{}, {}⟩, [])).2.count "C" = 1) ∧
    ∃ e c', load mutualPair.library "A" ⟨{}, {}⟩ = .error e c' := by
  constructor
  · have hload : succeedsWith (load diamond.library "A") (loadEach diamond.library ["B"] ⟨{}, {}⟩)
        (fun m _ => m.externals.length = 2) = true := by
      decide +kernel
    obtain ⟨m, c', hload, htest⟩ := exists_of_succeedsWith hload
    have hnames : Names diamond.library .insensitive "A" "C" :=
      ⟨lettersFile 65 [66, 67], rfl, by decide +kernel⟩
    obtain ⟨-, -, -, hok, -⟩ := load_dependencies diamond ⟨{}, {}⟩ rfl ["B"] "A" []
    obtain ⟨-, hshares, hfiles⟩ := hok m c' hload
    exact ⟨m, c', hload, of_decide_eq_true htest, hshares, (hfiles "C" (.single hnames)).2.2⟩
  · have hforth : Names mutualPair.library .insensitive "A" "B" :=
      ⟨lettersFile 65 [66], rfl, by decide +kernel⟩
    have hback : Names mutualPair.library .insensitive "B" "A" :=
      ⟨lettersFile 66 [65], rfl, by decide +kernel⟩
    obtain ⟨-, -, -, -, hcircle⟩ := load_dependencies mutualPair ⟨{}, {}⟩ rfl [] "A" []
    exact hcircle ⟨"A", .refl, .tail (.single hforth) hback⟩

end Session

end Simula
