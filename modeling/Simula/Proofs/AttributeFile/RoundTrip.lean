import Simula.Proofs.AttributeFile.Externals

/-!
# Modules survive the attribute file

The file of a module can be read exactly if its external declarations can be added again, with the
modules behind them, and every record in it can be read where it stands. What has been read is then
a copy of the module, node by node and link by link, but for the links to detached nodes.
-/

namespace Simula

/-- A copied class has the copy of its prefix class. -/
theorem prefixClass?_of_copied {t t' : Tree} {detached : List NodeId} {copy : NodeId → NodeId}
    {id : NodeId} (h : t'.nodes[copy id]? = some (t.copiedNode detached copy id)) :
    t'.prefixClass? (copy id) = copiedLink detached copy (t.prefixClass? id) := by
  rw [Tree.prefixClass?, Tree.class?, Tree.data_of_node h, Tree.copiedNode, Tree.prefixClass?,
    Tree.class?]
  generalize t.data id = d
  cases d with
  | declaration i s f => cases f <;> rfl
  | _ => rfl

namespace AttributeFile

/-- The records in the file of a module behind those of its external declarations. -/
def moduleOpenings (t : Tree) (module : NodeId) (externals : List NodeId) : List Opening :=
  t.openFrom (detached t module externals) t.size [] (externals.map (⟨·, []⟩)) module

/-- The node has one of these records. -/
def HasRecord (t : Tree) (module : NodeId) (externals : List NodeId) (id : NodeId) : Prop :=
  ∃ o ∈ moduleOpenings t module externals, o.node = id

/-- Only attached nodes have records. -/
theorem HasRecord.attached {t : Tree} {module : NodeId} {externals : List NodeId} {id : NodeId}
    (h : HasRecord t module externals id) : id ∉ detached t module externals := by
  obtain ⟨o, ho, rfl⟩ := h
  exact Tree.notMem_detached_of_openFrom ho

/-- The links in a record lead to detached nodes, to external declarations and to records. -/
theorem HasRecord.linked {t : Tree} {module : NodeId} {externals : List NodeId} {id x : NodeId}
    (h : HasRecord t module externals id) (hx : x ∈ (t.data id).links) :
    x ∈ detached t module externals ∨ x ∈ externals ∨ HasRecord t module externals x := by
  obtain ⟨o, ho, rfl⟩ := h
  have hclosed : t.ClosedBehind (detached t module externals) (externals.map (⟨·, []⟩))
      (moduleOpenings t module externals) :=
    Tree.openFrom_closed t.size rfl .nil nofun _ _ nofun
  refine (hclosed o ho x hx).imp_right fun hmem => ?_
  rw [List.map_append, List.map_map, List.mem_append] at hmem
  exact hmem.imp (by simp) List.mem_map.mp

/-- What makes the records in the file of a module readable. -/
structure Restorable (t : Tree) (module : NodeId) (externals : List NodeId) : Prop where
  nodup : externals.Nodup
  attached : ∀ id ∈ externals ++ [module], id ∉ detached t module externals
  readable : ∀ o ∈ t.openings (detached t module externals) ((externals ++ [module]).map some),
    o.Readable t (detached t module externals)

/-- The module has been copied behind the nodes of a tree. -/
structure Restored (t : Tree) (module : NodeId) (externals : List NodeId) (copy : NodeId → NodeId)
    (before after : Tree) : Prop where
  grown : before.Extends after
  size : after.size = before.size + (moduleOpenings t module externals).length
  /-- The copies follow each other in the order of the records. -/
  places : (moduleOpenings t module externals).map (fun o => copy o.node) =
    List.range' before.size (moduleOpenings t module externals).length
  nodes : ∀ o ∈ moduleOpenings t module externals,
    after.nodes[copy o.node]? = some (t.copiedNode (detached t module externals) copy o.node)
  readable : ∀ o ∈ moduleOpenings t module externals, o.Readable t (detached t module externals)
  /-- The module itself has been copied. -/
  root : ∃ o ∈ moduleOpenings t module externals, o.node = module

section

variable {t : Tree} {module : NodeId} {externals : List NodeId} {copy : NodeId → NodeId}
variable {before after : Tree}

/-- The copy of a node of the module is one of the new nodes. -/
theorem Restored.copy_bounds (h : Restored t module externals copy before after) {o : Opening}
    (ho : o ∈ moduleOpenings t module externals) :
    before.size ≤ copy o.node ∧ copy o.node < after.size := by
  have hmem := List.mem_map_of_mem (f := fun o : Opening => copy o.node) ho
  rw [h.places, List.mem_range'_1] at hmem
  exact ⟨hmem.1, h.size ▸ hmem.2⟩

/-- Different nodes have different copies. -/
theorem Restored.copy_inj (h : Restored t module externals copy before after) {id id' : NodeId}
    (hid : HasRecord t module externals id) (hid' : HasRecord t module externals id')
    (hcopy : copy id = copy id') : id = id' := by
  obtain ⟨o, ho, rfl⟩ := hid
  obtain ⟨o', ho', rfl⟩ := hid'
  have hnodup : ((moduleOpenings t module externals).map fun o => copy o.node).Nodup := by
    rw [h.places]
    exact List.nodup_range'
  rw [List.inj_on_of_nodup_map hnodup ho ho' hcopy]

/-- The copy of a node has its content, with the nodes in it replaced by copies. -/
theorem Restored.data_copy (h : Restored t module externals copy before after) {id : NodeId}
    (hid : HasRecord t module externals id) : after.data (copy id) =
      ((t.data id).named t).relabel (detached t module externals) copy := by
  obtain ⟨o, ho, rfl⟩ := hid
  exact Tree.data_of_node (h.nodes o ho)

/-- Every new node is the copy of a node of the module. -/
theorem Restored.exists_opening (h : Restored t module externals copy before after) {id : NodeId}
    (hlow : before.size ≤ id) (hhigh : id < after.size) :
    ∃ o ∈ moduleOpenings t module externals, copy o.node = id := by
  have hmem : id ∈ List.range' before.size (moduleOpenings t module externals).length :=
    List.mem_range'_1.mpr ⟨hlow, h.size ▸ hhigh⟩
  rw [← h.places] at hmem
  exact List.mem_map.mp hmem

/-- What is below a new node is new, or an external declaration. -/
theorem Restored.children (h : Restored t module externals copy before after) {id c : NodeId}
    (hlow : before.size ≤ id) (hhigh : id < after.size) (hc : c ∈ after.children id) :
    c ∈ externals.map copy ∨ (before.size ≤ c ∧ c < after.size) := by
  obtain ⟨o, ho, rfl⟩ := h.exists_opening hlow hhigh
  rw [Tree.children, Tree.data_of_node (h.nodes o ho)] at hc
  obtain ⟨x, hx, hattached, rfl⟩ :=
    NodeData.exists_link_of_relabel copy (h.readable o ho) (NodeData.children_subset_links _ hc)
  have hrecord : HasRecord t module externals o.node := ⟨o, ho, rfl⟩
  rcases (hrecord.linked hx).resolve_left hattached with he | ⟨o', ho', rfl⟩
  · exact .inl (List.mem_map_of_mem he)
  · exact .inr (h.copy_bounds ho')

end

/-- The scopes of the external declarations and of the module are detached. -/
theorem declaredIn_mem_detached {t : Tree} {module : NodeId} {externals : List NodeId}
    {id scope : NodeId} (hid : id ∈ externals ++ [module]) (hscope : scope ∈ t.declaredIn? id) :
    scope ∈ detached t module externals :=
  List.mem_append_left _ (List.mem_filterMap.mpr ⟨id, hid, hscope⟩)

/-- External declarations open their own records alone. -/
theorem openAll_externals {t : Tree} {detached : List NodeId} {seen : List Opening}
    {externals : List NodeId} (hkinds : ∀ e ∈ externals, t.kind e = .externalDeclaration)
    (hscope : ∀ e ∈ externals, ∀ s ∈ t.declaredIn? e, s ∈ detached)
    (hattached : ∀ e ∈ externals, e ∉ detached) (hunseen : ∀ e ∈ externals, e ∉ seen.map (·.node))
    (hnodup : externals.Nodup) :
    openAll (t.openFrom detached t.size []) seen externals = externals.map (⟨·, []⟩) := by
  induction externals generalizing seen with
  | nil => rfl
  | cons e externals ih =>
    rw [List.forall_mem_cons] at hkinds hscope hattached hunseen
    obtain ⟨hnot, hnodup⟩ := List.nodup_cons.mp hnodup
    have hbehind : ∀ e' ∈ externals, e' ∉ (seen ++ [(⟨e, []⟩ : Opening)]).map (·.node) := by
      intro e' he' hmem
      rw [List.map_append, List.mem_append] at hmem
      rcases hmem with hmem | hmem
      · exact hunseen.2 e' he' hmem
      · obtain rfl : e' = e := List.mem_singleton.mp hmem
        exact hnot he'
    rw [openAll, openFrom_external hkinds.1 hscope.1 hattached.1 hunseen.1,
      ih hkinds.2 hscope.2 hattached.2 hbehind hnodup, List.map_cons, List.singleton_append]

section

variable {t : Tree} {module : NodeId} {externals : List NodeId}

/-- Attached external declarations without repetition are opened one by one. -/
theorem openAll_separate (hkinds : ∀ e ∈ externals, t.kind e = .externalDeclaration)
    (hattached : ∀ e ∈ externals, e ∉ detached t module externals) (hnodup : externals.Nodup) :
    openAll (t.openFrom (detached t module externals) t.size []) [] externals =
      externals.map (⟨·, []⟩) :=
  openAll_externals hkinds
    (fun _ he _ hs => declaredIn_mem_detached (List.mem_append_left _ he) hs) hattached
    (fun _ _ => List.not_mem_nil) hnodup

/-- Readable records are those of separate external declarations and those of the module. -/
theorem restorable_iff (hkinds : ∀ e ∈ externals, t.kind e = .externalDeclaration) :
    Restorable t module externals ↔
      Separate t (detached t module externals) [] externals ∧
        module ∉ detached t module externals ∧
        ∀ o ∈ moduleOpenings t module externals, o.Readable t (detached t module externals) := by
  have hopenings : (∀ e ∈ externals, e ∉ detached t module externals) → externals.Nodup →
      t.openings (detached t module externals) ((externals ++ [module]).map some) =
        externals.map (⟨·, []⟩) ++ moduleOpenings t module externals := by
    intro hattached hnodup
    rw [Tree.openings, List.filterMap_map, Function.id_comp, List.filterMap_some, openAll_append,
      openAll_separate hkinds hattached hnodup, openAll_singleton, List.nil_append]
    rfl
  constructor
  · rintro ⟨hnodup, hattached, hreadable⟩
    rw [List.forall_mem_append, List.forall_mem_singleton] at hattached
    rw [hopenings hattached.1 hnodup, List.forall_mem_append, List.forall_mem_map] at hreadable
    exact ⟨⟨hattached.1, fun _ _ => List.not_mem_nil, hnodup, hreadable.1⟩, hattached.2,
      hreadable.2⟩
  · rintro ⟨⟨hattached, -, hnodup, hreadable⟩, hmodule, hrest⟩
    refine ⟨hnodup, ?_, ?_⟩
    · rw [List.forall_mem_append, List.forall_mem_singleton]
      exact ⟨hattached, hmodule⟩
    · rw [hopenings hattached hnodup, List.forall_mem_append, List.forall_mem_map]
      exact ⟨hreadable, hrest⟩

/-- A module that is attached has a record of its own. -/
theorem exists_opening_module (hattached : module ∉ detached t module externals)
    (hnot : module ∉ externals) : ∃ o ∈ moduleOpenings t module externals, o.node = module := by
  have hmem : module ∈ (externals.map (fun e => (⟨e, []⟩ : Opening)) ++
      moduleOpenings t module externals).map (·.node) :=
    (Tree.mem_openFrom _ _ _ _).resolve_left hattached
  rw [List.map_append, List.map_map, List.mem_append] at hmem
  exact List.mem_map.mp (hmem.resolve_left fun h => hnot (by simpa using h))

/-- A module is copied behind the nodes that are in the tree when its record is met, or refused if
a record in it cannot be read where it stands. -/
theorem readModule_written {k : Copying t (detached t module externals)} {w w' : WriterState}
    {r : ReaderState} {bs rest : Bytes} (hw : w.Numbered (externals.map (⟨·, []⟩)))
    (hattached : module ∉ detached t module externals) (hnot : module ∉ externals)
    (hwrite : Writer.object t (detached t module externals) (some module) w = .ok () w')
    (hout : w'.out = w.out ++ UInt8.ofNat (t.kind module).tag :: bs)
    (hr : ({ r with input := UInt8.ofNat (t.kind module).tag :: (bs ++ rest) } :
      ReaderState).Aligned k [] (externals.map (⟨·, []⟩)) w.numbers) :
    ((∀ o ∈ moduleOpenings t module externals, o.Readable t (detached t module externals)) →
      ∃ (copy : NodeId → NodeId) (r' : ReaderState),
        Reader.tagged (t.kind module) { r with input := bs ++ rest } = .ok (some (copy module)) r' ∧
        r'.input = rest ∧ (∀ e ∈ externals, copy e = k.copy e) ∧
        Restored t module externals copy r.tree r'.tree) ∧
    (¬ (∀ o ∈ moduleOpenings t module externals, o.Readable t (detached t module externals)) →
      ∃ e r', Reader.tagged (t.kind module) { r with input := bs ++ rest } = .error e r') := by
  obtain ⟨hw', bs', hout', hread⟩ := @wholeObject_transcribes t (detached t module externals)
    (k.goOn ((moduleOpenings t module externals).map (·.node)) r.tree.size) (bs.length + 1) _
    (some module) _ _ hw hwrite
  obtain rfl : _ :: bs = bs' := Output.append_cancel (hout.symm.trans hout')
  rw [Option.toList_some, openAll_singleton] at hw'
  rw [Option.toList_some, openAll_singleton, copiedLink_of_notMem hattached] at hread
  -- No record of the module is that of an external declaration.
  have honce := hw'.once
  rw [List.map_append, List.nodup_append] at honce
  obtain ⟨-, hnews, hdisjoint⟩ := honce
  have hplaced := k.goOn_placed hnews r.tree.size
  obtain ⟨hok, herr⟩ := hread
    (hr.goOn hw (fun o ho hmem => hdisjoint _ (List.mem_map_of_mem ho) _ hmem rfl) _)
    rfl (Nat.le_refl _) hplaced
  rw [Reader.object_eq_tagged rfl] at hok herr
  refine ⟨fun hreadable => ?_, herr⟩
  obtain ⟨r', htagged, hrest, hsize, hr'⟩ := hok hreadable
  have hexternals : ∀ e ∈ externals,
      (k.goOn ((moduleOpenings t module externals).map (·.node)) r.tree.size).copy e =
        k.copy e := by
    intro e he
    refine if_neg fun hmem => hdisjoint e ?_ e hmem rfl
    rw [List.map_map]
    exact List.mem_map.mpr ⟨e, he, rfl⟩
  refine ⟨_, r', htagged, hrest, hexternals,
    ((Reader.tagged_grows _).of_ok htagged).1.toExtends, hsize, hplaced.places, fun o ho => ?_,
    hreadable, exists_opening_module hattached hnot⟩
  rw [hr'.complete o (List.mem_append_right _ ho) nofun]
  exact congrArg some (hplaced.finished o ho)

section

variable {loadExternal : NodeId → Loading NodeId} {s s' : FileState} {ids : List NodeId}
variable {kind : Kind} {r : ReaderState}

/-- Behind the external declarations a module is read under its tag. -/
theorem readModules_of_ok {m : NodeId}
    (hexternals : readExternals loadExternal s.input.length s = .ok (ids, kind) s')
    (hkind : kind.isModule = true) (h : Reader.tagged kind s'.objectStream = .ok (some m) r) :
    readModules loadExternal s = .ok ⟨m, ids⟩ (s'.withStream r) := by
  rw [readModules, bind_of_ok (get_apply s), bind_of_ok hexternals]
  simp only [hkind, Bool.not_true, Bool.false_eq_true, if_false]
  rw [bind_of_ok (stream_of_ok h)]
  rfl

/-- A module that cannot be read is refused. -/
theorem readModules_of_error {e : Error}
    (hexternals : readExternals loadExternal s.input.length s = .ok (ids, kind) s')
    (hkind : kind.isModule = true) (h : Reader.tagged kind s'.objectStream = .error e r) :
    readModules loadExternal s = .error e (s'.withStream r) := by
  rw [readModules, bind_of_ok (get_apply s), bind_of_ok hexternals]
  simp only [hkind, Bool.not_true, Bool.false_eq_true, if_false]
  exact bind_of_error (stream_of_error h)

/-- A file that can be read has a module behind its external declarations. -/
theorem exists_externals_of_readModules {m : LoadedModule}
    (h : readModules loadExternal s = .ok m s') :
    ∃ ids kind s₁, readExternals loadExternal s.input.length s = .ok (ids, kind) s₁ ∧
      kind.isModule = true := by
  rw [readModules, bind_of_ok (get_apply s)] at h
  obtain ⟨⟨ids, kind⟩, s₁, hexternals, h⟩ := bind_eq_ok.mp h
  refine ⟨ids, kind, s₁, hexternals, ?_⟩
  cases hkind : kind.isModule with
  | true => rfl
  | false =>
    simp only [hkind, Bool.not_false, if_true] at h
    obtain ⟨_, _, hthrow, -⟩ := bind_eq_ok.mp h
    cases hthrow

end

/-- What follows the header of a file is read back: the external declarations are added again,
and the module is copied behind them. -/
theorem readModules_written {loadExternal : NodeId → Loading NodeId}
    (hload : ∀ id, Follows LoadState.Extends (loadExternal id))
    (hmodule : (t.kind module).isModule = true) {w w' : WriterState} (hw : w.Numbered [])
    (hwrite : (do
      writeExternals t (detached t module externals) externals
      Writer.object t (detached t module externals) (some module)) w = .ok () w') :
    ∃ bs : Bytes, w'.out = w.out ++ bs ∧
      ∀ {s : FileState} {rest : Bytes}, s.objects = [] → s.loading.tree.caseRule = t.caseRule →
        s.input = bs ++ rest →
        (Restorable t module externals → ∀ {ids : List NodeId} {ls : LoadState},
          addExternals loadExternal (externals.map (storedExternal t)) s.loading = .ok ids ls →
          ∃ (copy : NodeId → NodeId) (s' : FileState),
            readModules loadExternal s = .ok ⟨copy module, ids⟩ s' ∧ externals.map copy = ids ∧
            Restored t module externals copy ls.tree s'.loading.tree ∧
            s'.loading = { ls with tree := s'.loading.tree }) ∧
        (∀ {m : LoadedModule} {s' : FileState}, readModules loadExternal s = .ok m s' →
          Restorable t module externals ∧ ∃ ids ls,
            addExternals loadExternal (externals.map (storedExternal t)) s.loading =
              .ok ids ls) := by
  have hscope : ∀ e ∈ externals, ∀ s ∈ t.declaredIn? e, s ∈ detached t module externals :=
    fun e he s hs => declaredIn_mem_detached (List.mem_append_left _ he) hs
  obtain ⟨_, w₁, hexternals, hobject⟩ := bind_eq_ok.mp hwrite
  have hkinds := kinds_of_writeExternals hexternals
  obtain ⟨hw₁, bs, hout, hlen, hfollow⟩ := readExternals_written hload hw hscope hexternals
  rw [List.nil_append] at hw₁
  obtain ⟨bs₁, htag⟩ := object_starts_with_tag hw₁ hobject
  have hnot : module ∉ externals := by
    intro hmem
    rw [hkinds module hmem] at hmodule
    cases hmodule
  refine ⟨_, by rw [htag, hout, Output.append_append], ?_⟩
  intro s rest hobjects hrule hinput
  rw [List.append_assoc, List.cons_append] at hinput
  have hn : externals.length < s.input.length := by
    rw [hinput, List.length_append, List.length_cons]
    omega
  have haligned : s.objectStream.Aligned (.plain t (detached t module externals) fun i => i) [] []
      w.numbers := by
    rw [List.map_eq_nil_iff.mp hw.nodes]
    exact ⟨hrule, hobjects, nofun, .nil, nofun, nofun, nofun⟩
  obtain ⟨hadded, hback⟩ := hfollow haligned hinput (Tree.tagKind_ne_external hmodule _) hn
  -- Behind separate external declarations the module, if attached, is met for the first time.
  have hopened : Separate t (detached t module externals) [] externals →
      openAll (t.openFrom (detached t module externals) t.size []) [] externals =
        externals.map (⟨·, []⟩) := fun h => openAll_separate hkinds h.attached h.nodup
  have hfirst : module ∉ detached t module externals →
      t.tagKind (detached t module externals) (externals.map (⟨·, []⟩)) module = t.kind module :=
    fun hattached => Tree.tagKind_of_new hattached (by simpa [Function.comp_def] using hnot)
  rw [restorable_iff hkinds]
  constructor
  · rintro ⟨hsep, hattached, hreadable⟩ ids ls hadd
    obtain ⟨k, objects, hext, hr, -, hids⟩ := hadded hsep hadd
    rw [hopened hsep] at hw₁
    rw [hopened hsep, hfirst hattached] at htag hext
    obtain ⟨copy, r', htagged, -, hcopy, hrestored⟩ :=
      (readModule_written hw₁ hattached hnot hobject htag (hr.setInput _)).1 hreadable
    refine ⟨copy, _, readModules_of_ok hext hmodule htagged, ?_, hrestored, rfl⟩
    rw [← hids]
    exact List.map_congr_left hcopy
  · intro m s' hread
    obtain ⟨_, kind, s₁, hext', hkind⟩ := exists_externals_of_readModules hread
    obtain ⟨hsep, ids, ls, hadd⟩ := hback hext' hkind
    obtain ⟨k, objects, hext, hr, -, -⟩ := hadded hsep hadd
    have hattached : module ∉ detached t module externals := by
      rw [hext'] at hext
      cases hext
      exact Tree.notMem_of_tagKind hkind
    rw [hopened hsep] at hw₁
    rw [hopened hsep, hfirst hattached] at htag hext
    refine ⟨⟨hsep, hattached, ?_⟩, ids, ls, hadd⟩
    by_contra hreadable
    obtain ⟨e, r', htagged⟩ :=
      (readModule_written hw₁ hattached hnot hobject htag (hr.setInput _)).2 hreadable
    rw [readModules_of_error hext hmodule htagged] at hread
    cases hread

/-- A file that has been written is read back exactly if its records can be read where they stand
and its external declarations can be added again. The module is then copied behind them. -/
theorem read_written {loadExternal : NodeId → Loading NodeId} {h : ClassHierarchy} {base next : Int}
    {bytes : Bytes} (hload : ∀ id, Follows LoadState.Extends (loadExternal id))
    (hwrite : write t module externals h base = .ok (bytes, next))
    (hend : ∀ e ∈ h.edges, e.1.package ≠ hierarchyEnd) {s : LoadState}
    (hrule : s.tree.caseRule = t.caseRule) :
    (Restorable t module externals → ∀ {ids : List NodeId} {s₁ : LoadState},
      addExternals loadExternal (externals.map (storedExternal t))
        { s with hierarchy := s.hierarchy.registerEdges h.edges } = .ok ids s₁ →
      ∃ (copy : NodeId → NodeId) (s' : LoadState),
        read loadExternal bytes s = .ok ⟨copy module, ids⟩ s' ∧ externals.map copy = ids ∧
        Restored t module externals copy s₁.tree s'.tree ∧ s' = { s₁ with tree := s'.tree }) ∧
    (∀ {m : LoadedModule} {s' : LoadState}, read loadExternal bytes s = .ok m s' →
      Restorable t module externals ∧ ∃ ids s₁,
        addExternals loadExternal (externals.map (storedExternal t))
          { s with hierarchy := s.hierarchy.registerEdges h.edges } = .ok ids s₁) := by
  rw [write] at hwrite
  split at hwrite
  case isFalse => cases hwrite
  next hmodule =>
  cases hall : writeAll t module externals h { next := base } with
  | error e w =>
    rw [hall] at hwrite
    cases hwrite
  | ok u w =>
    rw [hall] at hwrite
    cases hwrite
    obtain ⟨hbs, hrest, hheader⟩ := readAll_written hall hend
    have hstart : ({ out := ({} : Output) ++ hbs, next := base } : WriterState).Numbered [] :=
      ⟨rfl, .nil, nofun, .nil⟩
    obtain ⟨bs, hout, hread⟩ := readModules_written hload hmodule hstart hrest
    have hbytes : w.out.toList = hbs ++ bs := by
      rw [hout]
      simp
    have hreadAll := hheader (s := { input := w.out.toList, loading := s }) loadExternal hbytes
    obtain ⟨hok, hback⟩ := hread (s := { input := bs, loading :=
      { s with hierarchy := s.hierarchy.registerEdges h.edges } }) rfl hrule
      (List.append_nil bs).symm
    refine ⟨fun hrestorable {ids s₁} hadd => ?_, fun {m s'} hm => ?_⟩
    · obtain ⟨copy, s', hmodules, hids, hrestored, hother⟩ := hok hrestorable hadd
      rw [← hreadAll] at hmodules
      refine ⟨copy, s'.loading, ?_, hids, hrestored, hother⟩
      rw [read, hmodules]
    · rw [read, hreadAll] at hm
      split at hm
      case h_2 => cases hm
      next hmodules => exact hback hmodules

/-- A file is written only if the external declarations of the module are such. -/
theorem kinds_of_write {h : ClassHierarchy} {base next : Int} {bytes : Bytes}
    (hwrite : write t module externals h base = .ok (bytes, next)) :
    ∀ e ∈ externals, t.kind e = .externalDeclaration := by
  rw [write] at hwrite
  split at hwrite
  case isFalse => cases hwrite
  cases hall : writeAll t module externals h { next := base } with
  | error e w =>
    rw [hall] at hwrite
    cases hwrite
  | ok u w =>
    obtain ⟨_, _, -, hall⟩ := bind_eq_ok.mp hall
    obtain ⟨_, _, -, hall⟩ := bind_eq_ok.mp hall
    obtain ⟨_, _, hexternals, -⟩ := bind_eq_ok.mp hall
    exact kinds_of_writeExternals hexternals

/-- What has been read from a file that was written is a copy of the module behind its external
declarations. -/
theorem restored_of_read {loadExternal : NodeId → Loading NodeId} {h : ClassHierarchy}
    {base next : Int} {bytes : Bytes} (hload : ∀ id, Follows LoadState.Extends (loadExternal id))
    (hwrite : write t module externals h base = .ok (bytes, next))
    (hend : ∀ e ∈ h.edges, e.1.package ≠ hierarchyEnd) {s s' : LoadState} {m : LoadedModule}
    (hrule : s.tree.caseRule = t.caseRule) (hread : read loadExternal bytes s = .ok m s') :
    Restorable t module externals ∧ ∃ (copy : NodeId → NodeId) (s₁ : LoadState),
      addExternals loadExternal (externals.map (storedExternal t))
        { s with hierarchy := s.hierarchy.registerEdges h.edges } = .ok (externals.map copy) s₁ ∧
      m = ⟨copy module, externals.map copy⟩ ∧
      Restored t module externals copy s₁.tree s'.tree ∧ s' = { s₁ with tree := s'.tree } := by
  obtain ⟨hok, hback⟩ := read_written hload hwrite hend hrule
  obtain ⟨hrestorable, ids, s₁, hadd⟩ := hback hread
  obtain ⟨copy, s'', hread', rfl, hrestored, hother⟩ := hok hrestorable hadd
  obtain ⟨rfl, rfl⟩ : m = ⟨copy module, externals.map copy⟩ ∧ s' = s'' := by
    cases hread.symm.trans hread'
    exact ⟨rfl, rfl⟩
  exact ⟨hrestorable, copy, s₁, hadd, rfl, hrestored, hother⟩

end

end AttributeFile

end Simula
