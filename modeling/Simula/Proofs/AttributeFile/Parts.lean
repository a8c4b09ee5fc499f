import Simula.Proofs.AttributeFile.Growth

/-!
# The parts of an attribute file

A file is read in three parts: the header, the external declarations with the modules behind them,
and the module itself. The header concerns neither the tree nor the table of loaded files. A file
that has been read is taken apart here into what each part has done.
-/

namespace Simula.AttributeFile

section

variable {α : Type} {s s' : FileState}

/-- An action on the object stream succeeds in the file where it succeeds in the stream. -/
theorem stream_eq_ok {m : Reader α} {a : α} :
    stream m s = .ok a s' ↔ ∃ r, m s.objectStream = .ok a r ∧ s' = s.withStream r := by
  cases h : m s.objectStream with
  | ok b r =>
    rw [stream_of_ok h]
    constructor
    · intro h'
      cases h'
      exact ⟨r, rfl, rfl⟩
    · rintro ⟨_, h', rfl⟩
      cases h'
      rfl
  | error e r =>
    rw [stream_of_error h]
    simp

/-- What else is loaded succeeds in the file where it succeeds otherwise. -/
theorem meanwhile_eq_ok {l : Loading α} {a : α} :
    meanwhile l s = .ok a s' ↔
      ∃ loading, l s.loading = .ok a loading ∧ s' = { s with loading := loading } := by
  cases h : l s.loading with
  | ok b loading =>
    rw [meanwhile_of_ok h]
    constructor
    · intro h'
      cases h'
      exact ⟨loading, rfl, rfl⟩
    · rintro ⟨_, h', rfl⟩
      cases h'
      rfl
  | error e loading =>
    rw [meanwhile_of_error h]
    simp

end

/-! ## The header -/

/-- Takes the version and the super-class edges. -/
def readHeader : FileReader Unit := do
  let found ← take Decoder.string
  if found ≠ some version then throw (.format (.version found version))
  readEdges (← get).input.length

/-- A file starts with its header. -/
theorem readAll_eq (loadExternal : NodeId → Loading NodeId) :
    readAll loadExternal = readHeader >>= fun _ => readModules loadExternal := by
  unfold readAll readHeader readModules
  rw [bind_assoc]
  congr 1
  funext found
  split <;> rfl

/-- Reading on has changed neither the tree nor the numbers nor the table of loaded files. -/
structure FileState.SameNodes (s s' : FileState) : Prop where
  objects : s'.objects = s.objects
  tree : s'.loading.tree = s.loading.tree
  loaded : s'.loading.loaded = s.loading.loaded

instance : Std.Refl FileState.SameNodes := ⟨fun _ => ⟨rfl, rfl, rfl⟩⟩

instance : Trans FileState.SameNodes FileState.SameNodes FileState.SameNodes :=
  ⟨fun h h' => ⟨h'.objects.trans h.objects, h'.tree.trans h.tree, h'.loaded.trans h.loaded⟩⟩

section

variable {α β : Type}

/-- Taking a value touches no node. -/
theorem take_sameNodes (d : Decoder α) : Follows FileState.SameNodes (take d) := by
  rintro ⟨input, objects, tree, hierarchy, loaded⟩
  rw [leaves, take, stream, Reader.take]
  cases d input <;> exact ⟨rfl, rfl, rfl⟩

/-- Reading the header touches no node. -/
theorem headerFrame_sameNodes : HeaderFrame FileState.SameNodes where
  take := take_sameNodes
  edge _ _ := .of_modify fun _ => ⟨rfl, rfl, rfl⟩

/-- The header concerns neither the tree nor the table of loaded files. -/
theorem readHeader_sameNodes : Follows FileState.SameNodes readHeader := by
  refine (take_sameNodes _).bind fun found => ?_
  have hedges : Follows FileState.SameNodes (do readEdges (← get).input.length) :=
    Follows.get.bind fun s => headerFrame_sameNodes.readEdges _
  dsimp only
  split
  · exact (Follows.throw _).bind fun _ => hedges
  · exact hedges

/-- The action succeeds by what the input holds, whatever else the file is read into. -/
def FromInput (x : FileReader α) : Prop :=
  ∀ (s s' : FileState) (a : α), x s = .ok a s' → ∀ s₂ : FileState, s₂.input = s.input →
    ∃ s₂', x s₂ = .ok a s₂' ∧ s₂'.input = s'.input

namespace FromInput

/-- An action that does nothing goes by the input. -/
theorem pure (a : α) : FromInput (Pure.pure a : FileReader α) := by
  intro s s' b h s₂ hinput
  obtain ⟨rfl, rfl⟩ := pure_eq_ok.mp h
  exact ⟨s₂, rfl, hinput⟩

/-- An action that fails succeeds nowhere. -/
theorem throw (e : Error) : FromInput (MonadExcept.throw e : FileReader α) := nofun

/-- Actions that go by the input do so one after the other. -/
theorem bind {x : FileReader α} {f : α → FileReader β} (hx : FromInput x)
    (hf : ∀ a, FromInput (f a)) : FromInput (x >>= f) := by
  intro s s' b h s₂ hinput
  obtain ⟨a, s₁, ha, hb⟩ := bind_eq_ok.mp h
  obtain ⟨s₃, ha', hinput'⟩ := hx s s₁ a ha s₂ hinput
  obtain ⟨s₄, hb', hinput''⟩ := hf a s₁ s' b hb s₃ hinput'
  exact ⟨s₄, bind_eq_ok.mpr ⟨a, s₃, ha', hb'⟩, hinput''⟩

end FromInput

/-- Taking a value goes by the input. -/
theorem take_fromInput (d : Decoder α) : FromInput (take d) := by
  intro s s' a h s₂ hinput
  obtain ⟨r, hr, rfl⟩ := stream_eq_ok.mp h
  obtain ⟨hd, -, -⟩ := Reader.take_eq_ok hr
  have hd' : d s₂.objectStream.input = .ok a r.input := by
    rw [← hd]
    exact congrArg d hinput
  exact ⟨_, stream_of_ok (Reader.take_of_ok hd'), rfl⟩

/-- Reading a text of the header goes by the input. -/
theorem headerString_fromInput : FromInput headerString := by
  refine (take_fromInput _).bind fun text => ?_
  cases text with
  | none => exact .throw _
  | some text => exact .pure text

/-- Reading the edges in the header goes by the input. -/
theorem readEdges_fromInput (n : Nat) : FromInput (readEdges n) := by
  induction n with
  | zero => exact .throw _
  | succ n ih =>
    refine headerString_fromInput.bind fun package => ?_
    split
    · exact .pure ()
    · refine headerString_fromInput.bind fun _ => headerString_fromInput.bind fun _ =>
        headerString_fromInput.bind fun _ => .bind ?_ fun _ => ih
      intro s s' a h s₂ hinput
      cases h
      exact ⟨_, rfl, hinput⟩

/-- A header that can be read can be read into any other tree. -/
theorem readHeader_fromInput : FromInput readHeader := by
  refine (take_fromInput _).bind fun found => ?_
  have hedges : FromInput (do readEdges (← get).input.length) := by
    intro s s' a h s₂ hinput
    have h' : readEdges s.input.length s = .ok a s' := h
    obtain ⟨s₂', hs₂, hinput'⟩ := readEdges_fromInput _ s s' a h' s₂ hinput
    rw [← hinput] at hs₂
    exact ⟨s₂', hs₂, hinput'⟩
  dsimp only
  split
  · exact (FromInput.throw _).bind fun _ => hedges
  · exact hedges

end

/-! ## External declarations and the module -/

/-- The record of a node, whose tag has been read, gives a node with the content of its fields. -/
theorem takeData_of_tagged {kind : Kind} {r r' : ReaderState} {id : NodeId} (hnull : kind ≠ .null)
    (href : kind ≠ .objectReference) (h : Reader.tagged kind r = .ok (some id) r') :
    ∃ r₁ r₂, Reader.takeData (Reader.objectWithin r.input.length) kind r₁ =
      .ok (r'.tree.data id) r₂ := by
  obtain ⟨sequence, line, input, d, r₁, -, hdata, hid, rfl⟩ :=
    Reader.takeTagged_eq_ok hnull href h
  cases hid
  have hlt : r.tree.size < r₁.tree.size := by
    have hle := ((Reader.takeData_grows (Reader.objectWithin_grows _) kind).of_ok hdata).1.size_le
    exact Nat.lt_of_lt_of_le (Nat.lt_of_lt_of_eq (Nat.lt_succ_self _) (Tree.size_push ..).symm) hle
  rw [ReaderState.completed, Tree.data_setData d hlt, if_pos rfl]
  exact ⟨_, _, hdata⟩

/-- The record of a node, whose tag has been read, gives a node of the kind of the tag. -/
theorem kind_of_tagged {kind : Kind} {r r' : ReaderState} {id : NodeId} (hnull : kind ≠ .null)
    (href : kind ≠ .objectReference) (h : Reader.tagged kind r = .ok (some id) r') :
    r'.tree.kind id = kind := by
  obtain ⟨r₁, r₂, hdata⟩ := takeData_of_tagged hnull href h
  exact Reader.kind_of_takeData hdata

/-- An external declaration has no module behind it when it has just been read. -/
theorem exists_unlinked_of_tagged {r r' : ReaderState} {id : NodeId}
    (h : Reader.tagged .externalDeclaration r = .ok (some id) r') :
    ∃ i scope k file, r'.tree.data id = .declaration i scope (.external k file none) := by
  obtain ⟨r₁, r₂, hdata⟩ := takeData_of_tagged (by decide) (by decide) h
  obtain ⟨⟨⟨i, k⟩, file, scope, _⟩, r₃, -, hbuild⟩ := bind_eq_ok.mp hdata
  exact ⟨i, scope, k, file, (pure_eq_ok.mp hbuild).1.symm⟩

section

variable {loadExternal : NodeId → Loading NodeId} {s s' : FileState}

/-- External declarations that have been taken: none, or one with the module behind it, and then the
others. -/
theorem readExternals_eq_ok {n : Nat} {externals : List NodeId} {kind : Kind}
    (h : readExternals loadExternal n s = .ok (externals, kind) s') :
    ∃ n' k s₁, n = n' + 1 ∧ take Decoder.kind s = .ok k s₁ ∧
      (k ≠ .externalDeclaration ∧ externals = [] ∧ kind = k ∧ s' = s₁ ∨
        k = .externalDeclaration ∧ ∃ r module ls rest,
          Reader.tagged .externalDeclaration s₁.objectStream = .ok (some s₁.loading.tree.size) r ∧
          loadExternal s₁.loading.tree.size (s₁.withStream r).loading = .ok module ls ∧
          readExternals loadExternal n' { s₁.withStream r with loading := { ls with
            tree := ls.tree.update s₁.loading.tree.size (withModule module) } } =
              .ok (rest, kind) s' ∧
          externals = s₁.loading.tree.size :: rest) := by
  cases n with
  | zero => cases h
  | succ n =>
    obtain ⟨k, s₁, hk, h⟩ := bind_eq_ok.mp h
    refine ⟨n, k, s₁, rfl, hk, ?_⟩
    split at h
    · next hkind =>
      obtain ⟨hpair, rfl⟩ := pure_eq_ok.mp h
      cases hpair
      exact .inl ⟨hkind, rfl, rfl, rfl⟩
    · next hkind =>
      obtain rfl := Decidable.not_not.mp hkind
      obtain ⟨l, s₂, hl, h⟩ := bind_eq_ok.mp h
      obtain ⟨r, hr, rfl⟩ := stream_eq_ok.mp hl
      obtain rfl := tagged_eq_size (by decide) (by decide) hr
      obtain ⟨module, s₃, hmodule, h⟩ := bind_eq_ok.mp h
      obtain ⟨ls, hls, rfl⟩ := meanwhile_eq_ok.mp hmodule
      obtain ⟨_, s₄, hlink, h⟩ := bind_eq_ok.mp h
      cases hlink
      obtain ⟨⟨rest, kind'⟩, s₅, hrest, h⟩ := bind_eq_ok.mp h
      obtain ⟨hpair, rfl⟩ := pure_eq_ok.mp h
      cases hpair
      exact .inr ⟨rfl, r, module, ls, rest, hr, hls, hrest, rfl⟩

/-- The externals and the module that have been taken. -/
theorem readModules_eq_ok {m : LoadedModule} (h : readModules loadExternal s = .ok m s') :
    ∃ kind s₁ r, readExternals loadExternal s.input.length s = .ok (m.externals, kind) s₁ ∧
      kind.isModule = true ∧ m.module = s₁.loading.tree.size ∧
      Reader.tagged kind s₁.objectStream = .ok (some m.module) r ∧ s' = s₁.withStream r := by
  obtain ⟨_, s₀, hget, h⟩ := bind_eq_ok.mp h
  cases hget
  obtain ⟨⟨externals, kind⟩, s₁, hexternals, h⟩ := bind_eq_ok.mp h
  dsimp only at h
  split at h
  · obtain ⟨_, _, hthrow, -⟩ := bind_eq_ok.mp h
    cases hthrow
  · next hkind =>
    have hmodule : kind.isModule = true := by simpa using hkind
    obtain ⟨l, s₂, hl, h⟩ := bind_eq_ok.mp h
    obtain ⟨r, hr, rfl⟩ := stream_eq_ok.mp hl
    obtain rfl := tagged_eq_size (by rintro rfl; cases hmodule) (by rintro rfl; cases hmodule) hr
    obtain ⟨rfl, rfl⟩ := pure_eq_ok.mp h
    exact ⟨kind, s₁, r, hexternals, hmodule, rfl, hr, rfl⟩

/-- A file that has been read: its header, and what follows it. -/
theorem read_eq_ok {bytes : Bytes} {l l' : LoadState} {m : LoadedModule}
    (h : read loadExternal bytes l = .ok m l') :
    ∃ s₁ s₂, readHeader { input := bytes, loading := l } = .ok () s₁ ∧
      readModules loadExternal s₁ = .ok m s₂ ∧ l' = s₂.loading := by
  rw [read, readAll_eq] at h
  split at h
  · next hall =>
    cases h
    obtain ⟨_, s₁, hheader, hmodules⟩ := bind_eq_ok.mp hall
    exact ⟨s₁, _, hheader, hmodules, rfl⟩
  · cases h

/-- A file that has been read gives a class or procedure. -/
theorem isModule_of_read {bytes : Bytes} {l l' : LoadState} {m : LoadedModule}
    (h : read loadExternal bytes l = .ok m l') : (l'.tree.kind m.module).isModule = true := by
  obtain ⟨s₁, s₂, -, hmodules, rfl⟩ := read_eq_ok h
  obtain ⟨kind, s₃, r, -, hkind, -, htagged, rfl⟩ := readModules_eq_ok hmodules
  have hr := kind_of_tagged (by rintro rfl; cases hkind) (by rintro rfl; cases hkind) htagged
  change (r.tree.kind m.module).isModule = true
  rw [hr]
  exact hkind

end

end Simula.AttributeFile
