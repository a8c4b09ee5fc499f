import Simula.Proofs.AttributeFile.Header
import Simula.Session

/-!
# What loading leaves as it is

Loading an attribute file, and with it the files that it names, only appends nodes to the tree:
the only nodes that are changed are the external declarations that the same file has brought.
This holds whether the file can be loaded or not.
-/

namespace Simula

/-- Loading has only appended nodes. -/
def LoadState.Extends (s s' : LoadState) : Prop := s.tree.Extends s'.tree

instance : Std.Refl LoadState.Extends := ⟨fun s => .refl s.tree⟩

instance : Trans LoadState.Extends LoadState.Extends LoadState.Extends := ⟨Tree.Extends.trans⟩

namespace AttributeFile

/-! ## Reading step by step -/

/-- A relation between states of a file that taking a value and recording an edge follow. -/
structure HeaderFrame (R : FileState → FileState → Prop) : Prop where
  take : ∀ {α : Type} (d : Decoder α), Follows R (take d)
  edge : ∀ sub sup : ClassIdentity, Follows R (registerEdge sub sup)

section

variable {R : FileState → FileState → Prop} [Std.Refl R] [Trans R R R]

/-- Reading a text of the header takes one value. -/
theorem HeaderFrame.headerString (h : HeaderFrame R) : Follows R headerString := by
  refine (h.take _).bind fun text => ?_
  cases text with
  | none => exact .throw _
  | some text => exact .pure text

/-- Reading the edges of a header follows what each of its steps follows. -/
theorem HeaderFrame.readEdges (h : HeaderFrame R) (n : Nat) : Follows R (readEdges n) := by
  induction n with
  | zero => exact .throw _
  | succ n ih =>
    refine h.headerString.bind fun package => ?_
    split
    · exact .pure ()
    · exact h.headerString.bind fun _ => h.headerString.bind fun _ =>
        h.headerString.bind fun _ => (h.edge _ _).bind fun _ => ih

/-- Reading the record of a module follows what its object stream follows. -/
theorem readModule_follows {kind : Kind} (h : Follows R (stream (Reader.tagged kind)))
    (externals : List NodeId) : Follows R (do
      match ← stream (Reader.tagged kind) with
      | none => throw (.internal .nullModule)
      | some module => return ({ module, externals } : LoadedModule)) := by
  refine h.bind fun l => ?_
  cases l with
  | none => exact .throw _
  | some module => exact .pure _

section

variable {loadExternal : NodeId → Loading NodeId}
variable (hexternals : ∀ n, Follows R (readExternals loadExternal n))
  (htagged : ∀ kind, Follows R (stream (Reader.tagged kind)))
include hexternals htagged

/-- Reading a module behind its external declarations follows what reading both follows. -/
theorem readModules_follows_of : Follows R (readModules loadExternal) := by
  refine Follows.get.bind fun s => (hexternals _).bind fun found => ?_
  dsimp only
  split
  · exact (Follows.throw _).bind fun _ => readModule_follows (htagged _) _
  · exact readModule_follows (htagged _) _

/-- Reading a whole file follows what its parts follow. -/
theorem HeaderFrame.readAll (h : HeaderFrame R) : Follows R (readAll loadExternal) := by
  refine (h.take _).bind fun found => ?_
  have hrest : Follows R (do
      AttributeFile.readEdges (← get).input.length
      readModules loadExternal) :=
    Follows.get.bind fun s => (h.readEdges _).bind fun _ =>
      readModules_follows_of hexternals htagged
  dsimp only
  split
  · exact (Follows.throw _).bind fun _ => hrest
  · exact hrest

end

end

/-- Reading a file does to what is loaded what its steps do. -/
theorem read_follows_of {R : LoadState → LoadState → Prop} {loadExternal : NodeId → Loading NodeId}
    (h : Follows (fun s s' : FileState => R s.loading s'.loading) (readAll loadExternal))
    (bytes : Bytes) : Follows R (read loadExternal bytes) := by
  intro s
  have hall := h { input := bytes, loading := s }
  cases hread : readAll loadExternal { input := bytes, loading := s } with
  | ok m s' =>
    rw [leaves_of_ok hread] at hall
    rw [leaves, read, hread]
    exact hall
  | error e s' =>
    rw [leaves_of_error hread] at hall
    rw [leaves, read, hread]
    exact hall

/-! ## Appending nodes -/

/-- Reading a file has only appended nodes. -/
def FileState.Extends (s s' : FileState) : Prop := s.loading.Extends s'.loading

instance : Std.Refl FileState.Extends := ⟨fun s => .refl s.loading.tree⟩

instance : Trans FileState.Extends FileState.Extends FileState.Extends := ⟨Tree.Extends.trans⟩

/-- An action on the object stream only appends nodes if it does so in the stream. -/
theorem stream_follows {α : Type} {m : Reader α} (h : m.Grows) :
    Follows FileState.Extends (stream m) := by
  intro s
  cases hm : m s.objectStream with
  | ok a r =>
    rw [leaves_of_ok (stream_of_ok hm)]
    exact (h.of_ok hm).1.toExtends
  | error e r =>
    rw [leaves_of_error (stream_of_error hm)]
    exact (h.of_error hm).toExtends

/-- Taking a value leaves all nodes. -/
theorem take_follows {α : Type} (d : Decoder α) : Follows FileState.Extends (take d) :=
  stream_follows (Reader.take_grows d)

/-- Reading the header leaves all nodes. -/
theorem headerFrame_extends : HeaderFrame FileState.Extends where
  take := take_follows
  edge _ _ := .of_modify fun s => .refl s.loading.tree

/-- What else is loaded while a file is read moves the file on. -/
theorem meanwhile_of_ok {α : Type} {l : Loading α} {s : FileState} {a : α} {loading : LoadState}
    (h : l s.loading = .ok a loading) : meanwhile l s = .ok a { s with loading := loading } := by
  rw [meanwhile, h]

/-- A failure in loading something else is a failure of the file. -/
theorem meanwhile_of_error {α : Type} {l : Loading α} {s : FileState} {e : Error}
    {loading : LoadState} (h : l s.loading = .error e loading) :
    meanwhile l s = .error e { s with loading := loading } := by
  rw [meanwhile, h]

/-- The record of a node, whose tag has been read, gets the next number of the tree. -/
theorem tagged_eq_size {kind : Kind} {r r' : ReaderState} {l : Option NodeId}
    (hnull : kind ≠ .null) (href : kind ≠ .objectReference)
    (h : Reader.tagged kind r = .ok l r') : l = some r.tree.size := by
  obtain ⟨_, _, _, _, _, -, -, hl, -⟩ := Reader.takeTagged_eq_ok hnull href h
  exact hl

/-- The module behind an external declaration does not show in its kind. -/
theorem kind_withModule (module : NodeId) (d : NodeData) : (withModule module d).kind = d.kind := by
  unfold withModule
  split <;> rfl

section

variable {loadExternal : NodeId → Loading NodeId}
variable (hload : ∀ id, Follows LoadState.Extends (loadExternal id))
include hload

/-- An external declaration is changed only after the file has brought it. -/
theorem readExternal_follows (n : Nat)
    (hrest : Follows FileState.Extends (readExternals loadExternal n)) :
    Follows FileState.Extends (do
      match ← stream (Reader.tagged .externalDeclaration) with
      | none => throw (.internal .nullModule)
      | some external =>
        linkExternal external (← meanwhile (loadExternal external))
        let (externals, kind) ← readExternals loadExternal n
        return (external :: externals, kind)) := by
  intro s
  have hstream := stream_follows (Reader.tagged_grows .externalDeclaration) s
  cases htagged : Reader.tagged .externalDeclaration s.objectStream with
  | error e r =>
    rw [leaves_of_error (bind_of_error (stream_of_error htagged))]
    rwa [leaves_of_error (stream_of_error htagged)] at hstream
  | ok l r =>
    obtain rfl := tagged_eq_size (by decide) (by decide) htagged
    rw [leaves_of_ok (stream_of_ok htagged)] at hstream
    rw [leaves_bind_of_ok (stream_of_ok htagged)]
    have hloaded := hload s.objectStream.tree.size (s.withStream r).loading
    cases hl : loadExternal s.objectStream.tree.size (s.withStream r).loading with
    | error e loading =>
      rw [leaves_of_error hl] at hloaded
      rw [leaves_of_error (bind_of_error (meanwhile_of_error hl))]
      exact hstream.trans hloaded
    | ok module loading =>
      rw [leaves_of_ok hl] at hloaded
      rw [leaves_bind_of_ok (meanwhile_of_ok hl), linkExternal,
        leaves_bind_of_ok (modify_apply _ _)]
      -- The external is the first of the new nodes, so linking it leaves the old ones.
      have hlinked : s.Extends { s.withStream r with
          loading := { loading with
            tree := loading.tree.update s.loading.tree.size (withModule module) } } :=
        Tree.Extends.update (hstream.trans hloaded) (Nat.le_refl _) _
      have hnext : Follows FileState.Extends (do
          let (externals, kind) ← readExternals loadExternal n
          return (s.objectStream.tree.size :: externals, kind)) := hrest.bind fun _ => .pure _
      exact Trans.trans hlinked (hnext _)

/-- Reading external declarations only adds nodes, and completes those that it adds. -/
theorem readExternals_follows (n : Nat) :
    Follows FileState.Extends (readExternals loadExternal n) := by
  induction n with
  | zero => exact .throw _
  | succ n ih =>
    refine (take_follows _).bind fun kind => ?_
    split
    · exact .pure _
    · next hkind =>
      obtain rfl := Decidable.not_not.mp hkind
      exact readExternal_follows hload n ih

/-- Reading a file only adds nodes. -/
theorem readAll_follows : Follows FileState.Extends (readAll loadExternal) :=
  headerFrame_extends.readAll (readExternals_follows hload) fun kind =>
    stream_follows (Reader.tagged_grows kind)

/-- Reading a file only appends nodes if loading what it names does. -/
theorem read_follows (bytes : Bytes) : Follows LoadState.Extends (read loadExternal bytes) :=
  read_follows_of (readAll_follows hload) bytes

end

end AttributeFile

namespace Session

/-! ## Loading entry by entry -/

/-- A relation between states of loading that entering a module in the table follows, and reading a
file if loading what the file names does. -/
structure LoadFrame (R : LoadState → LoadState → Prop) : Prop where
  enter : ∀ (s : LoadState) (entry : String) (m : LoadedModule),
    R s { s with loaded := (entry, m) :: s.loaded }
  read : ∀ {loadExternal : NodeId → Loading NodeId}, (∀ id, Follows R (loadExternal id)) →
    ∀ bytes, Follows R (AttributeFile.read loadExternal bytes)

section

variable {R : LoadState → LoadState → Prop} [Std.Refl R] [Trans R R R]

/-- Loading the module behind an external declaration follows what loading its file follows. -/
theorem loadExternal_follows {load : String → Loading LoadedModule}
    (h : ∀ entry, Follows R (load entry)) (external : NodeId) :
    Follows R (loadExternal load external) := by
  refine Follows.get.bind fun s => ?_
  split
  · refine (h _).bind fun m => Follows.get.bind fun s => ?_
    dsimp only
    split
    · exact .pure _
    · exact .throw _
  · exact .throw _

/-- Loading a file that may have been loaded follows what reading it follows. -/
theorem LoadFrame.remembered (hframe : LoadFrame R) {inProgress : List String} {entry : String}
    {read : Loading LoadedModule} (h : Follows R read) :
    Follows R (remembered inProgress entry read) := by
  refine Follows.get.bind fun s => ?_
  cases s.loaded.lookup entry with
  | some m => exact .pure m
  | none =>
    have hread : Follows R (do
        let m ← read
        modify fun s => { s with loaded := (entry, m) :: s.loaded }
        return m) :=
      h.bind fun m => (Follows.of_modify fun s => hframe.enter s entry m).bind fun _ => .pure m
    dsimp only
    split
    · exact (Follows.throw _).bind fun _ => hread
    · exact hread

/-- Loading an entry of a library follows what entering modules and reading files follow. -/
theorem LoadFrame.loadWithin (hframe : LoadFrame R) (library : AttributeLibrary) (depth : Nat)
    (inProgress : List String) (entry : String) :
    Follows R (loadWithin library depth inProgress entry) := by
  induction depth generalizing inProgress entry with
  | zero => exact hframe.remembered (.throw _)
  | succ depth ih =>
    refine hframe.remembered ?_
    split
    · exact .throw _
    · exact hframe.read (loadExternal_follows fun entry => ih _ entry) _

end

/-- Loading only adds nodes. -/
theorem loadFrame_extends : LoadFrame LoadState.Extends where
  enter s _ _ := .refl s.tree
  read := AttributeFile.read_follows

/-- Loading an entry of a library only appends nodes. -/
theorem loadWithin_follows (library : AttributeLibrary) (depth : Nat) (inProgress : List String)
    (entry : String) : Follows LoadState.Extends (loadWithin library depth inProgress entry) :=
  loadFrame_extends.loadWithin library depth inProgress entry

end Session

end Simula
