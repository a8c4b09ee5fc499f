import Mathlib.Data.List.Perm.Subperm
import Simula.Proofs.AttributeFile.Parts
import Simula.Proofs.Recording
import Simula.Proofs.Session.Loading

/-!
# The files that a load decodes

A load goes from file to file, and refuses one that is being read already. A chain of files that
are being read therefore has no more of them than the package has entries, and a load that may go as
deep as that comes to its end.

Which files are decoded on the way is told by a load that keeps a record of them. The record makes no
difference to the load, and its entries are those that the load adds to the table of loaded files.
-/

namespace Simula

open AttributeFile

/-- The entries that have been loaded, the latest first. -/
def LoadState.entries (s : LoadState) : List String := s.loaded.map (·.1)

/-- The later state has further entries, given in the order in which they came. -/
def LoadState.Adds (s : LoadState) (news : List String) (s' : LoadState) : Prop :=
  s'.entries = news.reverse ++ s.entries

namespace Session

/-! ## Depth -/

/-- An entry that a package can read is one of its names. -/
theorem mem_keys_of_read {package : Package} {entry : String} {bytes : Bytes}
    (h : package.library.read entry = .ok bytes) : entry ∈ package.keys := by
  have hget := get?_of_read h
  rw [Package.get?, Option.join_eq_some_iff] at hget
  exact List.mem_map_of_mem (f := (·.1)) (mem_of_lookup hget)

/-- How an entry in progress would be read makes no difference. -/
theorem remembered_of_mem {inProgress : List String} {entry : String} (h : entry ∈ inProgress)
    (read read' : Loading LoadedModule) :
    remembered inProgress entry read = remembered inProgress entry read' := by
  funext s
  rw [remembered, remembered, bind_of_ok (get_apply s), bind_of_ok (get_apply s)]
  cases s.loaded.lookup entry with
  | some m => rfl
  | none =>
    dsimp only
    rw [if_pos h, if_pos h, bind_of_error (throw_apply _ s), bind_of_error (throw_apply _ s)]

/-- Entries in progress are different names of the package. When they are all of its names, no other
file can be read, so no depth beyond that makes a difference. -/
theorem loadWithin_succ {package : Package} {depth : Nat} {inProgress : List String}
    (hnodup : inProgress.Nodup) (hsubset : inProgress ⊆ package.keys)
    (hdepth : package.size ≤ depth + inProgress.length) (entry : String) :
    loadWithin package.library (depth + 1) inProgress entry =
      loadWithin package.library depth inProgress entry := by
  induction depth generalizing inProgress entry with
  | zero =>
    rw [loadWithin, loadWithin]
    cases hread : package.library.read entry with
    | error e =>
      have he : e = .missingAttributeFile entry := by
        change package.read entry = _ at hread
        rw [Package.read] at hread
        split at hread <;> cases hread
        rfl
      rw [he]
    | ok bytes =>
      have hin : entry ∈ inProgress := by
        have hlength : package.keys.length ≤ inProgress.length := by
          simpa [Table.keys, Table.size] using hdepth
        have hall := (hnodup.subperm hsubset).perm_of_length_le hlength
        exact hall.mem_iff.mpr (mem_keys_of_read hread)
      exact remembered_of_mem hin _ _
  | succ depth ih =>
    by_cases hin : entry ∈ inProgress
    · rw [loadWithin, loadWithin]
      exact remembered_of_mem hin _ _
    rw [loadWithin, loadWithin]
    cases hread : package.library.read entry with
    | error e => rfl
    | ok bytes =>
      have hrest : ∀ file, loadWithin package.library (depth + 1) (entry :: inProgress) file =
          loadWithin package.library depth (entry :: inProgress) file :=
        ih (List.nodup_cons.mpr ⟨hin, hnodup⟩)
          (List.cons_subset.mpr ⟨mem_keys_of_read hread, hsubset⟩)
          (by rw [List.length_cons]; omega)
      dsimp only
      rw [funext hrest]

/-- A load has the same outcome at every depth from the number of the entries on. -/
theorem loadWithin_of_size_le {package : Package} {depth : Nat} (h : package.size ≤ depth)
    (entry : String) : loadWithin package.library depth [] entry =
      loadWithin package.library package.size [] entry := by
  induction h with
  | refl => rfl
  | step hle ih => rw [loadWithin_succ .nil (List.nil_subset _) hle, ih]

/-! ## Decoded files -/

/-- A loading action with a record of the entries whose files have been decoded. -/
abbrev LoadRecorder := Recording Error LoadState String

/-- An action on a file with such a record. -/
abbrev FileRecorder := Recording Error FileState String

open Recording (plain note)

/-- `meanwhile` with a record. -/
def recordMeanwhile {α : Type} (l : LoadRecorder α) : FileRecorder α :=
  fun (⟨input, objects, loading⟩, record) =>
    match l (loading, record) with
    | .ok a (loading, record) => .ok a (⟨input, objects, loading⟩, record)
    | .error e (loading, record) => .error e (⟨input, objects, loading⟩, record)

/-- `readExternals` with a record. -/
def recordExternals (loadExternal : NodeId → LoadRecorder NodeId) :
    Nat → FileRecorder (List NodeId × Kind)
  | 0 => throw (.format .endOfInput)
  | n + 1 => do
    let kind ← plain (take Decoder.kind)
    if kind ≠ .externalDeclaration then return ([], kind)
    match ← plain (stream (Reader.tagged kind)) with
    | none => throw (.internal .nullModule)
    | some external =>
      let module ← recordMeanwhile (loadExternal external)
      plain (linkExternal external module)
      let (externals, kind) ← recordExternals loadExternal n
      return (external :: externals, kind)

/-- `readModules` with a record. -/
def recordModules (loadExternal : NodeId → LoadRecorder NodeId) : FileRecorder LoadedModule := do
  let (externals, kind) ← recordExternals loadExternal (← plain get).input.length
  if !kind.isModule then throw (.internal (.notAModuleRecord kind))
  match ← plain (stream (Reader.tagged kind)) with
  | none => throw (.internal .nullModule)
  | some module => return { module, externals }

/-- `read` with a record. -/
def recordRead (loadExternal : NodeId → LoadRecorder NodeId) (bytes : Bytes) :
    LoadRecorder LoadedModule :=
  fun (loading, record) =>
    match (plain readHeader >>= fun _ => recordModules loadExternal)
      ({ input := bytes, loading := loading }, record) with
    | .ok m (s, record) => .ok m (s.loading, record)
    | .error e (s, record) => .error e (s.loading, record)

/-- `loadExternal` with a record. -/
def recordExternal (load : String → LoadRecorder LoadedModule) (external : NodeId) :
    LoadRecorder NodeId := do
  match (← plain get).tree.data external with
  | .declaration _ _ (.external moduleKind entry _) =>
    let m ← load entry
    let found := (← plain get).tree.kind m.module
    if found = moduleKind then return m.module
    else throw (.format (.wrongModule entry found moduleKind))
  | _ => throw (.internal (.notAnExternal external))

/-- `remembered` with a record: the entry is recorded when its file has been read to the end. -/
def recordRemembered (inProgress : List String) (entry : String)
    (read : LoadRecorder LoadedModule) : LoadRecorder LoadedModule := do
  match (← plain get).loaded.lookup entry with
  | some m => return m
  | none =>
    if entry ∈ inProgress then throw (.format (.selfReference entry))
    let m ← read
    note fun _ => entry
    plain (modify fun s => { s with loaded := (entry, m) :: s.loaded })
    return m

/-- `loadWithin` with a record. -/
def recordWithin (library : AttributeLibrary) :
    Nat → List String → String → LoadRecorder LoadedModule
  | 0, inProgress, entry =>
    recordRemembered inProgress entry (throw (.missingAttributeFile entry))
  | depth + 1, inProgress, entry => recordRemembered inProgress entry do
    match library.read entry with
    | .error e => throw e
    | .ok bytes =>
      recordRead (recordExternal (recordWithin library depth (entry :: inProgress))) bytes

/-! ## The table grows by what is decoded -/

instance : RecordTrail LoadState.Adds where
  nil _ := rfl
  append {_ _ _ added added'} h h' := by
    rw [LoadState.Adds, h', h, List.reverse_append, List.append_assoc]

/-- The table has further entries when the file has been read on. -/
def FileAdds (s : FileState) (news : List String) (s' : FileState) : Prop :=
  s.loading.Adds news s'.loading

instance : RecordTrail FileAdds where
  nil s := RecordTrail.nil s.loading
  append := RecordTrail.append (R := LoadState.Adds)

/-- Reading from the object stream adds no entry. -/
theorem records_stream {α : Type} (r : Reader α) (s : FileState) :
    Records FileAdds (plain (stream r)) (stream r) s := by
  refine .plain _ ?_
  obtain ⟨input, objects, tree, hierarchy, loaded⟩ := s
  rw [leaves, stream]
  cases r ⟨input, tree, objects⟩ <;> rfl

/-- What is recorded of another file is recorded while this one is being read. -/
theorem records_meanwhile {α : Type} {l : LoadRecorder α} {y : Loading α} {s : FileState}
    (h : Records LoadState.Adds l y s.loading) :
    Records FileAdds (recordMeanwhile l) (meanwhile y) s := by
  obtain ⟨input, objects, loading⟩ := s
  obtain ⟨added, hadded, hrun⟩ := h
  dsimp only at hadded hrun
  refine ⟨added, ?_, fun record => ?_⟩
  · rw [FileAdds, leaves, meanwhile]
    rw [leaves] at hadded
    cases hy : y loading <;> rw [hy] at hadded <;> exact hadded
  · rw [recordMeanwhile, meanwhile, hrun]
    cases y loading <;> rfl

section

variable {record : NodeId → LoadRecorder NodeId} {load : NodeId → Loading NodeId}
variable (hload : ∀ external s, Records LoadState.Adds (record external) (load external) s)
include hload

/-- The external declarations of a file are taken with a record as without. -/
theorem records_readExternals (n : Nat) (s : FileState) :
    Records FileAdds (recordExternals record n) (readExternals load n) s := by
  induction n generalizing s with
  | zero => exact .throw _
  | succ n ih =>
    refine .bind (records_stream _ s) fun {kind s₁} _ => ?_
    split
    · exact .pure _
    · refine .bind (records_stream _ s₁) fun {external s₂} _ => ?_
      cases external with
      | none => exact .throw _
      | some external =>
        refine .bind (records_meanwhile (hload external s₂.loading)) fun {module s₃} _ => ?_
        exact .bind (.plain _ rfl) fun {_ s₄} _ => .bind (ih s₄) fun _ => .pure _

/-- What follows the header is read with a record as without. -/
theorem records_readModules (s : FileState) :
    Records FileAdds (recordModules record) (readModules load) s := by
  refine .get (.bind (records_readExternals hload _ s) fun {a s₁} _ => ?_)
  obtain ⟨externals, kind⟩ := a
  dsimp only
  split
  · exact .bind (.throw _) nofun
  · refine .bind (records_stream _ s₁) fun {module s₂} _ => ?_
    cases module with
    | none => exact .throw _
    | some module => exact .pure _

/-- A file is read with a record as without. -/
theorem records_read (bytes : Bytes) (s : LoadState) :
    Records LoadState.Adds (recordRead record bytes) (read load bytes) s := by
  have hheader : Records FileAdds (plain readHeader) readHeader
      { input := bytes, loading := s } := by
    refine .plain _ ?_
    have hsame := readHeader_sameNodes { input := bytes, loading := s }
    rw [FileAdds, LoadState.Adds, LoadState.entries, hsame.loaded]
    rfl
  obtain ⟨added, hadded, hrun⟩ := hheader.bind fun {_ s₁} _ => records_readModules hload s₁
  rw [← readAll_eq] at hadded hrun
  refine ⟨added, ?_, fun log => ?_⟩
  · rw [leaves, AttributeFile.read]
    rw [FileAdds, leaves] at hadded
    cases hall : readAll load { input := bytes, loading := s } <;> rw [hall] at hadded <;>
      exact hadded
  · rw [recordRead, hrun, AttributeFile.read]
    cases readAll load { input := bytes, loading := s } <;> rfl

end

/-- The module behind an external declaration is loaded with a record as without. -/
theorem records_loadExternal {record : String → LoadRecorder LoadedModule}
    {load : String → Loading LoadedModule}
    (hload : ∀ file s, Records LoadState.Adds (record file) (load file) s) (external : NodeId)
    (s : LoadState) :
    Records LoadState.Adds (recordExternal record external) (loadExternal load external) s := by
  refine .get ?_
  rcases s.tree.data external with _ | ⟨_, _, form⟩ | _ | _ | _
  case declaration =>
    cases form with
    | external kind entry _ =>
      refine .bind (hload entry s) fun {m s₁} _ => .get ?_
      dsimp only
      split
      · exact .pure _
      · exact .throw _
    | _ => exact .throw _
  all_goals exact .throw _

/-- An entry is recorded when it is added to the table. -/
theorem records_remembered {inProgress : List String} {entry : String}
    {record : LoadRecorder LoadedModule} {load : Loading LoadedModule} {s : LoadState}
    (hload : Records LoadState.Adds record load s) :
    Records LoadState.Adds (recordRemembered inProgress entry record)
      (remembered inProgress entry load) s := by
  refine .get ?_
  cases s.loaded.lookup entry with
  | some m => exact .pure m
  | none =>
    dsimp only
    split
    · exact .bind (.throw _) nofun
    · exact hload.bind fun {m s₁} _ => ⟨[entry], rfl, fun log => rfl⟩

/-- **Loading with a record.** A load with a record of the files that it decodes does what the load
does, and the entries of the record are those that the table of loaded files grows by, in their
order. -/
theorem records_loadWithin (library : AttributeLibrary) (depth : Nat) (inProgress : List String)
    (entry : String) (s : LoadState) :
    Records LoadState.Adds (recordWithin library depth inProgress entry)
      (loadWithin library depth inProgress entry) s := by
  induction depth generalizing inProgress entry s with
  | zero => exact records_remembered (.throw _)
  | succ depth ih =>
    refine records_remembered ?_
    cases library.read entry with
    | error e => exact .throw e
    | ok bytes => exact records_read (records_loadExternal (ih (entry :: inProgress))) bytes s

end Session

end Simula
