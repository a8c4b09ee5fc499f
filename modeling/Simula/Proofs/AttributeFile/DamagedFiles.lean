import Simula.Proofs.AttributeFile.Bounds
import Simula.Proofs.ObjectStream.Parsing
import Simula.Proofs.ObjectStream.Rewriting

/-!
# Damaged files

The format is self-delimiting: an object, and a file without external declarations, is told from its
own bytes. What follows these bytes makes no difference, and without all of them the input ends too
early, wherever it has been cut.

A file that cannot be read is at fault itself and has to be compiled again. There is one exception,
in which the reader takes the blame: behind a header that is in order stands the record of something
that is not a module.
-/

namespace Simula

open HasInput

/-! ## Objects -/

namespace Reader

/-- Reading an object parses. -/
theorem object_parses : Parses FileFault object :=
  .of_bounded objectWithin_parses fun _ _ hs =>
    (SameOn.eq_of_size_le objectWithin_succ hs).symm

/-- Reading an object whose tag has been read parses. -/
theorem tagged_parses (kind : Kind) : Parses FileFault (tagged kind) := by
  have hsame : ∀ n, SameOn (ReaderState.Within n) (takeTagged (objectWithin n) kind)
      (takeTagged (objectWithin (n + 1)) kind) := fun n =>
    ((agree_frame n).takeTagged ⟨objectWithin_succ n, within_of_pays (objectWithin_pays n)⟩ kind).same
  have hparses : ∀ n, Parses FileFault (takeTagged (objectWithin n) kind) := fun n =>
    parses_frame.takeTagged (y := objectWithin n) (objectWithin_parses n) kind
  exact .of_bounded hparses fun _ _ hs => (SameOn.eq_of_size_le hsame hs).symm

end Reader

namespace AttributeFile

instance : HasInput FileState where
  input s := s.input
  setInput bytes s := { s with input := bytes }
  input_setInput _ _ := rfl
  setInput_input _ := rfl

/-! ## The header -/

section

variable {α : Type} {faults : Error → Prop}

/-- Reading from the object stream of a file parses as it does from a stream. -/
theorem stream_parses {x : Reader α} (h : Parses faults x) : Parses faults (stream x) :=
  h.lift FileState.objectStream (fun r s => s.withStream r) stream_of_ok
    stream_of_error (fun _ => rfl) (fun _ _ => rfl) (fun _ _ => rfl) fun _ _ _ _ => rfl

/-- Taking a value from a file parses as it does from a stream. -/
theorem take_parses {d : Decoder α} (h : Parses FileFault d) : Parses FileFault (take d) :=
  stream_parses (Reader.take_parses h)

end

/-- Reading a text of the header parses. -/
theorem headerString_parses : Parses FileFault headerString := by
  refine (take_parses Decoder.string_parses).bind fun text => ?_
  cases text with
  | none => exact .throw rfl
  | some text => exact .pure text

/-- Reading the edges in the header parses. -/
theorem readEdges_parses (n : Nat) : Parses FileFault (readEdges n) := by
  induction n with
  | zero => exact .throw rfl
  | succ n ih =>
    have hedge : ∀ sub sup, Parses FileFault (registerEdge sub sup) := fun sub sup =>
      .of_blind (fun _ _ => rfl) nofun
    refine headerString_parses.bind fun package => ?_
    split
    · exact .pure ()
    · exact headerString_parses.bind fun _ => headerString_parses.bind fun _ =>
        headerString_parses.bind fun _ => (hedge _ _).bind fun _ => ih

/-- The header of a file is parsed. -/
theorem readHeader_parses : Parses FileFault readHeader := by
  have hedges : Parses FileFault (do readEdges (← get).input.length) :=
    .of_bounded readEdges_parses fun n s hs => ((endsByItself s).edges n hs).symm
  refine (take_parses Decoder.string_parses).bind fun found => ?_
  dsimp only
  split
  · exact .bind (.throw rfl) fun _ => hedges
  · exact hedges

/-! ## Files without external declarations -/

/-- Takes the module of a file without external declarations. -/
def readModule : FileReader LoadedModule := do
  let kind ← take Decoder.kind
  if !kind.isModule then throw (.internal (.notAModuleRecord kind))
  match ← stream (Reader.tagged kind) with
  | none => throw (.internal .nullModule)
  | some module => return { module, externals := [] }

/-- Takes a whole file without external declarations. -/
def readAlone : FileReader LoadedModule := do
  readHeader
  readModule

/-- The file has no external declarations: its header cannot be read, or is followed by another tag
or by nothing. -/
def WithoutExternals (bytes : Bytes) (l : LoadState) : Prop :=
  ∀ s, readHeader { input := bytes, loading := l } = .ok () s →
    s.input.head? ≠ some (UInt8.ofNat Kind.externalDeclaration.tag)

instance (bytes : Bytes) (l : LoadState) : Decidable (WithoutExternals bytes l) :=
  match h : readHeader { input := bytes, loading := l } with
  | .ok () s => decidable_of_iff
      (s.input.head? ≠ some (UInt8.ofNat Kind.externalDeclaration.tag))
      ⟨fun hne s' hs => by cases h.symm.trans hs; exact hne, fun hall => hall s h⟩
  | .error _ _ => isTrue fun s' hs => by cases h.symm.trans hs

section

variable (loadExternal : NodeId → Loading NodeId) {s s' : FileState}

/-- A kind is taken from the first byte. -/
theorem take_kind_eq_ok {k : Kind} : take Decoder.kind s = .ok k s' ↔
    ∃ (b : UInt8) (rest : Bytes), s.input = b :: rest ∧ Kind.ofTag? b.toNat = some k ∧
      s' = { s with input := rest } := by
  constructor
  · intro h
    obtain ⟨r, hr, rfl⟩ := stream_eq_ok.mp h
    obtain ⟨hkind, htree, hobjects⟩ := Reader.take_eq_ok hr
    obtain ⟨b, hinput, htag⟩ := Decoder.kind_eq_ok.mp hkind
    refine ⟨b, r.input, hinput, htag, ?_⟩
    rw [FileState.withStream, htree, hobjects]
    rfl
  · rintro ⟨b, rest, hinput, htag, rfl⟩
    exact stream_of_ok (Reader.take_of_ok (Decoder.kind_eq_ok.mpr ⟨b, hinput, htag⟩))

/-- What follows the header is read as the module alone, unless it is an external declaration. -/
theorem readModules_eq (h : ∀ s', take Decoder.kind s ≠ .ok .externalDeclaration s') :
    readModules loadExternal s = readModule s := by
  have hbound := (endsByItself s).externals loadExternal (s.input.length + 1) (Nat.le_succ _)
  cases hkind : take Decoder.kind s with
  | error e s₁ =>
    have hexternals : readExternals loadExternal (s.input.length + 1) s = .error e s₁ :=
      bind_of_error hkind
    rw [readModule, bind_of_error hkind]
    exact (bind_of_ok (get_apply s)).trans (bind_of_error (hbound ▸ hexternals))
  | ok k s₁ =>
    have hne : k ≠ .externalDeclaration := fun heq => h s₁ (heq ▸ hkind)
    have hexternals : readExternals loadExternal (s.input.length + 1) s = .ok ([], k) s₁ := by
      rw [readExternals, bind_of_ok hkind, if_pos hne]
      rfl
    rw [readModule, bind_of_ok hkind]
    exact (bind_of_ok (get_apply s)).trans (bind_of_ok (hbound ▸ hexternals))

/-- What is not a module is not read as one. -/
theorem readModule_of_not_isModule {k : Kind} {s₁ : FileState}
    (hkind : take Decoder.kind s = .ok k s₁) (hmodule : k.isModule = false) :
    readModule s = .error (.internal (.notAModuleRecord k)) s₁ := by
  rw [readModule, bind_of_ok hkind, hmodule]
  rfl

/-- A file is read as one without external declarations, unless it is refused for having one. -/
theorem readAll_eq_readAlone : readAll loadExternal s = readAlone s ∨
    ∃ s', readAlone s = .error (.internal (.notAModuleRecord .externalDeclaration)) s' := by
  rw [readAll_eq, readAlone]
  cases hheader : readHeader s with
  | error e s₁ => exact .inl (by rw [bind_of_error hheader, bind_of_error hheader])
  | ok u s₁ =>
    rw [bind_of_ok hheader, bind_of_ok hheader]
    by_cases hexternal : ∃ s₂, take Decoder.kind s₁ = .ok .externalDeclaration s₂
    · obtain ⟨s₂, hkind⟩ := hexternal
      exact .inr ⟨s₂, readModule_of_not_isModule hkind rfl⟩
    · exact .inl (readModules_eq loadExternal (not_exists.mp hexternal))

/-- The header of a file without external declarations is not followed by the tag of one. -/
theorem WithoutExternals.ne_externalDeclaration {bytes : Bytes} {l : LoadState}
    (h : WithoutExternals bytes l)
    (hheader : readHeader { input := bytes, loading := l } = .ok () s) :
    take Decoder.kind s ≠ .ok .externalDeclaration s' := by
  intro hkind
  obtain ⟨b, rest, hinput, htag, -⟩ := take_kind_eq_ok.mp hkind
  have hb : Kind.externalDeclaration.tag = b.toNat := Coded.code_of_ofCode? htag
  refine h s hheader ?_
  rw [hinput, hb, UInt8.ofNat_toNat]
  rfl

/-- A file without external declarations is read as one. -/
theorem WithoutExternals.readAll_eq {bytes : Bytes} {l : LoadState}
    (h : WithoutExternals bytes l) : readAll loadExternal { input := bytes, loading := l } =
      readAlone { input := bytes, loading := l } := by
  rw [AttributeFile.readAll_eq, readAlone]
  cases hheader : readHeader { input := bytes, loading := l } with
  | error e s₁ => rw [bind_of_error hheader, bind_of_error hheader]
  | ok u s₁ =>
    rw [bind_of_ok hheader, bind_of_ok hheader]
    exact readModules_eq loadExternal fun _ => h.ne_externalDeclaration hheader

/-- The bytes that a file without external declarations takes decide what it is read as. -/
theorem readAlone_parses : Parses (fun _ => True) readAlone := by
  have hany : ∀ {e}, FileFault e → True := fun _ => trivial
  refine (readHeader_parses.mono hany).bind fun _ =>
    ((take_parses Decoder.kind_parses).mono hany).bind fun kind => ?_
  have hmodule : Parses (fun _ => True) (do
      match ← stream (Reader.tagged kind) with
      | none => throw (.internal .nullModule)
      | some module => return { module, externals := [] } : FileReader LoadedModule) := by
    refine (stream_parses ((Reader.tagged_parses kind).mono hany)).bind fun l => ?_
    cases l with
    | none => exact .throw trivial
    | some module => exact .pure _
  dsimp only
  split
  · exact .bind (.throw trivial) fun _ => hmodule
  · exact hmodule

/-- The module cannot be read by a fault of the file, or because it is none. -/
theorem faults_readModule {e : Error} (h : readModule s = .error e s') :
    FileFault e ∨ ∃ k s₁, take Decoder.kind s = .ok k s₁ ∧ k.isModule = false ∧
      e = .internal (.notAModuleRecord k) := by
  cases hkind : take Decoder.kind s with
  | error e' s₁ =>
    cases h.symm.trans (bind_of_error hkind)
    exact .inl ((take_parses Decoder.kind_parses).fails hkind)
  | ok k s₁ =>
    cases hmodule : k.isModule with
    | false =>
      cases h.symm.trans (readModule_of_not_isModule hkind hmodule)
      exact .inr ⟨k, _, rfl, hmodule, rfl⟩
    | true =>
      rw [readModule, bind_of_ok hkind, hmodule] at h
      cases htagged : stream (Reader.tagged k) s₁ with
      | error e' s₂ =>
        have hstream := (stream_parses (Reader.tagged_parses k)).fails htagged
        cases h.symm.trans (bind_of_error htagged)
        exact .inl hstream
      | ok l s₂ =>
        -- The record of a module is never the mark of an absent object.
        obtain ⟨r, hr, rfl⟩ := stream_eq_ok.mp htagged
        have hnull : k ≠ .null := by rintro rfl; cases hmodule
        have href : k ≠ .objectReference := by rintro rfl; cases hmodule
        obtain rfl := tagged_eq_size hnull href hr
        cases h.symm.trans (bind_of_ok htagged)

/-- A file without external declarations cannot be read by a fault of the file, or because what
follows its header is not a module. -/
theorem faults_readAlone {e : Error} (h : readAlone s = .error e s') :
    FileFault e ∨ ∃ s₁ s₂ k, readHeader s = .ok () s₁ ∧ take Decoder.kind s₁ = .ok k s₂ ∧
      k.isModule = false ∧ e = .internal (.notAModuleRecord k) := by
  cases hheader : readHeader s with
  | error e' s₁ =>
    cases h.symm.trans (bind_of_error hheader)
    exact .inl (readHeader_parses.fails hheader)
  | ok u s₁ =>
    rw [readAlone, bind_of_ok hheader] at h
    obtain hfault | ⟨k, s₂, hkind, hmodule, he⟩ := faults_readModule h
    · exact .inl hfault
    · exact .inr ⟨s₁, s₂, k, rfl, hkind, hmodule, he⟩

end

section

variable {loadExternal : NodeId → Loading NodeId} {bytes : Bytes} {l l' : LoadState}

/-- A file is read as its stream is. -/
theorem read_of_ok {m : LoadedModule} {s : FileState}
    (h : readAll loadExternal { input := bytes, loading := l } = .ok m s) :
    read loadExternal bytes l = .ok m s.loading := by
  rw [read, h]

/-- A file that cannot be read to its end is refused. -/
theorem read_of_error {e : Error} {s : FileState}
    (h : readAll loadExternal { input := bytes, loading := l } = .error e s) :
    read loadExternal bytes l = .error e s.loading := by
  rw [read, h]

/-- A file without external declarations that has been read is a header and a module. -/
theorem WithoutExternals.readAlone_of_read {m : LoadedModule} (h : WithoutExternals bytes l)
    (hread : read loadExternal bytes l = .ok m l') :
    ∃ s, readAlone { input := bytes, loading := l } = .ok m s ∧ s.loading = l' := by
  rw [read, h.readAll_eq] at hread
  split at hread
  · next s hs =>
    cases hread
    exact ⟨s, hs, rfl⟩
  · cases hread

/-- A file without external declarations fails as its header or its module does. -/
theorem WithoutExternals.readAlone_of_read_error {e : Error} (h : WithoutExternals bytes l)
    (hread : read loadExternal bytes l = .error e l') :
    ∃ s, readAlone { input := bytes, loading := l } = .error e s := by
  rw [read, h.readAll_eq] at hread
  split at hread
  · cases hread
  · next s hs =>
    cases hread
    exact ⟨s, hs⟩

end

/-- **Self-delimiting streams.** An object that has been read, from any stream and into any tree, is
told from the `n` bytes that it takes: whatever stands behind them, the same object is read into the
same tree and all behind them is left; of fewer bytes the input ends too early. The same holds of a
file without external declarations. -/
theorem read_delimited (loadExternal : NodeId → Loading NodeId) :
    (∀ (r r' : ReaderState) (link : Option NodeId), Reader.object r = .ok link r' →
      ∃ n ≤ r.input.length, r'.input = r.input.drop n ∧
        (∀ bytes, r.input.take n <+: bytes →
          Reader.object { r with input := bytes } =
            .ok link { r' with input := bytes.drop n }) ∧
        ∀ m < n, ∃ r₁, Reader.object { r with input := r.input.take m } =
          .error (.format .endOfInput) r₁) ∧
    (∀ (bytes : Bytes) (l l' : LoadState) (m : LoadedModule), WithoutExternals bytes l →
      read loadExternal bytes l = .ok m l' →
      ∃ n ≤ bytes.length,
        (∀ bytes', bytes.take n <+: bytes' → read loadExternal bytes' l = .ok m l' ∧
          ∃ s, readAll loadExternal { input := bytes', loading := l } = .ok m s ∧
            s.input = bytes'.drop n) ∧
        ∀ k < n, ∃ l₁, read loadExternal (bytes.take k) l = .error (.format .endOfInput) l₁) ∧
    FormatFault.endOfInput.message = "unexpected end of attribute file" := by
  refine ⟨fun r r' link h => Reader.object_parses.exists_count h,
    fun bytes l l' m hwithout hread => ?_, rfl⟩
  obtain ⟨s, hs, rfl⟩ := hwithout.readAlone_of_read hread
  obtain ⟨n, hn, -, hsame, hshort⟩ := readAlone_parses.exists_count hs
  -- The other bytes may be those of a file with external declarations, as far as they are known.
  have hall : ∀ {s₁ : FileState}, (∀ s₂, readAlone s₁ ≠
      .error (.internal (.notAModuleRecord .externalDeclaration)) s₂) →
      readAll loadExternal s₁ = readAlone s₁ := fun h =>
    (readAll_eq_readAlone loadExternal).resolve_right (not_exists.mpr h)
  refine ⟨n, hn, fun bytes' hbytes' => ?_, fun k hk => ?_⟩
  · have halone := hsame bytes' hbytes'
    have hread := (hall fun s₂ h => by cases halone.symm.trans h).trans halone
    have hsucceeds := read_of_ok hread
    exact ⟨hsucceeds, _, hread, rfl⟩
  · obtain ⟨s₁, hs₁⟩ := hshort k hk
    have hread := (hall fun s₂ h => by cases hs₁.symm.trans h).trans hs₁
    exact ⟨_, read_of_error hread⟩

/-- A class in a stream and in a file, each with two bytes behind it that are not read. -/
theorem read_delimited_classBytes :
    (∃ r, Reader.object { input := classBytes ++ [7, 7], tree := {} } = .ok (some 0) r ∧
      ∀ m < classBytes.length, ∃ r₁, Reader.object
        { input := (classBytes ++ [7, 7]).take m, tree := {} } = .error (.format .endOfInput) r₁) ∧
    ∃ m l, read (fun _ => throw (.internal .nullModule)) (plainHeader ++ classBytes ++ [7, 7])
        { tree := {} } = .ok m l ∧
      ∃ n ≤ (plainHeader ++ classBytes ++ [7, 7]).length,
        ∀ k < n, ∃ l₁, read (fun _ => throw (.internal .nullModule))
          ((plainHeader ++ classBytes ++ [7, 7]).take k) { tree := {} } =
            .error (.format .endOfInput) l₁ := by
  obtain ⟨hobjects, hfiles, -⟩ := read_delimited fun _ => throw (.internal .nullModule)
  constructor
  · have hsucceeds : succeedsWith Reader.object { input := classBytes ++ [7, 7], tree := {} }
        (fun root r => root = some 0 ∧ r.input.length = 2) = true := by decide +kernel
    obtain ⟨root, r, hread, htest⟩ := exists_of_succeedsWith hsucceeds
    obtain ⟨rfl, hrest⟩ := of_decide_eq_true htest
    obtain ⟨n, -, hdrop, -, hshort⟩ := hobjects _ _ _ hread
    have hlength : n = classBytes.length := by
      rw [hdrop, List.length_drop, List.length_append] at hrest
      change _ + 2 - n = 2 at hrest
      omega
    exact ⟨r, hread, hlength ▸ hshort⟩
  · have hsucceeds : succeedsWith (read (fun _ => throw (.internal .nullModule))
        (plainHeader ++ classBytes ++ [7, 7])) { tree := {} } (fun _ _ => true) = true := by
      decide +kernel
    obtain ⟨m, l, hread, -⟩ := exists_of_succeedsWith hsucceeds
    obtain ⟨n, hn, -, hshort⟩ := hfiles _ _ _ _ (by decide +kernel) hread
    exact ⟨m, l, hread, n, hn, hshort⟩

/-- **Faults of files.** When an object cannot be read, from any stream and into any tree, the
stream is at fault and has to be made again. A file without external declarations fails in the same
ways and in one more, which exactly those meet whose header is followed by the tag of something that
is neither a class nor a procedure. -/
theorem read_fails_by_file (loadExternal : NodeId → Loading NodeId) :
    (∀ (r r' : ReaderState) (e : Error), Reader.object r = .error e r' →
      e.requiresRecompile = true ∧ ((∃ f, e = .protocol f) ∨ (∃ f, e = .format f) ∨
        (∃ n, e = .linkage n) ∨ ∃ f, e = .unsupportedConstant f)) ∧
    ∀ (bytes : Bytes) (l : LoadState), WithoutExternals bytes l →
      (∀ e l', read loadExternal bytes l = .error e l' →
        e.requiresRecompile = true ∨ ∃ f, e = .internal f) ∧
      ∀ f, (∃ l', read loadExternal bytes l = .error (.internal f) l') ↔
        ∃ (s : FileState) (b : UInt8) (rest : Bytes) (k : Kind),
          readHeader { input := bytes, loading := l } = .ok () s ∧ s.input = b :: rest ∧
          Kind.ofTag? b.toNat = some k ∧ k ≠ .externalDeclaration ∧ k ≠ .classDeclaration ∧
          k ≠ .procedure ∧ f = .notAModuleRecord k := by
  refine ⟨fun r r' e h => ?_, fun bytes l hwithout => ⟨fun e l' hread => ?_, fun f => ⟨?_, ?_⟩⟩⟩
  · have hfault : FileFault e := Reader.object_parses.fails h
    exact ⟨hfault, hfault.classes⟩
  · obtain ⟨s, hs⟩ := hwithout.readAlone_of_read_error hread
    obtain hfault | ⟨_, _, k, -, -, -, he⟩ := faults_readAlone hs
    · exact .inl hfault
    · exact .inr ⟨_, he⟩
  · rintro ⟨l', hread⟩
    obtain ⟨s, hs⟩ := hwithout.readAlone_of_read_error hread
    obtain hfault | ⟨s₁, s₂, k, hheader, hkind, hmodule, he⟩ := faults_readAlone hs
    · cases hfault
    · obtain ⟨b, rest, hinput, htag, -⟩ := take_kind_eq_ok.mp hkind
      cases he
      refine ⟨s₁, b, rest, k, hheader, hinput, htag, ?_, ?_, ?_, rfl⟩
      · rintro rfl
        exact hwithout.ne_externalDeclaration hheader hkind
      all_goals rintro rfl; cases hmodule
  · rintro ⟨s, b, rest, k, hheader, hinput, htag, -, hclass, hprocedure, rfl⟩
    have hkind := take_kind_eq_ok.mpr ⟨b, rest, hinput, htag, rfl⟩
    have hmodule : k.isModule = false := by simp [Kind.isModule, hclass, hprocedure]
    have halone := readModule_of_not_isModule hkind hmodule
    rw [← bind_of_ok (f := fun _ => readModule) hheader] at halone
    exact ⟨_, read_of_error ((hwithout.readAll_eq loadExternal).trans halone)⟩

/-- A reference to an object that was never read, and a file with a block for its module. -/
theorem read_fails_by_file_block :
    (∃ e r, Reader.object { input := [1, 0, 9], tree := {} } = .error e r ∧
      e.requiresRecompile = true) ∧
    ∃ l, read (fun _ => throw (.internal .nullModule)) (plainHeader ++ [5]) { tree := {} } =
      .error (.internal (.notAModuleRecord .block)) l := by
  obtain ⟨hobjects, hfiles⟩ := read_fails_by_file fun _ => throw (.internal .nullModule)
  constructor
  · have hfails : succeedsWith Reader.object { input := [1, 0, 9], tree := {} }
        (fun _ _ => true) = false := by decide +kernel
    cases hread : Reader.object { input := [1, 0, 9], tree := {} } with
    | ok l r =>
      rw [succeedsWith, hread] at hfails
      cases hfails
    | error e r => exact ⟨e, r, rfl, (hobjects _ _ _ hread).1⟩
  · have hsucceeds : succeedsWith readHeader
        { input := plainHeader ++ [5], loading := { tree := {} } } (fun _ s => s.input = [5]) =
          true := by decide +kernel
    obtain ⟨_, s, hheader, htest⟩ := exists_of_succeedsWith hsucceeds
    exact ((hfiles _ _ (by decide +kernel)).2 _).mpr ⟨s, 5, [], .block, hheader,
      of_decide_eq_true htest, rfl, by decide, by decide, by decide, rfl⟩

end AttributeFile

end Simula
