import Simula.Proofs.AttributeFile.Parts
import Simula.Proofs.Hierarchy.Loading
import Simula.Proofs.Session.Loading

/-!
# The hierarchy in the header of a file

The header of a file lists the super-class edges that were known when it was written, and a session
that reads the file records them again. The list has no length: it ends with a text in the place of
a package. So a session gets the whole hierarchy, and goes on at the record of the module, exactly
if no sub-class is in a package with that name. From the first such sub-class on the edges are lost,
and its name is read as the start of a record.
-/

namespace Simula

namespace ClassHierarchy

/-- Ascending edges above all that are recorded are listed behind them. -/
theorem edges_registerEdges {h : ClassHierarchy} {edges : List (ClassIdentity × ClassIdentity)}
    (hasc : (h.edges ++ edges).Pairwise fun a b => a.1 < b.1) :
    (h.registerEdges edges).edges = h.edges ++ edges := by
  induction edges generalizing h with
  | nil => exact (List.append_nil h.edges).symm
  | cons e edges ih =>
    have habove : ∀ d ∈ h.edges, d.1 < e.1 := fun d hd =>
      (List.pairwise_append.mp hasc).2.2 d hd e List.mem_cons_self
    have hstep : (h.registerEdge e.1 e.2).edges = h.edges ++ [e] :=
      Table.insertEntry_of_above e.2 habove
    have hsplit : h.edges ++ e :: edges = (h.registerEdge e.1 e.2).edges ++ edges := by
      rw [hstep, List.append_assoc, List.singleton_append]
    rw [hsplit] at hasc ⊢
    exact ih hasc

end ClassHierarchy

namespace AttributeFile

/-- The recorded edges of a hierarchy are listed in a fresh one as they were. -/
theorem edges_recordedEdges {h₀ : ClassHierarchy} (hfresh : h₀.edges = []) (h : ClassHierarchy) :
    (h₀.registerEdges (recordedEdges h.edges)).edges = recordedEdges h.edges := by
  have hasc : (recordedEdges h.edges).Pairwise fun a b => a.1 < b.1 :=
    h.supers.ascending.sublist (List.takeWhile_sublist _)
  rw [ClassHierarchy.edges_registerEdges (by rwa [hfresh]), hfresh, List.nil_append]

/-- A list is recorded as a whole exactly if no edge in it is taken for its end. -/
theorem recordedEdges_eq_self_iff {edges : List (ClassIdentity × ClassIdentity)} :
    recordedEdges edges = edges ↔ ∀ e ∈ edges, e.1.package ≠ hierarchyEnd := by
  refine ⟨fun h e he => ?_, recordedEdges_eq_self⟩
  rw [← h] at he
  have hnot := List.all_eq_true.mp List.all_takeWhile e he
  simpa [endsList] using hnot

/-! ## Writing the header -/

section

variable {t : Tree} {module : NodeId} {h : ClassHierarchy} {base next : Int} {bytes : Bytes}

/-- The file of a module without external declarations is a header, which is read back up to the
first edge that is taken for the end of the list, and the record of the module. -/
theorem exists_header_of_write (hwrite : write t module [] h base = .ok (bytes, next)) :
    ∃ (header left record : Bytes) (w : WriterState),
      bytes = header ++ record ∧
      Writer.object t (detached t module []) (some module)
        { out := ({} : Output) ++ header, next := base } = .ok () w ∧
      w.out.toList = bytes ∧ w.next = next ∧
      (∃ kind tail, kind ≠ Kind.externalDeclaration ∧ record = UInt8.ofNat kind.tag :: tail) ∧
      (h.edges.find? endsList = none → left = []) ∧
      (∀ e, h.edges.find? endsList = some e →
        ∃ name tail, Decoder.string.Reads name (some e.1.name) ∧ left = name ++ tail) ∧
      ∀ s : FileState, s.input = bytes → readHeader s = .ok () { s with
        input := left ++ record
        loading := { s.loading with
          hierarchy := s.loading.hierarchy.registerEdges (recordedEdges h.edges) } } := by
  rw [write] at hwrite
  split at hwrite
  case isFalse => cases hwrite
  next hmodule =>
  cases hall : writeAll t module [] h { next := base } with
  | error e w =>
    rw [hall] at hwrite
    cases hwrite
  | ok u w =>
    rw [hall] at hwrite
    cases hwrite
    obtain ⟨_, w₁, hversion, hall⟩ := bind_eq_ok.mp hall
    obtain ⟨_, w₂, hedges, hall⟩ := bind_eq_ok.mp hall
    obtain ⟨_, w₃, hnone, hobject⟩ := bind_eq_ok.mp hall
    cases hnone
    obtain ⟨out₁, hout₁, rfl⟩ := Writer.emit_eq_ok hversion
    obtain ⟨out₂, hout₂, rfl⟩ := Writer.emit_eq_ok hedges
    obtain ⟨bs₁, happ₁, hread₁⟩ := string_codec.read hout₁
    obtain ⟨bs₂, left, rfl, hlen, hstop, hlost, hread₂⟩ := readEdges_recorded hout₂
    rw [happ₁.eq hout₁, Output.append_append] at hobject
    have hstart : ({ out := ({} : Output) ++ (bs₁ ++ bs₂), next := base } :
        WriterState).Numbered [] :=
      ⟨rfl, .nil, by simp, .nil⟩
    obtain ⟨record, hrecord⟩ := object_starts_with_tag hstart hobject
    have hbytes : w.out.toList = bs₁ ++ bs₂ ++ UInt8.ofNat (t.tagKind (detached t module []) []
        module).tag :: record := by
      rw [hrecord]
      simp
    refine ⟨bs₁ ++ bs₂, left, _, w, hbytes, hobject, rfl, rfl,
      ⟨_, record, Tree.tagKind_ne_external hmodule _, rfl⟩, hstop, hlost, fun s hinput => ?_⟩
    rw [hbytes, List.append_assoc] at hinput
    rw [readHeader, bind_of_ok (take_of_reads hread₁ hinput), if_neg (by simp)]
    refine (bind_of_ok (get_apply _)).trans (hread₂ rfl ?_)
    rw [List.length_append]
    omega

end

/-! ## What follows the header -/

/-- A text of fewer than 255 units starts with a zero byte. -/
theorem exists_zero_cons_of_reads {text : String} {bs : Bytes}
    (h : Decoder.string.Reads bs (some text))
    (hshort : (Text.toUnits text.toList).length < 255) : ∃ tail, bs = 0 :: tail := by
  obtain ⟨bs', hbs, hwritten⟩ := string_codec.write (h [])
  obtain rfl : bs = bs' := List.append_cancel_right hbs
  have hfits : fitsShort ((Text.toUnits text.toList).length + 1) = true := by
    rw [fitsShort_iff]
    omega
  have happ := (Encoder.short_appends hfits).then
    (Encoder.bytes_appends (Encoder.unitBytes (Text.toUnits text.toList)))
  have hsplit := Output.append_cancel (happ.eq (hwritten {}))
  have hhigh : (((Text.toUnits text.toList).length + 1 : Int) % 65536).toNat / 256 = 0 := by omega
  rw [Bytes.ofNat, Bytes.capacity, Bytes.capacity, Nat.one_mul, hhigh] at hsplit
  exact ⟨_, hsplit⟩

section

variable {loadExternal : NodeId → Loading NodeId} {s : FileState}

/-- A file whose module stands right behind its header says nothing more on the hierarchy. -/
theorem readModules_sameHierarchy {kind : Kind} {rest : Bytes}
    (hinput : s.input = UInt8.ofNat kind.tag :: rest) (hkind : kind ≠ .externalDeclaration) :
    (leaves (readModules loadExternal) s).loading.hierarchy = s.loading.hierarchy := by
  have hexternals : readExternals loadExternal s.input.length s =
      .ok ([], kind) { s with input := rest } := by
    rw [hinput]
    exact readExternals_stop rest.length hinput hkind
  rw [readModules, leaves_bind_of_ok (get_apply s), leaves_bind_of_ok hexternals]
  dsimp only
  split
  · rfl
  · exact readModule_follows (stream_sameHierarchy _) [] { s with input := rest }

/-- A zero byte behind the header is no record of a module. -/
theorem readModules_of_zero {rest : Bytes} (hinput : s.input = 0 :: rest) :
    readModules loadExternal s =
      .error (.internal (.notAModuleRecord .null)) { s with input := rest } := by
  have hexternals : readExternals loadExternal s.input.length s =
      .ok ([], .null) { s with input := rest } := by
    rw [hinput]
    exact readExternals_stop rest.length hinput (by decide)
  rw [readModules, bind_of_ok (get_apply s), bind_of_ok hexternals]
  rfl

/-- Reading a file leaves what its header and the records behind it leave. -/
theorem leaves_read {bytes : Bytes} {ls : LoadState} {s₁ : FileState}
    (hheader : readHeader { input := bytes, loading := ls } = .ok () s₁) :
    leaves (read loadExternal bytes) ls = (leaves (readModules loadExternal) s₁).loading := by
  rw [← leaves_bind_of_ok (f := fun _ => readModules loadExternal) hheader, ← readAll_eq, leaves,
    read, leaves]
  cases readAll loadExternal { input := bytes, loading := ls } <;> rfl

/-- A file with a zero byte behind its header is refused. -/
theorem read_of_zero {bytes rest : Bytes} {ls : LoadState} {s₁ : FileState}
    (hheader : readHeader { input := bytes, loading := ls } = .ok () s₁)
    (hinput : s₁.input = 0 :: rest) :
    read loadExternal bytes ls = .error (.internal (.notAModuleRecord .null)) s₁.loading := by
  rw [read, readAll_eq, bind_of_ok hheader, readModules_of_zero hinput]

end

end AttributeFile

namespace Session

open AttributeFile

/-- What a fresh session knows of the hierarchy after a load is what reading the file leaves. -/
theorem hierarchy_leaves_load {package : Package} {entry : String} {bytes : Bytes} {s : Session}
    {t : Tree} (hbytes : package.get? entry = some bytes) (hfresh : s.loaded = []) :
    (leaves (load package.library entry) ⟨s, t⟩).session.hierarchy =
      (leaves (read (externalLoader package entry) bytes) ⟨t, s.hierarchy, []⟩).hierarchy := by
  cases hread : read (externalLoader package entry) bytes ⟨t, s.hierarchy, []⟩ with
  | ok m s₁ =>
    rw [leaves_of_ok ((load_eq_ok hbytes hfresh).mpr ⟨s₁, hread, rfl⟩), leaves_of_ok hread]
  | error e s₁ => rw [leaves_of_error (load_of_error hbytes hfresh hread), leaves_of_error hread]

/-- **The hierarchy in the header.** The file of a module without external declarations is a header
and the record of the module. Reading the header records the edges of the hierarchy in order, each
once, up to the first whose sub-class is in a package named like the end of the list. All edges are
recorded exactly if there is none, and exactly then the reader is left in front of the record. A
fresh session that loads the file then has the edges that were written, whether the record can be
read or not. Otherwise it has those before that sub-class only, and a sub-class with a name of fewer
than 255 units makes it refuse the file. -/
theorem hierarchy_of_header {t : Tree} {module : NodeId} {h : ClassHierarchy} {base next : Int}
    {bytes : Bytes} (hwrite : write t module [] h base = .ok (bytes, next)) :
    ∃ header record : Bytes,
      bytes = header ++ record ∧
      (∃ w, Writer.object t (detached t module []) (some module)
        { out := ({} : Output) ++ header, next := base } = .ok () w ∧ w.out.toList = bytes ∧
          w.next = next) ∧
      (∀ s : FileState, s.input = bytes → ∃ left,
        readHeader s = .ok () { s with
          input := left ++ record
          loading := { s.loading with
            hierarchy := s.loading.hierarchy.registerEdges (recordedEdges h.edges) } } ∧
        (left = [] ↔ ∀ e ∈ h.edges, e.1.package ≠ hierarchyEnd)) ∧
      (recordedEdges h.edges = h.edges ↔ ∀ e ∈ h.edges, e.1.package ≠ hierarchyEnd) ∧
      ∀ {package : Package} {entry : String} {s : Session} {t₀ : Tree},
        package.get? entry = some bytes → s.hierarchy.edges = [] → s.loaded = [] →
        ((∀ e ∈ h.edges, e.1.package ≠ hierarchyEnd) →
          (leaves (load package.library entry) ⟨s, t₀⟩).session.hierarchy.edges = h.edges) ∧
        ∀ e, h.edges.find? endsList = some e → (Text.toUnits e.1.name.toList).length < 255 →
          ∃ c, load package.library entry ⟨s, t₀⟩ =
            .error (.internal (.notAModuleRecord .null)) c ∧
            c.session.hierarchy.edges = recordedEdges h.edges := by
  obtain ⟨header, left, record, w, hbytes, hobject, hout, hnext, ⟨kind, tail, hkind, htag⟩, hstop,
    hlost, hread⟩ := exists_header_of_write hwrite
  refine ⟨header, record, hbytes, ⟨w, hobject, hout, hnext⟩, fun s hinput => ?_,
    recordedEdges_eq_self_iff, fun {package entry s t₀} hget hedges hfresh => ?_⟩
  · refine ⟨left, hread s hinput, fun hleft => ?_,
      fun hend => hstop (find?_endsList_eq_none.mpr hend)⟩
    rw [← find?_endsList_eq_none]
    by_contra hfind
    obtain ⟨e, he⟩ := Option.ne_none_iff_exists'.mp hfind
    obtain ⟨name, rest, hname, hsplit⟩ := hlost e he
    have hpos := length_pos_of_reads hname
    have hlen := congrArg List.length (hleft.symm.trans hsplit)
    simp only [List.length_nil, List.length_append] at hlen
    omega
  have hheader := hread { input := bytes, loading := ⟨t₀, s.hierarchy, []⟩ } rfl
  refine ⟨fun hend => ?_, fun e hfind hshort => ?_⟩
  · obtain rfl := hstop (find?_endsList_eq_none.mpr hend)
    rw [hierarchy_leaves_load hget hfresh, leaves_read hheader,
      readModules_sameHierarchy htag hkind, edges_recordedEdges hedges h,
      recordedEdges_eq_self hend]
  · obtain ⟨name, rest, hname, rfl⟩ := hlost e hfind
    obtain ⟨name, rfl⟩ := exists_zero_cons_of_reads hname hshort
    exact ⟨_, load_of_error hget hfresh (read_of_zero hheader rfl), edges_recordedEdges hedges h⟩

/-- A hierarchy of two classes. -/
def twoEdges : ClassHierarchy where
  supers := ⟨[(⟨"", "Z"⟩, .runtimeClass), (⟨"simula/user", "A"⟩, ⟨"", "Z"⟩)], by decide +kernel⟩

/-- The hierarchy with one more class, in a package named like the end of the list. -/
def misreadEdges : ClassHierarchy where
  supers := ⟨[(⟨"", "Z"⟩, .runtimeClass), (⟨hierarchyEnd, "X"⟩, ⟨"", "Z"⟩),
    (⟨"simula/user", "A"⟩, ⟨"", "Z"⟩)], by decide +kernel⟩

/-- A package with one entry. -/
def singleFile (bytes : Bytes) : Package := Package.stage .empty "simula/user/A.atr" (some bytes)

/-- The package has the file. -/
theorem get?_singleFile (bytes : Bytes) :
    (singleFile bytes).get? "simula/user/A.atr" = some bytes := by
  rw [singleFile, get?_stage, if_pos rfl]

/-- The hierarchy of two classes is loaded as it was written. With the third class the file is
written as well, but a session that loads it keeps one edge and refuses the rest. -/
theorem hierarchy_of_header_twoEdges :
    (∃ bytes next, write loneClass 0 [] twoEdges 1 = .ok (bytes, next) ∧
      (leaves (load (singleFile bytes).library "simula/user/A.atr")
        ⟨{}, {}⟩).session.hierarchy.edges = twoEdges.edges) ∧
    ∃ bytes next, write loneClass 0 [] misreadEdges 1 = .ok (bytes, next) ∧
      ∃ c, load (singleFile bytes).library "simula/user/A.atr" ⟨{}, {}⟩ =
          .error (.internal (.notAModuleRecord .null)) c ∧
        c.session.hierarchy.edges = [(⟨"", "Z"⟩, .runtimeClass)] := by
  have hclean : succeedsWith (writeAll loneClass 0 [] twoEdges) { next := 1 }
      (fun _ _ => true) = true := by
    unfold writeAll
    rw [detached_loneClass]
    decide +kernel
  have hmisread : succeedsWith (writeAll loneClass 0 [] misreadEdges) { next := 1 }
      (fun _ _ => true) = true := by
    unfold writeAll
    rw [detached_loneClass]
    decide +kernel
  obtain ⟨_, w, hw, -⟩ := exists_of_succeedsWith hclean
  obtain ⟨_, w', hw', -⟩ := exists_of_succeedsWith hmisread
  have hwrite : write loneClass 0 [] twoEdges 1 = .ok (w.out.toList, w.next) := by
    simp only [write, hw]
    rfl
  have hwrite' : write loneClass 0 [] misreadEdges 1 = .ok (w'.out.toList, w'.next) := by
    simp only [write, hw']
    rfl
  obtain ⟨_, _, _, _, _, _, hload⟩ := hierarchy_of_header hwrite
  obtain ⟨_, _, _, _, _, _, hload'⟩ := hierarchy_of_header hwrite'
  refine ⟨⟨_, _, hwrite, (hload (get?_singleFile _) rfl rfl).1 (by decide +kernel)⟩,
    _, _, hwrite', ?_⟩
  exact (hload' (get?_singleFile _) rfl rfl).2 (⟨hierarchyEnd, "X"⟩, ⟨"", "Z"⟩)
    (by decide +kernel) (by decide +kernel)

end Session

end Simula
