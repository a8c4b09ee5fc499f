import Simula.AttributeFile
import Simula.Proofs.ObjectStream.Transcript

/-!
# The header of an attribute file

A header that has been written is read back: the version is accepted and every super-class edge is
recorded again, in order, after which the externals and the module follow. Only an edge whose
sub-class is in a package named like the end of the list would be taken for that end.
-/

namespace Simula

/-- Records super-class edges one after the other. -/
def ClassHierarchy.registerEdges (h : ClassHierarchy)
    (edges : List (ClassIdentity × ClassIdentity)) : ClassHierarchy :=
  edges.foldl (fun h e => h.registerEdge e.1 e.2) h

namespace AttributeFile

/-- The object stream of a file that is being read. -/
def FileState.objectStream (s : FileState) : ReaderState := ⟨s.input, s.loading.tree, s.objects⟩

/-- The file when its object stream has been read on. -/
def FileState.withStream (s : FileState) (r : ReaderState) : FileState :=
  ⟨r.input, r.objects, { s.loading with tree := r.tree }⟩

section

variable {α : Type} {s : FileState}

/-- A successful action on the object stream moves the file on. -/
theorem stream_of_ok {m : Reader α} {r : ReaderState} {a : α}
    (h : m s.objectStream = .ok a r) : stream m s = .ok a (s.withStream r) := by
  obtain ⟨input, objects, tree, hierarchy, loaded⟩ := s
  simp only [FileState.objectStream] at h
  rw [stream, h]
  rfl

/-- A failing action on the object stream fails. -/
theorem stream_of_error {m : Reader α} {r : ReaderState} {e : Error}
    (h : m s.objectStream = .error e r) : stream m s = .error e (s.withStream r) := by
  obtain ⟨input, objects, tree, hierarchy, loaded⟩ := s
  simp only [FileState.objectStream] at h
  rw [stream, h]
  rfl

/-- A value at the start of the input is taken from it. -/
theorem take_of_reads {d : Decoder α} {bs rest : Bytes} {a : α} (h : d.Reads bs a)
    (hinput : s.input = bs ++ rest) : take d s = .ok a { s with input := rest } := by
  have hd : d s.objectStream.input = .ok a rest := by
    rw [FileState.objectStream, hinput, h]
  exact stream_of_ok (Reader.take_of_ok hd)

/-- A text at the start of the input is taken as a text of the header. -/
theorem headerString_of_reads {bs rest : Bytes} {text : String}
    (h : Decoder.string.Reads bs (some text)) (hinput : s.input = bs ++ rest) :
    headerString s = .ok text { s with input := rest } := by
  rw [headerString, bind_of_ok (take_of_reads h hinput)]
  rfl

end

/-- A text takes up input. -/
theorem length_pos_of_reads {bs : Bytes} {text : Option String} (h : Decoder.string.Reads bs text) :
    0 < bs.length := by
  cases bs with
  | nil => cases h []
  | cons b bs => exact Nat.succ_pos _

/-- Whether a super-class edge is taken for the end of the list when it is read. -/
def endsList (e : ClassIdentity × ClassIdentity) : Bool := e.1.package = hierarchyEnd

/-- The super-class edges of a list that are recorded when it is read: those before the first one
that is taken for the end. -/
def recordedEdges (edges : List (ClassIdentity × ClassIdentity)) :
    List (ClassIdentity × ClassIdentity) :=
  edges.takeWhile (!endsList ·)

/-- An edge is written as four texts, in front of the other edges. -/
theorem exists_edge_of_writeEdges {e : ClassIdentity × ClassIdentity}
    {edges : List (ClassIdentity × ClassIdentity)} {out out' : Output}
    (h : writeEdges (e :: edges) out = .ok () out') :
    ∃ bs₁ bs₂ bs₃ bs₄ : Bytes,
      writeEdges edges (out ++ (bs₁ ++ (bs₂ ++ (bs₃ ++ bs₄)))) = .ok () out' ∧
      Decoder.string.Reads bs₁ (some e.1.package) ∧ Decoder.string.Reads bs₂ (some e.1.name) ∧
      Decoder.string.Reads bs₃ (some e.2.package) ∧ Decoder.string.Reads bs₄ (some e.2.name) := by
  obtain ⟨_, out₁, h₁, h⟩ := bind_eq_ok.mp h
  obtain ⟨_, out₂, h₂, h⟩ := bind_eq_ok.mp h
  obtain ⟨_, out₃, h₃, h⟩ := bind_eq_ok.mp h
  obtain ⟨_, out₄, h₄, h⟩ := bind_eq_ok.mp h
  obtain ⟨bs₁, happ₁, hread₁⟩ := string_codec.read h₁
  obtain ⟨bs₂, happ₂, hread₂⟩ := string_codec.read h₂
  obtain ⟨bs₃, happ₃, hread₃⟩ := string_codec.read h₃
  obtain ⟨bs₄, happ₄, hread₄⟩ := string_codec.read h₄
  refine ⟨bs₁, bs₂, bs₃, bs₄, ?_, hread₁, hread₂, hread₃, hread₄⟩
  rw [happ₄.eq h₄, happ₃.eq h₃, happ₂.eq h₂, happ₁.eq h₁] at h
  simpa only [Output.append_append, List.append_assoc] using h

/-- Edges that have been written are recorded again when they are read, up to the first that is
taken for the end. The reader then stops in front of the name in that edge, and without such an edge
where the writer stopped. -/
theorem readEdges_recorded {edges : List (ClassIdentity × ClassIdentity)} {out out' : Output}
    (hwrite : writeEdges edges out = .ok () out') :
    ∃ bs left : Bytes, out' = out ++ bs ∧ edges.length < bs.length ∧
      (edges.find? endsList = none → left = []) ∧
      (∀ e, edges.find? endsList = some e →
        ∃ name tail, Decoder.string.Reads name (some e.1.name) ∧ left = name ++ tail) ∧
      ∀ {s : FileState} {rest : Bytes} {n : Nat}, s.input = bs ++ rest → edges.length < n →
        readEdges n s = .ok () { s with
          input := left ++ rest
          loading := { s.loading with
            hierarchy := s.loading.hierarchy.registerEdges (recordedEdges edges) } } := by
  induction edges generalizing out with
  | nil =>
    obtain ⟨bs, happ, hread⟩ := string_codec.read hwrite
    refine ⟨bs, [], happ.eq hwrite, length_pos_of_reads hread, fun _ => rfl, nofun,
      fun {s rest n} hinput hn => ?_⟩
    obtain ⟨n, rfl⟩ := Nat.exists_eq_succ_of_ne_zero (Nat.ne_of_gt hn)
    rw [readEdges, bind_of_ok (headerString_of_reads hread hinput), if_pos rfl]
    rfl
  | cons e edges ih =>
    obtain ⟨bs₁, bs₂, bs₃, bs₄, hwrite, hread₁, hread₂, hread₃, hread₄⟩ :=
      exists_edge_of_writeEdges hwrite
    obtain ⟨bs, left, hout, hlen, hnone, hsome, hread⟩ := ih hwrite
    have hbytes : out' = out ++ (bs₁ ++ (bs₂ ++ (bs₃ ++ (bs₄ ++ bs)))) := by
      rw [hout]
      simp only [Output.append_append, List.append_assoc]
    have hlength : (e :: edges).length < (bs₁ ++ (bs₂ ++ (bs₃ ++ (bs₄ ++ bs)))).length := by
      have hpos := length_pos_of_reads hread₁
      simp only [List.length_append, List.length_cons]
      omega
    by_cases hend : e.1.package = hierarchyEnd
    · -- The package of this edge is read as the end, and the rest of the edge is left.
      have hends : endsList e = true := decide_eq_true hend
      refine ⟨_, bs₂ ++ (bs₃ ++ (bs₄ ++ bs)), hbytes, hlength, ?_, ?_,
        fun {s rest n} hinput hn => ?_⟩
      · rw [List.find?_cons_of_pos hends]
        exact nofun
      · rw [List.find?_cons_of_pos hends]
        rintro _ ⟨⟩
        exact ⟨bs₂, _, hread₂, rfl⟩
      · obtain ⟨n, rfl⟩ := Nat.exists_eq_succ_of_ne_zero (Nat.ne_of_gt (Nat.zero_lt_of_lt hn))
        rw [List.append_assoc] at hinput
        rw [readEdges, bind_of_ok (headerString_of_reads hread₁ hinput), if_pos hend,
          recordedEdges, List.takeWhile_cons_of_neg (by simp [hends])]
        rfl
    · have hends : endsList e = false := decide_eq_false hend
      rw [List.find?_cons_of_neg (by simp [hends])]
      refine ⟨_, left, hbytes, hlength, hnone, hsome, fun {s rest n} hinput hn => ?_⟩
      obtain ⟨n, rfl⟩ := Nat.exists_eq_succ_of_ne_zero (Nat.ne_of_gt (Nat.zero_lt_of_lt hn))
      simp only [List.append_assoc] at hinput
      rw [readEdges, bind_of_ok (headerString_of_reads hread₁ hinput), if_neg hend,
        bind_of_ok (headerString_of_reads hread₂ rfl),
        bind_of_ok (headerString_of_reads hread₃ rfl),
        bind_of_ok (headerString_of_reads hread₄ rfl),
        recordedEdges, List.takeWhile_cons_of_pos (by simp [hends])]
      exact hread rfl (Nat.lt_of_succ_lt_succ hn)

/-- A list without an edge that is taken for its end is recorded as a whole. -/
theorem recordedEdges_eq_self {edges : List (ClassIdentity × ClassIdentity)}
    (h : ∀ e ∈ edges, e.1.package ≠ hierarchyEnd) : recordedEdges edges = edges := by
  induction edges with
  | nil => rfl
  | cons e edges ih =>
    rw [List.forall_mem_cons] at h
    have hends : endsList e = false := decide_eq_false h.1
    rw [recordedEdges, List.takeWhile_cons_of_pos (by simp [hends]), ← recordedEdges, ih h.2]

/-- No edge is taken for the end exactly if no sub-class is in a package named like it. -/
theorem find?_endsList_eq_none {edges : List (ClassIdentity × ClassIdentity)} :
    edges.find? endsList = none ↔ ∀ e ∈ edges, e.1.package ≠ hierarchyEnd := by
  simp [endsList]

/-- Super-class edges that have been written are recorded again when they are read, and end
where the writer ended them. -/
theorem readEdges_written {edges : List (ClassIdentity × ClassIdentity)} {out out' : Output}
    (hwrite : writeEdges edges out = .ok () out')
    (hend : ∀ e ∈ edges, e.1.package ≠ hierarchyEnd) :
    ∃ bs : Bytes, out' = out ++ bs ∧ edges.length < bs.length ∧
      ∀ {s : FileState} {rest : Bytes} {n : Nat}, s.input = bs ++ rest → edges.length < n →
        readEdges n s = .ok () { s with
          input := rest
          loading := { s.loading with
            hierarchy := s.loading.hierarchy.registerEdges edges } } := by
  obtain ⟨bs, left, hout, hlen, hnone, -, hread⟩ := readEdges_recorded hwrite
  obtain rfl := hnone (find?_endsList_eq_none.mpr hend)
  rw [recordedEdges_eq_self hend] at hread
  exact ⟨bs, hout, hlen, hread⟩

/-- The header of a file without super-class edges: the version, and the end of their list. -/
def plainHeader : Bytes :=
  [0, 13, 0, 83, 0, 73, 0, 77, 0, 67, 0, 45, 0, 65, 0, 84, 0, 82, 0, 32, 0, 49, 0, 46, 0, 48,
    0, 16, 0, 37, 0, 37, 0, 69, 0, 78, 0, 68, 0, 45, 0, 72, 0, 73, 0, 69, 0, 82, 0, 65, 0, 82, 0,
    67, 0, 72, 0, 89]

example : (leaves (do Encoder.string (some version); writeEdges []) {}).toList = plainHeader := by
  decide +kernel

/-- Takes what follows the header: the external declarations and the module. -/
def readModules (loadExternal : NodeId → Loading NodeId) : FileReader LoadedModule := do
  let (externals, kind) ← readExternals loadExternal (← get).input.length
  if !kind.isModule then throw (.internal (.notAModuleRecord kind))
  match ← stream (Reader.tagged kind) with
  | none => throw (.internal .nullModule)
  | some module => return { module, externals }

/-- A header that has been written is read back, and what follows it is read from the state in
which its edges are recorded. -/
theorem readAll_written {t : Tree} {module : NodeId} {externals : List NodeId} {h : ClassHierarchy}
    {w w' : WriterState} (hwrite : writeAll t module externals h w = .ok () w')
    (hend : ∀ e ∈ h.edges, e.1.package ≠ hierarchyEnd) :
    ∃ bs : Bytes,
      (do
        writeExternals t (detached t module externals) externals
        Writer.object t (detached t module externals) (some module))
        { w with out := w.out ++ bs } = .ok () w' ∧
      ∀ {s : FileState} {rest : Bytes} (loadExternal : NodeId → Loading NodeId),
        s.input = bs ++ rest →
        readAll loadExternal s = readModules loadExternal { s with
          input := rest
          loading := { s.loading with
            hierarchy := s.loading.hierarchy.registerEdges h.edges } } := by
  obtain ⟨_, w₁, hversion, hwrite⟩ := bind_eq_ok.mp hwrite
  obtain ⟨_, w₂, hedges, hwrite⟩ := bind_eq_ok.mp hwrite
  obtain ⟨out₁, hout₁, rfl⟩ := Writer.emit_eq_ok hversion
  obtain ⟨out₂, hout₂, rfl⟩ := Writer.emit_eq_ok hedges
  obtain ⟨bs₁, happ₁, hread₁⟩ := string_codec.read hout₁
  obtain ⟨bs₂, rfl, hlen₂, hread₂⟩ := readEdges_written hout₂ hend
  refine ⟨bs₁ ++ bs₂, ?_, fun {s rest} loadExternal hinput => ?_⟩
  · rw [happ₁.eq hout₁, Output.append_append] at hwrite
    exact hwrite
  · rw [List.append_assoc] at hinput
    rw [readAll, bind_of_ok (take_of_reads hread₁ hinput), if_neg (by simp)]
    have hn : h.edges.length < (bs₂ ++ rest).length := by
      rw [List.length_append]
      omega
    exact (bind_of_ok (get_apply _)).trans (bind_of_ok (hread₂ rfl hn))

end AttributeFile

end Simula
