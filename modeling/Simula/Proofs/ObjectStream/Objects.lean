import Simula.Proofs.ObjectStream.Fields

/-!
# Objects in step

A record is written and read in step if its links are. Induction on the depth of the writer gives
the same for whole objects, absent ones and references included. An object is refused if and only
if one of the records opened in it cannot be read where it stands.
-/

namespace Simula

/-- The record of an opening can be read where it stands. -/
def Opening.Readable (t : Tree) (detached : List NodeId) (o : Opening) : Prop :=
  (t.data o.node).Readable t detached (o.node :: o.around)

instance (t : Tree) (detached : List NodeId) (o : Opening) : Decidable (o.Readable t detached) :=
  inferInstanceAs (Decidable ((t.data o.node).Readable t detached (o.node :: o.around)))

/-- A node gets the next number. -/
theorem Writer.number_eq_ok {id : NodeId} {w w' : WriterState} {sequence : Int}
    (h : Writer.number id w = .ok sequence w') :
    sequence = w.next ∧
      w' = { w with numbers := (id, w.next) :: w.numbers, next := w.next + 1 } := by
  rw [Writer.number] at h
  split at h
  · cases h
  · cases h
    exact ⟨rfl, rfl⟩

/-- Numbers stay different when the next node gets the next number. -/
theorem WriterState.Numbered.number {seen : List Opening} {w : WriterState}
    (h : w.Numbered seen) (o : Opening) (hnew : o.node ∉ seen.map (·.node)) :
    ({ w with numbers := (o.node, w.next) :: w.numbers, next := w.next + 1 } :
      WriterState).Numbered (seen ++ [o]) where
  nodes := by
    rw [List.map_cons, h.nodes, List.map_append, List.reverse_append]
    rfl
  once := by
    rw [List.map_append, List.nodup_append]
    refine ⟨h.once, List.nodup_singleton _, fun a ha b hb heq => hnew ?_⟩
    have hb : b = o.node := List.mem_singleton.mp hb
    rw [← hb, ← heq]
    exact ha
  below := by
    refine List.forall_mem_cons.mpr ⟨Int.lt_succ w.next, fun p hp => ?_⟩
    exact Int.lt_trans (h.below p hp) (Int.lt_succ w.next)
  nodup := by
    rw [List.map_cons, List.nodup_cons]
    refine ⟨fun hmem => ?_, h.nodup⟩
    obtain ⟨p, hp, heq⟩ := List.mem_map.mp hmem
    have hlt := h.below p hp
    rw [heq] at hlt
    exact Int.lt_irrefl _ hlt

/-- A node is numbered if and only if it has been opened. -/
theorem WriterState.Numbered.isSome_sequence? {seen : List Opening} {w : WriterState}
    (h : w.Numbered seen) {id : NodeId} :
    (w.sequence? id).isSome ↔ id ∈ seen.map (·.node) := by
  have hkeys : id ∈ w.numbers.map (·.1) ↔ id ∈ seen.map (·.node) := by
    rw [h.nodes, List.mem_reverse]
  rw [← hkeys]
  constructor
  · intro hsome
    obtain ⟨sequence, hsequence⟩ := Option.isSome_iff_exists.mp hsome
    exact List.mem_map.mpr ⟨_, mem_of_lookup hsequence, rfl⟩
  · intro hmem
    obtain ⟨p, hp, rfl⟩ := List.mem_map.mp hmem
    refine Option.isSome_iff_ne_none.mpr fun hnone => ?_
    have hne := List.lookup_eq_none_iff.mp hnone p hp
    simp at hne

section

variable {t : Tree} {detached : List NodeId} {k : Copying t detached} {around : List NodeId}
variable {openOne : List Opening → NodeId → List Opening} {good : Opening → Prop}
variable {writeLink : Option NodeId → Writer Unit}

/-- A record starts with its tag, its number and its line. -/
theorem putRecord_eq_ok {id : NodeId} {node : Node} {w w' : WriterState}
    (h : Writer.putRecord writeLink id node w = .ok () w') :
    node.data ≠ .pending ∧ ∃ bs cs : Bytes, Decoder.short.Reads bs w.next ∧
      Decoder.count.Reads cs (min node.line maxShort) ∧
      Writer.putData writeLink node.data.kind node.data
        ⟨w.out ++ UInt8.ofNat node.data.kind.tag :: (bs ++ cs), (id, w.next) :: w.numbers,
          w.next + 1⟩ = .ok () w' := by
  unfold Writer.putRecord at h
  split at h
  · obtain ⟨_, _, h₀, _⟩ := bind_eq_ok.mp h
    cases h₀
  · next hd =>
    obtain ⟨sequence, w₁, hnumber, h₁⟩ := bind_eq_ok.mp h
    obtain ⟨rfl, rfl⟩ := Writer.number_eq_ok hnumber
    obtain ⟨_, w₂, hkind, h₂⟩ := bind_eq_ok.mp h₁
    obtain ⟨_, w₃, hshort, h₃⟩ := bind_eq_ok.mp h₂
    obtain ⟨_, w₄, hcount, h₄⟩ := bind_eq_ok.mp h₃
    obtain ⟨out₂, hout₂, rfl⟩ := Writer.emit_eq_ok hkind
    obtain ⟨out₃, hout₃, rfl⟩ := Writer.emit_eq_ok hshort
    obtain ⟨out₄, hout₄, rfl⟩ := Writer.emit_eq_ok hcount
    obtain ⟨bs, hbs, hreads⟩ := short_codec.read hout₃
    obtain ⟨cs, hcs, hreadc⟩ := count_codec.read hout₄
    have hout : out₄ = w.out ++ UInt8.ofNat node.data.kind.tag :: (bs ++ cs) := by
      rw [hcs.eq hout₄, hbs.eq hout₃, (Encoder.kind_appends _).eq hout₂, Output.append_append,
        Output.append_append]
      rfl
    refine ⟨hd, bs, cs, hreads, hreadc, ?_⟩
    rw [← hout]
    exact h₄

/-- A reader that meets the head of a record begins the node and goes on with its content. -/
theorem objectWithin_record {depth : Nat} {r : ReaderState} {kind : Kind} {sequence : Int}
    {line : Nat} {sbs lbs rest : Bytes} (hnull : kind ≠ .null) (href : kind ≠ .objectReference)
    (hinput : r.input = UInt8.ofNat kind.tag :: (sbs ++ (lbs ++ rest)))
    (hshort : Decoder.short.Reads sbs sequence) (hline : Decoder.count.Reads lbs line)
    (hfree : r.objects.lookup sequence = none) :
    Reader.objectWithin (depth + 1) r =
      (do
        let d ← Reader.takeData (Reader.objectWithin depth) kind
        Reader.complete r.tree.size d
        return some r.tree.size)
      (ReaderState.opened { r with input := rest } sequence line) := by
  have hkind : Decoder.kind r.input = .ok kind (sbs ++ (lbs ++ rest)) := by
    rw [hinput]
    exact Decoder.kind_reads kind _
  rw [Reader.objectWithin, bind_of_ok (Reader.take_of_ok hkind),
    Reader.takeTagged_record hnull href, bind_of_ok (Reader.take_of_ok (hshort _)),
    bind_of_ok (Reader.take_of_ok (hline _))]
  exact bind_of_ok (Reader.register_of_fresh (s := { r with input := rest }) line hfree)

/-- A record is written and read in step if its links are, and it is refused if it cannot be
read where it stands. -/
theorem putRecord_transcribes {id : NodeId} {node : Node} (hnode : t.nodes[id]? = some node)
    (hlink : ∀ depth seen l, Transcribes k depth (id :: around)
      (∀ o ∈ openAll openOne seen l.toList, good o) seen (openAll openOne seen l.toList)
      (writeLink l) (Reader.objectWithin depth) (copiedLink detached k.copy l))
    (hmem : ∀ seen id, id ∈ detached ∨ id ∈ (seen ++ openOne seen id).map (·.node))
    {seen : List Opening} (hnew : id ∉ seen.map (·.node)) (depth : Nat) :
    Transcribes k depth around
      ((∀ o ∈ openAll openOne (seen ++ [⟨id, around⟩]) (t.data id).links, good o) ∧
        (t.data id).Readable t detached (id :: around)) seen
      (⟨id, around⟩ :: openAll openOne (seen ++ [⟨id, around⟩]) (t.data id).links)
      (Writer.putRecord writeLink id node) (Reader.objectWithin depth) (some (k.copy id)) := by
  intro w w' hw hput
  obtain ⟨hd, sbs, lbs, hshort, hline, hdata⟩ := putRecord_eq_ok hput
  rw [← Tree.data_of_node hnode] at hd hdata
  rw [← Tree.line_of_node hnode] at hline
  have hw₁ : (⟨w.out ++ UInt8.ofNat (t.data id).kind.tag :: (sbs ++ lbs),
      (id, w.next) :: w.numbers, w.next + 1⟩ : WriterState).Numbered (seen ++ [⟨id, around⟩]) :=
    have h := hw.number ⟨id, around⟩ hnew
    ⟨h.nodes, h.once, h.below, h.nodup⟩
  rw [List.append_cons]
  cases depth with
  | zero =>
    obtain ⟨hw', bs, hout, -⟩ := takeData_transcribes (hlink 0) hmem _ hd hw₁ hdata
    refine ⟨hw', _, hout.trans (Output.append_append ..), fun r rest _ _ hlen => ?_⟩
    simp at hlen
  | succ depth =>
    obtain ⟨hw', bs, hout, hread⟩ := takeData_transcribes (hlink depth) hmem _ hd hw₁ hdata
    refine ⟨hw', _, hout.trans (Output.append_append ..), fun r rest hr hinput hlen hplaced => ?_⟩
    obtain ⟨hcopy : k.copy id = r.tree.size, hfinished, hplaced⟩ := hplaced.cons
    have hinput' : r.input =
        UInt8.ofNat (t.data id).kind.tag :: (sbs ++ (lbs ++ (bs ++ rest))) := by
      rw [hinput]
      simp
    have hfree : r.objects.lookup w.next = none := by
      refine lookup_eq_none_of_notMem fun hmem => ?_
      rw [hr.objects, List.map_map] at hmem
      obtain ⟨p, hp, heq⟩ := List.mem_map.mp hmem
      exact Int.lt_irrefl _ (heq ▸ hw.below p hp)
    obtain ⟨hnull, href⟩ := NodeData.kind_ne_sentinel hd
    rw [objectWithin_record hnull href hinput' hshort hline hfree]
    have hr₁ := (hr.setInput (bs ++ rest)).begin hcopy w.next
    have hnot : id ∉ around := fun hmem => hnew (hr.opened_subset id hmem)
    have hsize : (ReaderState.opened { r with input := bs ++ rest } w.next
        (min (t.line id) maxShort)).tree.size = r.tree.size + 1 := Tree.size_push ..
    obtain ⟨hok, herr⟩ := hread hr₁ rfl (by simp at hlen; omega) (hsize ▸ hplaced)
    refine ⟨fun hc => ?_, fun hc => ?_⟩
    · obtain ⟨r₂, htake, hinput₂, hsize₂, hr₂⟩ := hok hc
      rw [bind_of_ok htake, ← hcopy]
      refine ⟨r₂.completed (k.copy id) _, rfl, hinput₂, ?_, hr₂.finish hnot hfinished⟩
      rw [ReaderState.size_completed, hsize₂, hsize, List.length_cons, hcopy, Nat.add_right_comm,
        Nat.add_assoc]
    · obtain ⟨e, r₂, htake⟩ := herr hc
      exact ⟨e, r₂, bind_of_error htake⟩

/-- A mark for an absent object is read as one. -/
theorem null_transcribes (depth : Nat) (opened : List NodeId) (seen : List Opening) :
    Transcribes k depth opened True seen [] (Writer.emit (Encoder.kind .null))
      (Reader.objectWithin depth) none := by
  intro w w' hw hput
  obtain ⟨out, hout, rfl⟩ := Writer.emit_eq_ok hput
  rw [List.append_nil]
  refine ⟨⟨hw.nodes, hw.once, hw.below, hw.nodup⟩, _, (Encoder.kind_appends .null).eq hout,
    fun r rest hr hinput hlen _ => ⟨fun _ => ?_, fun hn => absurd trivial hn⟩⟩
  cases depth with
  | zero => cases hlen
  | succ depth =>
    have hkind : Decoder.kind r.input = .ok .null rest := by
      rw [hinput]
      exact Decoder.kind_reads .null rest
    exact ⟨{ r with input := rest }, bind_of_ok (Reader.take_of_ok hkind), rfl, rfl,
      hr.setInput rest⟩

/-- A reference to a node that has been written is read as a link to its copy. -/
theorem reference_transcribes {record : NodeId → Writer Unit} {id : NodeId}
    {seen : List Opening} (hattached : id ∉ detached) (hid : id ∈ seen.map (·.node))
    (depth : Nat) (opened : List NodeId) :
    Transcribes k depth opened True seen []
      (Writer.putObject detached record (some id)) (Reader.objectWithin depth)
      (some (k.copy id)) := by
  intro w w' hw hput
  obtain ⟨sequence, hsequence⟩ := Option.isSome_iff_exists.mp (hw.isSome_sequence?.mpr hid)
  rw [Writer.putObject_of_known hattached hsequence] at hput
  obtain ⟨_, w₁, hkind, hshort⟩ := bind_eq_ok.mp hput
  obtain ⟨out₁, hout₁, rfl⟩ := Writer.emit_eq_ok hkind
  obtain ⟨out₂, hout₂, rfl⟩ := Writer.emit_eq_ok hshort
  obtain ⟨bs, hbs, hread⟩ := short_codec.read hout₂
  have hout : out₂ = w.out ++ UInt8.ofNat Kind.objectReference.tag :: bs := by
    rw [hbs.eq hout₂, (Encoder.kind_appends _).eq hout₁, Output.append_append]
    rfl
  rw [List.append_nil]
  refine ⟨⟨hw.nodes, hw.once, hw.below, hw.nodup⟩, _, hout,
    fun r rest hr hinput hlen _ => ⟨fun _ => ?_, fun hn => absurd trivial hn⟩⟩
  cases depth with
  | zero => cases hlen
  | succ depth =>
    have hkind : Decoder.kind r.input = .ok .objectReference (bs ++ rest) := by
      rw [hinput]
      exact Decoder.kind_reads .objectReference _
    have hlookup : r.objects.lookup sequence = some (k.copy id) := by
      refine lookup_of_mem ?_ ?_
      · rw [hr.objects, List.map_map]
        exact hw.nodup
      · rw [hr.objects]
        exact List.mem_map.mpr ⟨(id, sequence), mem_of_lookup hsequence, rfl⟩
    refine ⟨{ r with input := rest }, ?_, rfl, rfl, hr.setInput rest⟩
    rw [Reader.objectWithin, bind_of_ok (Reader.take_of_ok hkind), Reader.takeTagged,
      bind_of_ok (Reader.take_of_ok (hread rest)), bind_of_ok (get_apply _)]
    simp only [id_eq, hlookup]
    rfl

/-- An object is written and read in step if the record of a node that is met first is. -/
theorem putObject_transcribes {record : NodeId → Writer Unit} {depth : Nat}
    {opened : List NodeId} {seen : List Opening}
    (hknown : ∀ id, id ∈ detached ∨ id ∈ seen.map (·.node) → openOne seen id = [])
    (hnew : ∀ id, id ∉ detached → id ∉ seen.map (·.node) →
      Transcribes k depth opened (∀ o ∈ openOne seen id, good o) seen
        (openOne seen id) (record id) (Reader.objectWithin depth) (some (k.copy id)))
    (l : Option NodeId) :
    Transcribes k depth opened (∀ o ∈ openAll openOne seen l.toList, good o) seen
      (openAll openOne seen l.toList) (Writer.putObject detached record l)
      (Reader.objectWithin depth) (copiedLink detached k.copy l) := by
  cases l with
  | none => exact (null_transcribes depth opened seen).congr (by simp [openAll])
  | some id =>
    rw [Option.toList_some, openAll_singleton]
    by_cases hdetached : id ∈ detached
    · rw [hknown id (.inl hdetached), Writer.putObject_of_detached hdetached,
        copiedLink_of_mem hdetached]
      exact (null_transcribes depth opened seen).congr (by simp)
    rw [copiedLink_of_notMem hdetached]
    by_cases hseen : id ∈ seen.map (·.node)
    · rw [hknown id (.inr hseen)]
      exact (reference_transcribes hdetached hseen depth opened).congr (by simp)
    · intro w w' hw hput
      have hsequence : w.sequence? id = none := by
        rw [← Option.not_isSome_iff_eq_none, hw.isSome_sequence?]
        exact hseen
      rw [Writer.putObject_of_new hdetached hsequence] at hput
      exact hnew id hdetached hseen hw hput

/-- An object is written and read in step, and refused if a record in it cannot be read where it
stands. -/
theorem object_transcribes (limit depth : Nat) (around : List NodeId) (seen : List Opening)
    (l : Option NodeId) :
    Transcribes k depth around
      (∀ o ∈ openAll (t.openFrom detached limit around) seen l.toList, o.Readable t detached) seen
      (openAll (t.openFrom detached limit around) seen l.toList)
      (Writer.putObject detached (Writer.record t detached limit) l) (Reader.objectWithin depth)
      (copiedLink detached k.copy l) := by
  induction limit generalizing depth around seen l with
  | zero =>
    refine putObject_transcribes (fun id h => Tree.openFrom_of_known h) (fun id _ _ => ?_) l
    intro w w' _ hput
    cases hput
  | succ limit ih =>
    refine putObject_transcribes (fun id h => Tree.openFrom_of_known h) (fun id hdet hseen => ?_) l
    intro w w' hw hput
    cases hnode : t.nodes[id]? with
    | none =>
      rw [Writer.record, hnode] at hput
      cases hput
    | some node =>
      rw [Writer.record, hnode] at hput
      have hrecord := putRecord_transcribes hnode
        (fun depth seen l => ih depth (id :: around) seen l)
        (Tree.mem_openFrom limit (id :: around)) hseen depth
      have hnot : ¬ (id ∈ detached ∨ id ∈ seen.map (·.node)) := fun h => h.elim hdet hseen
      rw [Tree.openFrom_of_new limit hnot]
      refine (hrecord.congr ?_) hw hput
      rw [List.forall_mem_cons]
      exact and_comm

/-- A whole object is written and read in step. -/
theorem wholeObject_transcribes (depth : Nat) (seen : List Opening) (l : Option NodeId) :
    Transcribes k depth []
      (∀ o ∈ openAll (t.openFrom detached t.size []) seen l.toList, o.Readable t detached) seen
      (openAll (t.openFrom detached t.size []) seen l.toList) (Writer.object t detached l)
      Reader.object (copiedLink detached k.copy l) := by
  intro w w' hw hput
  have htranscribes := fun depth => @object_transcribes t detached k t.size depth [] seen l
  obtain ⟨hw', bs, hout, -⟩ := htranscribes depth hw hput
  refine ⟨hw', bs, hout, fun r rest hr hinput _ hplaced => ?_⟩
  -- The reader goes as deep as its input is long, which is deep enough for these bytes.
  obtain ⟨-, bs', hout', hread⟩ := htranscribes r.input.length hw hput
  obtain rfl : bs = bs' := Output.append_cancel (hout.symm.trans hout')
  exact hread hr hinput (by rw [hinput, List.length_append]; omega) hplaced


/-- The tag of a node in a stream: a mark for a detached one, that of a reference for one that has
been written, and otherwise that of its kind. -/
def Tree.tagKind (t : Tree) (detached : List NodeId) (seen : List Opening) (id : NodeId) : Kind :=
  if id ∈ detached then .null
  else if id ∈ seen.map (·.node) then .objectReference
  else t.kind id

/-- A node that is met for the first time has the tag of its kind. -/
theorem Tree.tagKind_of_new {seen : List Opening} {id : NodeId} (hattached : id ∉ detached)
    (hnew : id ∉ seen.map (·.node)) : t.tagKind detached seen id = t.kind id := by
  rw [tagKind, if_neg hattached, if_neg hnew]

/-- The tag of a node that is not met for the first time is that of no record. -/
theorem Tree.tagKind_cases (t : Tree) (detached : List NodeId) (seen : List Opening) (id : NodeId) :
    t.tagKind detached seen id = .null ∨ t.tagKind detached seen id = .objectReference ∨
      id ∉ detached ∧ id ∉ seen.map (·.node) ∧ t.tagKind detached seen id = t.kind id := by
  unfold tagKind
  split
  · exact .inl rfl
  next hattached =>
  split
  · exact .inr (.inl rfl)
  · next hnew => exact .inr (.inr ⟨hattached, hnew, rfl⟩)

/-- A node with the tag of a module is met for the first time. -/
theorem Tree.notMem_of_tagKind {seen : List Opening} {id : NodeId}
    (h : (t.tagKind detached seen id).isModule = true) : id ∉ detached := by
  rcases t.tagKind_cases detached seen id with hk | hk | ⟨hattached, -, -⟩
  · rw [hk] at h
    cases h
  · rw [hk] at h
    cases h
  · exact hattached

/-- A module has not the tag of an external declaration. -/
theorem Tree.tagKind_ne_external {id : NodeId} (hmodule : (t.kind id).isModule = true)
    (seen : List Opening) : t.tagKind detached seen id ≠ .externalDeclaration := by
  intro h
  rcases t.tagKind_cases detached seen id with hk | hk | ⟨-, -, hk⟩
  · cases h.symm.trans hk
  · cases h.symm.trans hk
  · rw [← hk, h] at hmodule
    cases hmodule

/-- An object starts with its tag. -/
theorem object_starts_with_tag {seen : List Opening} {id : NodeId} {w w' : WriterState}
    (hw : w.Numbered seen) (h : Writer.object t detached (some id) w = .ok () w') :
    ∃ bs : Bytes, w'.out = w.out ++ UInt8.ofNat (t.tagKind detached seen id).tag :: bs := by
  rw [Writer.object] at h
  unfold Tree.tagKind
  split
  · next hdetached =>
    rw [Writer.putObject_of_detached hdetached] at h
    obtain ⟨out, hout, rfl⟩ := Writer.emit_eq_ok h
    exact ⟨[], (Encoder.kind_appends _).eq hout⟩
  next hdetached =>
  split
  · next hseen =>
    obtain ⟨sequence, hsequence⟩ := Option.isSome_iff_exists.mp (hw.isSome_sequence?.mpr hseen)
    rw [Writer.putObject_of_known hdetached hsequence] at h
    obtain ⟨_, w₁, hkind, hshort⟩ := bind_eq_ok.mp h
    obtain ⟨out₁, hout₁, rfl⟩ := Writer.emit_eq_ok hkind
    obtain ⟨out₂, hout₂, rfl⟩ := Writer.emit_eq_ok hshort
    obtain ⟨bs, hbs, -⟩ := short_codec.read hout₂
    refine ⟨bs, ?_⟩
    change out₂ = _
    rw [hbs.eq hout₂, (Encoder.kind_appends _).eq hout₁, Output.append_append]
    rfl
  · next hseen =>
    have hsequence : w.sequence? id = none := by
      rw [← Option.not_isSome_iff_eq_none, hw.isSome_sequence?]
      exact hseen
    rw [Writer.putObject_of_new hdetached hsequence] at h
    cases hsize : t.size with
    | zero =>
      rw [hsize] at h
      cases h
    | succ depth =>
      rw [hsize, Writer.record] at h
      cases hnode : t.nodes[id]? with
      | none =>
        rw [hnode] at h
        cases h
      | some node =>
        rw [hnode] at h
        obtain ⟨hd, sbs, lbs, -, -, hdata⟩ := putRecord_eq_ok h
        have hw₁ : (⟨w.out ++ UInt8.ofNat node.data.kind.tag :: (sbs ++ lbs),
            (id, w.next) :: w.numbers, w.next + 1⟩ : WriterState).Numbered (seen ++ [⟨id, []⟩]) :=
          have h := hw.number ⟨id, []⟩ hseen
          ⟨h.nodes, h.once, h.below, h.nodup⟩
        have hlink := fun seen l =>
          @object_transcribes t detached (.plain t detached (fun i => i)) depth 0 [id] seen l
        obtain ⟨-, bs, hout, -⟩ :=
          takeData_transcribes hlink (Tree.mem_openFrom depth [id]) _ hd hw₁ hdata
        refine ⟨sbs ++ lbs ++ bs, ?_⟩
        rw [hout, Output.append_append, Tree.kind, Tree.data_of_node hnode]
        rfl

/-- Reading an object is reading its tag and then what follows it. -/
theorem Reader.object_eq_tagged {r : ReaderState} {kind : Kind} {rest : Bytes}
    (hinput : r.input = UInt8.ofNat kind.tag :: rest) :
    Reader.object r = Reader.tagged kind { r with input := rest } := by
  have hkind : Decoder.kind r.input = .ok kind rest := by
    rw [hinput]
    exact Decoder.kind_reads kind rest
  rw [Reader.object, hinput, List.length_cons, Reader.objectWithin,
    bind_of_ok (Reader.take_of_ok hkind)]
  rfl

end

end Simula
