import Simula.Proofs.ObjectStream.Transcript

/-!
# A graph that has been read is written in the bytes it was read from

Every value of the format has one accepted encoding, and a reader creates nodes in the order in
which a writer would number them. So a graph read into an empty tree is written again in the same
bytes, provided that its records are numbered from some base on without a gap.

The writer runs on the final tree while the reader still builds it. The two agree on a node as
soon as its record is complete, and records are complete before a writer needs their content.
-/

namespace Simula

/-- The first `n` nodes, numbered from `base` on, as a reader registers them. -/
def countedObjects (base : Int) (n : Nat) : List (Int × NodeId) :=
  ((List.range n).map fun i : Nat => (base + i, i)).reverse

/-- The writer that has numbered the first `n` nodes from `base` on. -/
def WriterState.counted (base : Int) (out : Output) (n : Nat) : WriterState :=
  ⟨out, ((List.range n).map fun i : Nat => (i, base + i)).reverse, base + n⟩

/-- The reader has registered all nodes of the tree, numbered from `base` on. -/
def ReaderState.Counted (base : Int) (r : ReaderState) : Prop :=
  r.objects = countedObjects base r.tree.size

section

variable {base : Int} {n : Nat}

/-- One node more is registered under the next number. -/
theorem countedObjects_succ (base : Int) (n : Nat) :
    countedObjects base (n + 1) = (base + n, n) :: countedObjects base n := by
  simp [countedObjects, List.range_succ]

/-- The registered nodes are those before the end, each under its own number. -/
theorem mem_countedObjects {sequence : Int} {id : NodeId} :
    (sequence, id) ∈ countedObjects base n ↔ id < n ∧ sequence = base + id := by
  simp only [countedObjects, List.mem_reverse, List.mem_map, List.mem_range, Prod.mk.injEq]
  constructor
  · rintro ⟨i, hi, rfl, rfl⟩
    exact ⟨hi, rfl⟩
  · rintro ⟨hid, rfl⟩
    exact ⟨id, hid, rfl, rfl⟩

/-- More registered nodes stand in front of those before. -/
theorem countedObjects_add (base : Int) (n k : Nat) :
    ∃ front, countedObjects base (n + k) = front ++ countedObjects base n := by
  refine ⟨((List.range k).map fun i : Nat => (base + ((n + i : Nat) : Int), n + i)).reverse, ?_⟩
  rw [countedObjects, countedObjects, List.range_add, List.map_append, List.reverse_append,
    List.map_map]
  rfl

/-- There are as many numbers as nodes. -/
@[simp] theorem length_countedObjects (base : Int) (n : Nat) :
    (countedObjects base n).length = n := by
  simp [countedObjects]

/-- One node more has the next number. -/
theorem WriterState.counted_succ (base : Int) (out : Output) (n : Nat) :
    counted base out (n + 1) =
      ⟨out, (n, base + n) :: (counted base out n).numbers, base + n + 1⟩ := by
  simp [counted, List.range_succ, Int.add_assoc]

/-- Nodes before the end have their number. -/
theorem WriterState.sequence?_counted {out : Output} {id : NodeId} (h : id < n) :
    (counted base out n).sequence? id = some (base + id) := by
  refine lookup_of_mem ?_ ?_
  · simp only [counted, List.map_reverse, List.map_map]
    rw [List.nodup_reverse]
    simpa [Function.comp_def] using List.nodup_range
  · simp only [counted, List.mem_reverse, List.mem_map, List.mem_range]
    exact ⟨id, h, rfl⟩

/-- The node at the end has no number yet. -/
theorem WriterState.sequence?_counted_end {out : Output} :
    (counted base out n).sequence? n = none := by
  refine lookup_eq_none_of_notMem ?_
  simp [counted]

end

/-- If all nodes are numbered without a gap in the end, they were before. -/
theorem ReaderState.Counted.of_extends {base : Int} {r r' : ReaderState} (h : r'.Counted base)
    (he : r.Extends r') : r.Counted base := by
  have hsize := he.size_le
  have hlength := congrArg List.length he.registered
  rw [h, List.length_map, length_countedObjects, List.length_append, List.length_reverse,
    List.length_range', List.length_map] at hlength
  obtain ⟨front, hfront⟩ := he.objects
  obtain ⟨front', hfront'⟩ := countedObjects_add base r.tree.size (r'.tree.size - r.tree.size)
  rw [Nat.add_sub_cancel' hsize] at hfront'
  have happ : front ++ r.objects = front' ++ countedObjects base r.tree.size := by
    rw [hfront, h, hfront']
  exact List.append_inj_right' happ (by rw [length_countedObjects]; omega)

section

variable (final : Tree) (base : Int) (depth : Nat)

/-- The writing action, run on the final tree, appends the bytes that the reader has taken on the
way from `r` to `r'`, and numbers the nodes that the reader has registered. -/
def Retraces (r r' : ReaderState) (put : Writer Unit) : Prop :=
  r'.Counted base →
    (∀ i, r.tree.size ≤ i → i < r'.tree.size → final.nodes[i]? = r'.tree.nodes[i]?) →
    r'.tree.size ≤ final.size → final.size ≤ depth + r.tree.size →
    ∃ bs, r.input = bs ++ r'.input ∧
      ∀ out, put (.counted base out r.tree.size) = .ok () (.counted base (out ++ bs) r'.tree.size)

variable {final base depth} {r r₁ r₂ : ReaderState} {put put' : Writer Unit}

/-- Actions one after the other retrace what has been read one after the other. -/
theorem Retraces.then (h : Retraces final base depth r r₁ put)
    (h' : Retraces final base depth r₁ r₂ put') (he : r.Extends r₁) (he' : r₁.Extends r₂) :
    Retraces final base depth r r₂ (do put; put') := by
  intro hcounted hagree hle hdepth
  have hsize := he.size_le
  have hsize' := he'.size_le
  obtain ⟨bs, hinput, hput⟩ := h (hcounted.of_extends he')
    (fun i hi hi' => (hagree i hi (by omega)).trans (he'.old i hi')) (by omega) hdepth
  obtain ⟨cs, hinput', hput'⟩ := h' hcounted (fun i hi => hagree i (by omega)) hle (by omega)
  refine ⟨bs ++ cs, by rw [hinput, hinput', List.append_assoc], fun out => ?_⟩
  rw [bind_of_ok (hput out), hput', Output.append_append]

/-- Where nothing has been read nothing is written. -/
theorem Retraces.nothing : Retraces final base depth r r (pure ()) :=
  fun _ _ _ _ => ⟨[], rfl, fun out => by simp⟩

/-- A value that has been taken is appended in the same bytes. -/
theorem Retraces.emit {α : Type} {d : Decoder α} {e : Encoder Unit} {a : α}
    (h : Reader.take d r = .ok a r₁)
    (hwrite : ∀ {input rest}, d input = .ok a rest → ∃ bs, input = bs ++ rest ∧ e.Appends bs) :
    Retraces final base depth r r₁ (Writer.emit e) := by
  intro _ _ _ _
  obtain ⟨hd, htree, -⟩ := Reader.take_eq_ok h
  obtain ⟨bs, hinput, happ⟩ := hwrite hd
  rw [htree]
  exact ⟨bs, hinput, fun out => Writer.emit_of_appends happ _⟩

end

section

variable {final : Tree} {base : Int} {depth : Nat} {readLink : Reader (Option NodeId)}
variable {writeLink : Option NodeId → Writer Unit} {r r' : ReaderState}
variable (hgrows : readLink.Grows)
variable (hlink : ∀ {r r' l}, readLink r = .ok l r' → Retraces final base depth r r' (writeLink l))

include hlink in
/-- A node that has to be there is written as it was read. -/
theorem retraces_takeChild {role : String} {id : NodeId}
    (h : Reader.takeChild readLink role r = .ok id r') :
    Retraces final base depth r r' (writeLink (some id)) := by
  obtain ⟨l, r₁, hl, h₁⟩ := bind_eq_ok.mp h
  cases l with
  | none => cases h₁
  | some i =>
    obtain ⟨rfl, rfl⟩ := pure_eq_ok.mp h₁
    exact hlink hl

include hgrows hlink

/-- Nodes are written one after the other as they were read. -/
theorem retraces_takeChildren {role : String} {n : Nat} {ids : List NodeId}
    (h : Reader.takeChildren readLink role n r = .ok ids r') :
    ids.length = n ∧ Retraces final base depth r r' (Writer.putObjects writeLink ids) := by
  induction n generalizing r ids with
  | zero =>
    obtain ⟨rfl, rfl⟩ := pure_eq_ok.mp h
    exact ⟨rfl, .nothing⟩
  | succ n ih =>
    obtain ⟨id, r₁, hid, h₁⟩ := bind_eq_ok.mp h
    obtain ⟨rest, r₂, hrest, h₂⟩ := bind_eq_ok.mp h₁
    obtain ⟨rfl, rfl⟩ := pure_eq_ok.mp h₂
    obtain ⟨hlength, hretraces⟩ := ih hrest
    refine ⟨by rw [List.length_cons, hlength], (retraces_takeChild hlink hid).then hretraces ?_ ?_⟩
    · exact ((Reader.grows_frame.child (y := readLink) hgrows role).of_ok hid).1
    · exact ((Reader.grows_frame.takeChildren (y := readLink) hgrows role n).of_ok hrest).1

/-- A list of nodes is written as it was read, with its length. -/
theorem retraces_takeList {role : String} {ids : List NodeId}
    (h : Reader.takeList readLink role r = .ok ids r') :
    Retraces final base depth r r' (Writer.putList writeLink ids) := by
  obtain ⟨n, r₁, hn, h₁⟩ := bind_eq_ok.mp h
  obtain ⟨rfl, hretraces⟩ := retraces_takeChildren hgrows hlink h₁
  refine (Retraces.emit hn count_codec.write).then hretraces ?_ ?_
  · exact ((Reader.take_grows _).of_ok hn).1
  · exact ((Reader.grows_frame.takeChildren (y := readLink) hgrows role _).of_ok h₁).1

/-- Declarations are written as they were read. -/
theorem retraces_takeDeclarations {l : DeclarationList}
    (h : Reader.takeDeclarations readLink r = .ok l r') :
    Retraces final base depth r r' (Writer.putList writeLink l.nodes) := by
  obtain ⟨ids, r₁, hids, h₁⟩ := bind_eq_ok.mp h
  obtain ⟨s, r₂, hs, h₂⟩ := bind_eq_ok.mp h₁
  rw [get_apply] at hs
  cases hs
  cases hlist : Reader.declarationList r₁.tree {} ids with
  | error e =>
    rw [hlist] at h₂
    cases h₂
  | ok list =>
    rw [hlist] at h₂
    obtain ⟨rfl, rfl⟩ := pure_eq_ok.mp h₂
    rw [nodes_declarationList hlist]
    exact retraces_takeList hgrows hlink hids

/-- A field is written as it was read. -/
theorem retraces_takeField {s : Shape} {v : s.Value}
    (h : Reader.takeField readLink s r = .ok v r') :
    Retraces final base depth r r' (Writer.putField writeLink s v) := by
  cases s with
  | scalar s => exact Retraces.emit h Scalar.write_take
  | link => exact hlink h
  | child role => exact retraces_takeChild hlink h
  | children role => exact retraces_takeList hgrows hlink h
  | declarations => exact retraces_takeDeclarations hgrows hlink h

/-- The fields of a record are written as they were read. -/
theorem retraces_takePayload {ss : List Shape} {p : Payload ss}
    (h : Reader.takePayload readLink ss r = .ok p r') :
    Retraces final base depth r r' (Writer.putPayload writeLink ss p) := by
  induction ss generalizing r with
  | nil =>
    obtain ⟨-, rfl⟩ := pure_eq_ok.mp h
    exact .nothing
  | cons s ss ih =>
    obtain ⟨v, r₁, hv, h₁⟩ := bind_eq_ok.mp h
    obtain ⟨vs, r₂, hvs, h₂⟩ := bind_eq_ok.mp h₁
    obtain ⟨rfl, rfl⟩ := pure_eq_ok.mp h₂
    refine (retraces_takeField hgrows hlink hv).then (ih hvs) ?_ ?_
    · exact ((Reader.grows_frame.takeField (y := readLink) hgrows s).of_ok hv).1
    · exact ((Reader.grows_frame.takePayload (y := readLink) hgrows ss).of_ok hvs).1

/-- The content of a node is written in the bytes it was read from. -/
theorem retraces_takeData {kind : Kind} {d : NodeData}
    (h : Reader.takeData readLink kind r = .ok d r') :
    d.kind = kind ∧ Retraces final base depth r r' (Writer.putData writeLink kind d) := by
  obtain ⟨layout, p, hl, hp, rfl⟩ := Reader.takeData_eq_ok h
  refine ⟨Layout.kind_build hl p, ?_⟩
  rw [Writer.putData, hl]
  simp only [Layout.fields_build hl p]
  exact retraces_takePayload hgrows hlink hp

end

/-- The next node is numbered while there are numbers left. -/
theorem Writer.number_counted {base : Int} {n : Nat} (h : base + n < maxShort)
    (out : Output) :
    Writer.number n (.counted base out n) = .ok (base + n) (.counted base out (n + 1)) := by
  have hnot : ¬ ((maxShort : Int) ≤ base + n) := by omega
  rw [Writer.number, WriterState.counted_succ]
  exact if_neg hnot

/-- The next node is written with a head of known bytes. -/
theorem Writer.putRecord_counted {base : Int} {n line : Nat} {d : NodeData}
    {writeLink : Option NodeId → Writer Unit} {kbs sbs lbs : Bytes} (h : base + n < maxShort)
    (hd : d ≠ .pending) (hkind : (Encoder.kind d.kind).Appends kbs)
    (hshort : (Encoder.short (base + n)).Appends sbs)
    (hline : (Encoder.count (min line maxShort)).Appends lbs) (out : Output) :
    Writer.putRecord writeLink n ⟨line, d⟩ (.counted base out n) =
      Writer.putData writeLink d.kind d
        (.counted base (out ++ (kbs ++ (sbs ++ lbs))) (n + 1)) := by
  unfold Writer.putRecord
  rw [if_neg hd]
  change (Writer.number n >>= _) _ = _
  rw [bind_of_ok (Writer.number_counted h out), bind_of_ok (Writer.emit_of_appends hkind _),
    bind_of_ok (Writer.emit_of_appends hshort _), bind_of_ok (Writer.emit_of_appends hline _)]
  simp only [WriterState.counted, Output.append_append, List.append_assoc]

section

variable {final : Tree} {base : Int} {depth : Nat} {r r₁ r₂ r₃ r' : ReaderState}

/-- A reference is written in the bytes it was read from. -/
theorem retraces_reference {record : NodeId → Writer Unit} {sequence : Int} {id : NodeId}
    (hkind : Reader.take Decoder.kind r = .ok .objectReference r₁)
    (hshort : Reader.take Decoder.short r₁ = .ok sequence r₂)
    (hlookup : r₂.objects.lookup sequence = some id) :
    Retraces final base depth r r₂ (Writer.putObject [] record (some id)) := by
  intro hcounted hagree hle hdepth
  have hboth : Retraces final base depth r r₂
      (do Writer.emit (Encoder.kind .objectReference); Writer.emit (Encoder.short sequence)) :=
    (Retraces.emit hkind kind_codec.write).then (Retraces.emit hshort short_codec.write)
      ((Reader.take_grows _).of_ok hkind).1 ((Reader.take_grows _).of_ok hshort).1
  obtain ⟨bs, hinput, hput⟩ := hboth hcounted hagree hle hdepth
  have hmem := mem_of_lookup hlookup
  rw [hcounted] at hmem
  obtain ⟨hid, rfl⟩ := mem_countedObjects.mp hmem
  -- Nothing has been registered on the way.
  have hsize : r₂.tree.size = r.tree.size := by
    rw [(Reader.take_eq_ok hshort).2.1, (Reader.take_eq_ok hkind).2.1]
  refine ⟨bs, hinput, fun out => ?_⟩
  rw [← hput out]
  exact Writer.putObject_of_known List.not_mem_nil
    (WriterState.sequence?_counted (by rw [← hsize]; exact hid))

/-- The head of a record is written in the bytes it was read from. -/
theorem takeHead_eq_ok {kind : Kind} {sequence : Int} {line : Nat}
    (hkind : Reader.take Decoder.kind r = .ok kind r₁)
    (hshort : Reader.take Decoder.short r₁ = .ok sequence r₂)
    (hline : Reader.take Decoder.count r₂ = .ok line r₃) :
    r₃.tree = r.tree ∧ r₃.objects = r.objects ∧ ∃ kbs sbs lbs : Bytes,
      r.input = kbs ++ (sbs ++ lbs) ++ r₃.input ∧ (Encoder.kind kind).Appends kbs ∧
      (Encoder.short sequence).Appends sbs ∧
      (Encoder.count (min line maxShort)).Appends lbs := by
  obtain ⟨hkind, htree₁, hobjects₁⟩ := Reader.take_eq_ok hkind
  obtain ⟨hshort, htree₂, hobjects₂⟩ := Reader.take_eq_ok hshort
  obtain ⟨hline, htree₃, hobjects₃⟩ := Reader.take_eq_ok hline
  obtain ⟨kbs, hinput, hkbs⟩ := kind_codec.write hkind
  obtain ⟨sbs, hinput₁, hsbs⟩ := short_codec.write hshort
  obtain ⟨lbs, hinput₂, hlbs⟩ := count_codec.write hline
  refine ⟨by rw [htree₃, htree₂, htree₁], by rw [hobjects₃, hobjects₂, hobjects₁], kbs, sbs, lbs,
    ?_, hkbs, hsbs, ?_⟩
  · rw [hinput, hinput₁, hinput₂, List.append_assoc, List.append_assoc]
  · rw [Nat.min_eq_left (Decoder.count_le hline)]
    exact hlbs

/-- A record is written in the bytes it was read from if its content is. -/
theorem retraces_record {kind : Kind} {sequence : Int} {line : Nat} {d : NodeData}
    (hbase : ∀ n < final.size, base + (n : Int) < maxShort)
    (hkind : Reader.take Decoder.kind r = .ok kind r₁)
    (hshort : Reader.take Decoder.short r₁ = .ok sequence r₂)
    (hline : Reader.take Decoder.count r₂ = .ok line r₃)
    (hd : d ≠ .pending) (hdkind : d.kind = kind)
    (hextends : (r₃.opened sequence line).Extends r')
    (hretraces : ∀ depth, Retraces final base depth (r₃.opened sequence line) r'
      (Writer.putData (Writer.putObject [] (Writer.record final [] depth)) kind d)) :
    Retraces final base depth r (r'.completed r₃.tree.size d)
      (Writer.putObject [] (Writer.record final [] depth) (some r₃.tree.size)) := by
  obtain ⟨htree, hobjects, kbs, sbs, lbs, hinput, hkbs, hsbs, hlbs⟩ :=
    takeHead_eq_ok hkind hshort hline
  intro hcounted hagree hle hdepth
  rw [ReaderState.size_completed] at hagree hle
  have hopened : (r₃.opened sequence line).tree.size = r.tree.size + 1 := by
    rw [← htree]
    exact Tree.size_push ..
  have hsize := hextends.size_le
  -- The number of the record is the next one.
  have hcounted' : r'.Counted base := by
    rw [ReaderState.Counted, ReaderState.size_completed] at hcounted
    exact hcounted
  have hsequence : sequence = base + r.tree.size := by
    have hobjects := hcounted'.of_extends hextends
    rw [ReaderState.Counted, hopened, countedObjects_succ] at hobjects
    exact congrArg Prod.fst (List.head_eq_of_cons_eq hobjects)
  -- The final tree has the node as it was completed.
  have hnode : final.nodes[r.tree.size]? = some ⟨line, d⟩ := by
    have hpending : r'.tree.nodes[r.tree.size]? = some ⟨line, .pending⟩ := by
      rw [hextends.old _ (by omega), ReaderState.opened, Tree.nodes_push, htree, if_pos rfl]
    rw [hagree _ (Nat.le_refl _) (by omega), ReaderState.completed, Tree.setData,
      Tree.nodes_update, htree, if_pos rfl, hpending]
    rfl
  have hlast : base + r.tree.size < maxShort := hbase _ (by omega)
  -- A record that is still to be written leaves the writer a level to go down.
  obtain ⟨depth, rfl⟩ : ∃ k, depth = k + 1 := ⟨depth - 1, by omega⟩
  have hagree' : ∀ i, (r₃.opened sequence line).tree.size ≤ i → i < r'.tree.size →
      final.nodes[i]? = r'.tree.nodes[i]? := by
    intro i hi hi'
    have hne : i ≠ r₃.tree.size := by
      rw [htree]
      omega
    exact (hagree i (by omega) hi').trans (Tree.nodes_setData_of_ne d hne)
  obtain ⟨bs, hbytes, hput⟩ := hretraces depth hcounted' hagree' hle (by omega)
  refine ⟨kbs ++ (sbs ++ lbs) ++ bs, ?_, fun out => ?_⟩
  · rw [hinput, List.append_assoc _ bs]
    exact congrArg _ hbytes
  · subst hdkind hsequence
    rw [htree, Writer.putObject_of_new List.not_mem_nil WriterState.sequence?_counted_end,
      Writer.record, hnode]
    rw [hopened] at hput
    refine (Writer.putRecord_counted hlast hd hkbs hsbs hlbs out).trans ?_
    rw [hput, Output.append_append, ReaderState.size_completed]

/-- An object is written in the bytes it was read from. -/
theorem retraces_objectWithin (hbase : ∀ n < final.size, base + (n : Int) < maxShort)
    (n depth : Nat)
    {l : Option NodeId} (h : Reader.objectWithin n r = .ok l r') :
    Retraces final base depth r r' (Writer.putObject [] (Writer.record final [] depth) l) := by
  induction n generalizing depth r r' l with
  | zero => cases h
  | succ n ih =>
    obtain ⟨kind, r₁, hkind, h₁⟩ := bind_eq_ok.mp h
    by_cases hnull : kind = .null
    · subst hnull
      obtain ⟨rfl, rfl⟩ := pure_eq_ok.mp h₁
      exact Retraces.emit hkind kind_codec.write
    by_cases href : kind = .objectReference
    · subst href
      obtain ⟨sequence, r₂, hshort, h₂⟩ := bind_eq_ok.mp h₁
      obtain ⟨s, r₃, hs, h₃⟩ := bind_eq_ok.mp h₂
      rw [get_apply] at hs
      cases hs
      cases hlookup : r₂.objects.lookup sequence with
      | none =>
        rw [hlookup] at h₃
        cases h₃
      | some id =>
        rw [hlookup] at h₃
        obtain ⟨rfl, rfl⟩ := pure_eq_ok.mp h₃
        exact retraces_reference hkind hshort hlookup
    · rw [Reader.takeTagged_record hnull href] at h₁
      obtain ⟨sequence, r₂, hshort, h₂⟩ := bind_eq_ok.mp h₁
      obtain ⟨line, r₃, hline, h₃⟩ := bind_eq_ok.mp h₂
      obtain ⟨id, r₄, hregister, h₄⟩ := bind_eq_ok.mp h₃
      obtain ⟨d, r₅, hdata, h₅⟩ := bind_eq_ok.mp h₄
      obtain ⟨-, rfl, rfl⟩ := Reader.register_eq_ok hregister
      obtain ⟨_, r₆, hcomplete, h₆⟩ := bind_eq_ok.mp h₅
      cases hcomplete
      obtain ⟨rfl, rfl⟩ := pure_eq_ok.mp h₆
      have hgrows := Reader.objectWithin_grows n
      have hretraces := fun depth => retraces_takeData hgrows (fun h => ih depth h) hdata
      exact retraces_record hbase hkind hshort hline (Reader.takeData_ne_pending hdata)
        (hretraces 0).1 ((Reader.takeData_grows hgrows kind).of_ok hdata).1
        fun depth => (hretraces depth).2

end

/-- Lists of pairs with the same first and the same second parts are the same. -/
theorem eq_of_map_fst_snd {α β : Type} {l l' : List (α × β)} (h : l.map (·.1) = l'.map (·.1))
    (h' : l.map (·.2) = l'.map (·.2)) : l = l' := by
  rw [← List.zip_unzip l, ← List.zip_unzip l', List.unzip_fst, List.unzip_snd, List.unzip_fst,
    List.unzip_snd, h, h']

/-- **Writing undoes reading.** A graph that has been read into an empty tree is written again in
exactly the bytes that it was read from, if its records are numbered from `base` on without a gap
and below the last number of the range. -/
theorem Writer.object_read {input : Bytes} {rule : CaseRule} {base : Int} {root : NodeId}
    {r : ReaderState}
    (hread : Reader.object { input := input, tree := { caseRule := rule } } = .ok (some root) r)
    (hsequence : r.objects.reverse.map (·.1) =
      (List.range r.objects.length).map fun k : Nat => base + k)
    (hrange : ∀ p ∈ r.objects, p.1 < maxShort) :
    ∃ w, Writer.object r.tree [] (some root) { next := base } = .ok () w ∧
      input = w.out.toList ++ r.input := by
  obtain ⟨hextends, -⟩ := Reader.object_grows.of_ok hread
  have hids : r.objects.map (·.2) = (List.range r.tree.size).reverse := by
    rw [hextends.registered, List.range_eq_range']
    exact List.append_nil _
  have hsize : r.objects.length = r.tree.size := by
    have hlength := congrArg List.length hids
    rwa [List.length_map, List.length_reverse, List.length_range] at hlength
  have hcounted : r.Counted base := by
    rw [hsize] at hsequence
    refine eq_of_map_fst_snd ?_ ?_
    · rw [← List.reverse_inj, ← List.map_reverse, hsequence, countedObjects, List.map_reverse,
        List.reverse_reverse, List.map_map]
      rfl
    · rw [hids, countedObjects, List.map_reverse, List.map_map]
      exact congrArg List.reverse (List.map_id' _).symm
  have hbase : ∀ n < r.tree.size, base + (n : Int) < maxShort := by
    intro n hn
    refine hrange (base + n, n) ?_
    rw [hcounted]
    exact mem_countedObjects.mpr ⟨hn, rfl⟩
  obtain ⟨bs, hinput, hput⟩ := retraces_objectWithin hbase _ r.tree.size hread hcounted
    (fun i _ _ => rfl) (Nat.le_refl _) (Nat.le_add_right _ _)
  have hstart : ({ next := base } : WriterState) = .counted base {} 0 := by
    simp [WriterState.counted]
  rw [hstart]
  refine ⟨_, hput {}, hinput.trans ?_⟩
  simp [WriterState.counted]

/-- The class `A` on line 3 with an attribute `x` that refers back to it; its two records have the
numbers 5 and 6. -/
def classBytes : Bytes :=
  [3, 0, 5, 0, 3, 0, 2, 0, 65, 0, 0, 0, 0, 0, 0, 0, 0, 0, 0, 0, 0, 0, 1, 6, 0, 6, 0, 4, 0, 2, 0,
    120, 3, 1, 0, 5, 0, 0, 0, 0, 0, 0]

/-- The class is written again in its bytes; two bytes behind it are left. -/
theorem object_read_classBytes :
    ∃ r, Reader.object { input := classBytes ++ [7, 7], tree := {} } = .ok (some 0) r ∧
      r.objects.reverse.map (·.1) =
        (List.range r.objects.length).map (fun k : Nat => 5 + (k : Int)) ∧
      (∀ p ∈ r.objects, p.1 < maxShort) ∧
      ∃ w, Writer.object r.tree [] (some 0) { next := 5 } = .ok () w ∧
        classBytes ++ [7, 7] = w.out.toList ++ r.input := by
  have hsucceeds : succeedsWith Reader.object { input := classBytes ++ [7, 7], tree := {} }
      (fun root r => root = some 0 ∧ r.objects.reverse.map (·.1) =
        (List.range r.objects.length).map (fun k : Nat => 5 + (k : Int)) ∧
        ∀ p ∈ r.objects, p.1 < maxShort) = true := by decide +kernel
  obtain ⟨root, r, hread, htest⟩ := exists_of_succeedsWith hsucceeds
  obtain ⟨rfl, hsequence, hrange⟩ := of_decide_eq_true htest
  exact ⟨r, hread, hsequence, hrange, Writer.object_read hread hsequence hrange⟩

end Simula
