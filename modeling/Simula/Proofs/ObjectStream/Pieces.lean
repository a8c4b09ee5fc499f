import Simula.Proofs.ObjectStream.Objects

/-!
# The pieces of an object stream

A stream is made of four kinds of pieces: values stored in place, marks for absent objects,
references, and the heads of records. What a record holds behind its head is given by the parts of
its node. `Tree.Spells` says which pieces a list of parts may be written as. It leaves open where a
node is written in full, which is a matter of the numbers: a node without a number gets the next one
with its record, and a reference is to a number given out before.

Whatever a writer appends is spelled by the parts that it has to write, and counted so.
-/

namespace Simula

/-- What a record holds behind its head: values and objects. -/
inductive Part
  | value (s : Scalar) (v : s.Value)
  | link (l : Option NodeId)

/-- The parts of a field. A list is stored behind its length. -/
def Shape.parts : (s : Shape) → s.Value → List Part
  | .scalar s, v => [.value s v]
  | .link, l => [.link l]
  | .child _, id => [.link (some id)]
  | .children _, ids => .value .count ids.length :: ids.map (.link ∘ some)
  | .declarations, l => .value .count l.nodes.length :: l.nodes.map (.link ∘ some)

/-- The parts of the fields of a record, in order. -/
def Payload.parts : (ss : List Shape) → Payload ss → List Part
  | [], _ => []
  | s :: ss, (v, vs) => s.parts v ++ parts ss vs

/-- The parts of the record of a node. -/
def NodeData.parts (d : NodeData) : List Part :=
  match d.kind.layout? with
  | none => []
  | some layout => ((layout.fields d).map (Payload.parts layout.shapes)).getD []

/-- The parts of a node are those of its fields. -/
theorem NodeData.parts_eq {d : NodeData} {layout : Layout} {p : Payload layout.shapes}
    (hl : d.kind.layout? = some layout) (hp : layout.fields d = some p) :
    d.parts = Payload.parts layout.shapes p := by
  rw [parts, hl]
  simp only [hp, Option.map_some, Option.getD_some]

/-- The objects among the parts of a field are those that it is linked to. -/
theorem Shape.link_mem_parts {s : Shape} {v : s.Value} {id : NodeId} :
    .link (some id) ∈ s.parts v ↔ id ∈ s.links v := by
  cases s <;> simp [parts, links, eq_comm]

/-- The objects among the parts of a record are its links. -/
theorem Payload.link_mem_parts {ss : List Shape} {p : Payload ss} {id : NodeId} :
    .link (some id) ∈ parts ss p ↔ id ∈ links ss p := by
  induction ss with
  | nil => simp [parts, links]
  | cons s ss ih =>
    obtain ⟨v, vs⟩ := p
    rw [parts, links, List.mem_append, List.mem_append, Shape.link_mem_parts, ih]

/-- The objects among the parts of a node are its links. -/
theorem NodeData.link_mem_parts {d : NodeData} {id : NodeId} :
    .link (some id) ∈ d.parts ↔ id ∈ d.links := by
  cases hlayout : d.kind.layout? with
  | none => simp [parts, links, hlayout]
  | some layout =>
    cases hfields : layout.fields d with
    | none => simp [parts, links, hlayout, hfields]
    | some p =>
      rw [parts_eq hlayout hfields, links_eq hlayout hfields]
      exact Payload.link_mem_parts

/-! ## Pieces -/

/-- A piece of a stream. -/
inductive Piece
  /-- A value stored in place. -/
  | value (bytes : Bytes)
  /-- The mark of an absent object. -/
  | absent
  /-- A reference to the record of a node. -/
  | reference (id : NodeId) (sequence : Int)
  /-- The head of the record of a node. -/
  | record (id : NodeId) (sequence : Int)
  deriving DecidableEq, Repr

/-- A number in two bytes. -/
def shortBytes (n : Int) : Bytes := Bytes.ofNat 2 (n % 65536).toNat

namespace Piece

/-- The bytes of a piece: tags, numbers, and for a record the line of its node. -/
def bytes (t : Tree) : Piece → Bytes
  | value bs => bs
  | absent => [UInt8.ofNat Kind.null.tag]
  | reference _ n => UInt8.ofNat Kind.objectReference.tag :: shortBytes n
  | record id n =>
    UInt8.ofNat (t.kind id).tag :: (shortBytes n ++ shortBytes (min (t.line id) maxShort : Nat))

/-- The node and the number of a record. -/
def record? : Piece → Option (NodeId × Int)
  | record id n => some (id, n)
  | _ => none

/-- The records that start in some pieces, in order. -/
def records (ps : List Piece) : List (NodeId × Int) := ps.filterMap record?

/-- Without pieces there are no records. -/
@[simp] theorem records_nil : records [] = [] := rfl

/-- A record is counted first. -/
@[simp] theorem records_record (id : NodeId) (n : Int) (ps : List Piece) :
    records (.record id n :: ps) = (id, n) :: records ps := rfl

/-- The records of a stream in two parts are those of both. -/
@[simp] theorem records_append (ps qs : List Piece) :
    records (ps ++ qs) = records ps ++ records qs :=
  List.filterMap_append

/-- The records are the pieces that are records. -/
theorem mem_records {ps : List Piece} {id : NodeId} {n : Int} :
    (id, n) ∈ records ps ↔ .record id n ∈ ps := by
  refine List.mem_filterMap.trans ⟨fun ⟨p, hp, hrecord⟩ => ?_, fun h => ⟨_, h, rfl⟩⟩
  cases p with
  | record => cases hrecord; exact hp
  | _ => cases hrecord

/-- With the numbers known before and the next one to give out: every record is that of a node
without a number and has the next number, and every reference is to a node with its number. -/
def Counts : List (NodeId × Int) → Int → List Piece → Prop
  | _, _, [] => True
  | known, next, record id n :: ps =>
    id ∉ known.map (·.1) ∧ n = next ∧ Counts ((id, n) :: known) (next + 1) ps
  | known, next, reference id n :: ps => (id, n) ∈ known ∧ Counts known next ps
  | known, next, value _ :: ps | known, next, absent :: ps => Counts known next ps

/-- A stream counts right in two parts if the second goes on with the numbers of the first. -/
theorem Counts.append {known : List (NodeId × Int)} {next : Int} {ps qs : List Piece}
    (h : Counts known next ps)
    (h' : Counts ((records ps).reverse ++ known) (next + (records ps).length) qs) :
    Counts known next (ps ++ qs) := by
  induction ps generalizing known next with
  | nil =>
    rw [records_nil, List.length_nil] at h'
    simpa using h'
  | cons p ps ih =>
    cases p with
    | value bs => exact ih h h'
    | absent => exact ih h h'
    | reference id n => exact ⟨h.1, ih h.2 h'⟩
    | record id n =>
      refine ⟨h.1, h.2.1, ih h.2.2 ?_⟩
      rw [records_record, List.reverse_cons, List.append_assoc, List.length_cons] at h'
      have hnext : next + ((records ps).length + 1 : Nat) = next + 1 + (records ps).length := by
        omega
      rwa [hnext] at h'

end Piece

/-- What the parts may be written as. An object that is absent or detached is written as a mark, and
any other as a reference or as its record with the parts of its node. -/
inductive Tree.Spells (t : Tree) (detached : List NodeId) : List Part → List Piece → Prop
  | nil : Spells t detached [] []
  | value {s : Scalar} {v : s.Value} {bs : Bytes} {parts : List Part} {ps : List Piece}
    (hvalue : (s.put v).Appends bs) (hrest : Spells t detached parts ps) :
    Spells t detached (.value s v :: parts) (.value bs :: ps)
  | absent {parts : List Part} {ps : List Piece} (hrest : Spells t detached parts ps) :
    Spells t detached (.link none :: parts) (.absent :: ps)
  | detached {id : NodeId} {parts : List Part} {ps : List Piece} (hid : id ∈ detached)
    (hrest : Spells t detached parts ps) :
    Spells t detached (.link (some id) :: parts) (.absent :: ps)
  | reference {id : NodeId} {n : Int} {parts : List Part} {ps : List Piece} (hid : id ∉ detached)
    (hrest : Spells t detached parts ps) :
    Spells t detached (.link (some id) :: parts) (.reference id n :: ps)
  | record {id : NodeId} {n : Int} {parts : List Part} {inner ps : List Piece}
    (hid : id ∉ detached) (hinner : Spells t detached (t.data id).parts inner)
    (hrest : Spells t detached parts ps) :
    Spells t detached (.link (some id) :: parts) (.record id n :: (inner ++ ps))

/-- Parts that are written one after the other are spelled by both spellings. -/
theorem Tree.Spells.append {t : Tree} {detached : List NodeId} {parts parts' : List Part}
    {ps ps' : List Piece} (h : t.Spells detached parts ps) (h' : t.Spells detached parts' ps') :
    t.Spells detached (parts ++ parts') (ps ++ ps') := by
  induction h with
  | nil => exact h'
  | value hvalue _ ih => exact .value hvalue ih
  | absent _ ih => exact .absent ih
  | detached hid _ ih => exact .detached hid ih
  | reference hid _ ih => exact .reference hid ih
  | record hid hinner _ _ ih =>
    rw [List.cons_append, List.cons_append, List.append_assoc]
    exact .record hid hinner ih

/-! ## The writer -/

/-- The second state comes from the first by appending the pieces and counting their records. -/
structure WriterState.Continues (t : Tree) (w : WriterState) (ps : List Piece) (w' : WriterState) :
    Prop where
  out : w'.out = w.out ++ ps.flatMap (Piece.bytes t)
  numbers : w'.numbers = (Piece.records ps).reverse ++ w.numbers
  next : w'.next = w.next + (Piece.records ps).length
  /-- The last number of the range is not given out. -/
  next_le : w.next ≤ maxShort → w'.next ≤ maxShort
  counts : Piece.Counts w.numbers w.next ps

namespace WriterState.Continues

variable {t : Tree} {w w₁ w₂ : WriterState} {ps qs : List Piece}

/-- Nothing is appended by doing nothing. -/
theorem refl (w : WriterState) : w.Continues t [] w where
  out := w.out.append_nil.symm
  numbers := rfl
  next := (Int.add_zero _).symm
  next_le := id
  counts := trivial

/-- Pieces are appended one after the other. -/
theorem append (h : w.Continues t ps w₁) (h' : w₁.Continues t qs w₂) :
    w.Continues t (ps ++ qs) w₂ where
  out := by rw [h'.out, h.out, List.flatMap_append, Output.append_append]
  numbers := by
    rw [h'.numbers, h.numbers, Piece.records_append, List.reverse_append, List.append_assoc]
  next := by
    rw [h'.next, h.next, Piece.records_append, List.length_append]
    omega
  next_le hle := h'.next_le (h.next_le hle)
  counts := h.counts.append (h.numbers ▸ h.next ▸ h'.counts)

/-- A piece that is no record adds its bytes. -/
theorem piece {p : Piece} (hrecord : p.record? = none)
    (hcounts : Piece.Counts w.numbers w.next [p]) :
    w.Continues t [p] { w with out := w.out ++ p.bytes t } where
  out := by rw [List.flatMap_cons, List.flatMap_nil, List.append_nil]
  numbers := by
    rw [Piece.records, List.filterMap_cons_none hrecord]
    rfl
  next := by
    rw [Piece.records, List.filterMap_cons_none hrecord]
    exact (Int.add_zero _).symm
  next_le := id
  counts := hcounts

end WriterState.Continues

namespace Writer

variable {t : Tree} {detached : List NodeId}

/-- What the action appends spells the parts. -/
def Writes (t : Tree) (detached : List NodeId) (parts : List Part) (put : Writer Unit) : Prop :=
  ∀ ⦃w w'⦄, put w = .ok () w' → ∃ ps, t.Spells detached parts ps ∧ w.Continues t ps w'

namespace Writes

/-- Doing nothing writes no parts. -/
theorem nil : Writes t detached [] (pure ()) := by
  rintro w w' h
  obtain ⟨-, rfl⟩ := pure_eq_ok.mp h
  exact ⟨[], .nil, .refl w⟩

/-- Two actions write the parts of both. -/
theorem append {parts parts' : List Part} {x y : Writer Unit} (hx : Writes t detached parts x)
    (hy : Writes t detached parts' y) : Writes t detached (parts ++ parts') (do x; y) := by
  rintro w w' h
  obtain ⟨_, w₁, h₁, h₂⟩ := bind_eq_ok.mp h
  obtain ⟨ps, hps, hw⟩ := hx h₁
  obtain ⟨qs, hqs, hw₁⟩ := hy h₂
  exact ⟨ps ++ qs, hps.append hqs, hw.append hw₁⟩

/-- A value is written as its bytes. -/
theorem value (s : Scalar) (v : s.Value) : Writes t detached [.value s v] (emit (s.put v)) := by
  rintro w w' h
  obtain ⟨out, hout, rfl⟩ := emit_eq_ok h
  obtain ⟨bs, hbs, -⟩ := Scalar.read_put hout
  rw [hbs.eq hout]
  exact ⟨[.value bs], .value hbs .nil, .piece rfl trivial⟩

end Writes

section

variable {writeLink : Option NodeId → Writer Unit}
  (hlink : ∀ l, Writes t detached [.link l] (writeLink l))
include hlink

/-- A list of objects is written object by object. -/
theorem putObjects_writes (ids : List NodeId) :
    Writes t detached (ids.map (.link ∘ some)) (putObjects writeLink ids) := by
  induction ids with
  | nil => exact .nil
  | cons id ids ih => exact (hlink (some id)).append ih

/-- A field is written as its parts. -/
theorem putField_writes : ∀ (s : Shape) (v : s.Value),
    Writes t detached (s.parts v) (putField writeLink s v)
  | .scalar s, v => .value s v
  | .link, l => hlink l
  | .child _, id => hlink (some id)
  | .children _, ids => (Writes.value .count ids.length).append (putObjects_writes hlink ids)
  | .declarations, l =>
    (Writes.value .count l.nodes.length).append (putObjects_writes hlink l.nodes)

/-- The fields of a record are written as their parts. -/
theorem putPayload_writes (ss : List Shape) (p : Payload ss) :
    Writes t detached (Payload.parts ss p) (putPayload writeLink ss p) := by
  induction ss with
  | nil => exact .nil
  | cons s ss ih => exact (putField_writes hlink s p.1).append (ih p.2)

/-- The content of a node is written as its parts. -/
theorem putData_writes (d : NodeData) :
    Writes t detached d.parts (putData writeLink d.kind d) := by
  rintro w w' h
  unfold putData at h
  cases hlayout : d.kind.layout? with
  | none =>
    rw [hlayout] at h
    cases h
  | some layout =>
    cases hfields : layout.fields d with
    | none =>
      simp only [hlayout, hfields] at h
      cases h
    | some p =>
      simp only [hlayout, hfields] at h
      rw [NodeData.parts_eq hlayout hfields]
      exact putPayload_writes hlink _ p h

end

/-- A number is read from nothing but its two bytes. -/
theorem eq_shortBytes_of_short {bs : Bytes} {n : Int} (h : Decoder.short bs = .ok n []) :
    bs = shortBytes n := by
  obtain ⟨cs, hcs, happends⟩ := short_codec.write h
  rw [List.append_nil] at hcs
  have hfits := Encoder.fitsShort_of_short (happends {})
  rw [hcs]
  exact Output.append_cancel ((Encoder.short_appends hfits).eq (happends {}))

/-- So is a count. -/
theorem eq_shortBytes_of_count {bs : Bytes} {n : Nat} (h : Decoder.count bs = .ok n []) :
    bs = shortBytes n := by
  obtain ⟨m, rest, hm, hn⟩ := bind_eq_ok.mp h
  split at hn
  · next hpos =>
    obtain ⟨rfl, rfl⟩ := pure_eq_ok.mp hn
    rw [eq_shortBytes_of_short hm, Int.toNat_of_nonneg hpos]
  · cases hn

/-- A record is begun only while there is a number left. -/
theorem next_lt_of_putRecord {writeLink : Option NodeId → Writer Unit} {id : NodeId} {node : Node}
    {w w' : WriterState} (h : putRecord writeLink id node w = .ok () w') : w.next < maxShort := by
  unfold putRecord at h
  split at h
  · obtain ⟨_, _, hthrow, _⟩ := bind_eq_ok.mp h
    cases hthrow
  · obtain ⟨_, w₁, hnumber, _⟩ := bind_eq_ok.mp h
    rw [number] at hnumber
    split at hnumber
    · cases hnumber
    · next hlt => exact Int.not_le.mp hlt

/-- The record of a node without a number is its head with the parts of the node. -/
theorem putRecord_continues {writeLink : Option NodeId → Writer Unit}
    (hlink : ∀ l, Writes t detached [.link l] (writeLink l)) {id : NodeId} {node : Node}
    (hnode : t.nodes[id]? = some node) {w w' : WriterState} (hnew : w.sequence? id = none)
    (h : putRecord writeLink id node w = .ok () w') :
    ∃ inner, t.Spells detached (t.data id).parts inner ∧
      w.Continues t (.record id w.next :: inner) w' := by
  have hlt := next_lt_of_putRecord h
  obtain ⟨-, bs, cs, hbs, hcs, hdata⟩ := putRecord_eq_ok h
  obtain ⟨inner, hspells, hinner⟩ := putData_writes hlink node.data hdata
  rw [Tree.data_of_node hnode]
  refine ⟨inner, hspells, ?_⟩
  have hbs' : bs = shortBytes w.next := eq_shortBytes_of_short (by simpa using hbs [])
  have hcs' : cs = shortBytes (min node.line maxShort : Nat) :=
    eq_shortBytes_of_count (by simpa using hcs [])
  have hhead : Piece.bytes t (.record id w.next) =
      UInt8.ofNat node.data.kind.tag :: (bs ++ cs) := by
    rw [Piece.bytes, Tree.kind, Tree.data_of_node hnode, Tree.line_of_node hnode, hbs', hcs']
  constructor
  case out =>
    rw [hinner.out, List.flatMap_cons, hhead, Output.append_append]
  case numbers =>
    rw [hinner.numbers, Piece.records_record, List.reverse_cons, List.append_assoc]
    rfl
  case next =>
    rw [hinner.next, Piece.records_record, List.length_cons]
    simp only
    omega
  case next_le =>
    exact fun _ => hinner.next_le (Int.add_one_le_iff.mpr hlt)
  case counts =>
    refine ⟨fun hmem => ?_, rfl, hinner.counts⟩
    obtain ⟨p, hp, rfl⟩ := List.mem_map.mp hmem
    exact absurd (List.lookup_eq_none_iff.mp hnew p hp) (by simp)

/-- Absent objects are marked, known nodes are referred to, and others are recorded. -/
theorem putObject_writes {record : NodeId → Writer Unit}
    (hrecord : ∀ ⦃id w w'⦄, w.sequence? id = none → record id w = .ok () w' →
      ∃ inner, t.Spells detached (t.data id).parts inner ∧
        w.Continues t (.record id w.next :: inner) w')
    (l : Option NodeId) : Writes t detached [.link l] (putObject detached record l) := by
  have hmark : ∀ ⦃w w'⦄, emit (Encoder.kind .null) w = .ok () w' →
      w.Continues t [.absent] w' := by
    rintro w w' h
    rw [emit_of_appends (Encoder.kind_appends .null)] at h
    cases h
    exact .piece rfl trivial
  rintro w w' h
  cases l with
  | none => exact ⟨_, .absent .nil, hmark h⟩
  | some id =>
    by_cases hid : id ∈ detached
    · rw [putObject_of_detached hid] at h
      exact ⟨_, .detached hid .nil, hmark h⟩
    · cases hsequence : w.sequence? id with
      | some n =>
        rw [putObject_of_known hid hsequence] at h
        obtain ⟨_, w₁, htag, hnumber⟩ := bind_eq_ok.mp h
        rw [emit_of_appends (Encoder.kind_appends .objectReference)] at htag
        cases htag
        obtain ⟨out, hout, rfl⟩ := emit_eq_ok hnumber
        have hfits := Encoder.fitsShort_of_short hout
        rw [(Encoder.short_appends hfits).eq hout, Output.append_append]
        exact ⟨[.reference id n], .reference hid .nil,
          .piece rfl ⟨mem_of_lookup hsequence, trivial⟩⟩
      | none =>
        rw [putObject_of_new hid hsequence] at h
        obtain ⟨inner, hspells, hinner⟩ := hrecord hsequence h
        have hps : Piece.record id w.next :: inner = .record id w.next :: (inner ++ []) := by
          rw [List.append_nil]
        exact ⟨_, hps ▸ .record hid hspells .nil, hinner⟩

/-- The record of a node with any number of records open inside it. -/
theorem record_continues (depth : Nat) : ∀ ⦃id w w'⦄, w.sequence? id = none →
    record t detached depth id w = .ok () w' →
    ∃ inner, t.Spells detached (t.data id).parts inner ∧
      w.Continues t (.record id w.next :: inner) w' := by
  induction depth with
  | zero => rintro id w w' - ⟨⟩
  | succ depth ih =>
    intro id w w' hnew h
    rw [record] at h
    cases hnode : t.nodes[id]? with
    | none =>
      rw [hnode] at h
      cases h
    | some node =>
      rw [hnode] at h
      exact putRecord_continues (putObject_writes ih) hnode hnew h

/-- Objects one after the other are spelled by their links. -/
theorem objects_writes (roots : List (Option NodeId)) :
    Writes t detached (roots.map .link) (objects t detached roots) := by
  induction roots with
  | nil => exact .nil
  | cons l roots ih => exact (putObject_writes (record_continues t.size) l).append ih

end Writer

end Simula
