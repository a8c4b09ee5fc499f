import Mathlib.Data.List.Perm.Subperm
import Simula.Proofs.ObjectStream.Pieces
import Simula.Proofs.ObjectStream.RoundTrip

/-!
# The numbers in an object stream

The nodes of a stream are those that can be reached from its roots through stored fields, without
passing a detached node. Each of them is recorded once, and the records have consecutive numbers in
the order in which they start. All other occurrences are references to records that have started.
Since the last number is never given out and none is given out twice, a stream that needs more
numbers than there are cannot be written.
-/

namespace Simula

/-- The nodes that are reached from the roots through the fields of records, where detached nodes
are not passed. -/
inductive Tree.Stores (t : Tree) (detached : List NodeId) (roots : List (Option NodeId)) :
    NodeId → Prop
  | root {id : NodeId} (hroot : some id ∈ roots) (hid : id ∉ detached) : Stores t detached roots id
  | link {id m : NodeId} (hid : Stores t detached roots id) (hlink : m ∈ (t.data id).links)
    (hm : m ∉ detached) : Stores t detached roots m

/-- A node occurs among the pieces, as a record or as a reference. -/
def Piece.Occurs (id : NodeId) (ps : List Piece) : Prop :=
  ∃ n, .record id n ∈ ps ∨ .reference id n ∈ ps

/-- What occurs in a part of a stream occurs in the stream. -/
theorem Piece.Occurs.mono {id : NodeId} {ps qs : List Piece} (h : Occurs id ps) (hps : ps ⊆ qs) :
    Occurs id qs := by
  obtain ⟨n, hn⟩ := h
  exact ⟨n, hn.imp (@hps _) (@hps _)⟩

namespace Piece.Counts

variable {known : List (NodeId × Int)} {next : Int} {ps : List Piece}

/-- Records are numbered one after the other. -/
theorem records_eq (h : Counts known next ps) {base : Int} {k : Nat} (hnext : next = base + k) :
    records ps = (((records ps).map (·.1)).zipIdx k).map fun e => (e.1, base + e.2) := by
  induction ps generalizing known next k with
  | nil => rfl
  | cons p ps ih =>
    cases p with
    | value bs => exact ih h hnext
    | absent => exact ih h hnext
    | reference id n => exact ih h.2 hnext
    | record id n =>
      obtain ⟨-, rfl, hrest⟩ := h
      have hnext' : n + 1 = base + (k + 1 : Nat) := by omega
      rw [records_record, List.map_cons, List.zipIdx_cons, List.map_cons, ← ih hrest hnext', hnext]

/-- No node is recorded twice, and none that has a number already. -/
theorem nodup (h : Counts known next ps) :
    ((records ps).map (·.1)).Nodup ∧
      ∀ id ∈ (records ps).map (·.1), id ∉ known.map (·.1) := by
  induction ps generalizing known next with
  | nil => exact ⟨.nil, nofun⟩
  | cons p ps ih =>
    cases p with
    | value bs => exact ih h
    | absent => exact ih h
    | reference id n => exact ih h.2
    | record id n =>
      obtain ⟨hnew, -, hrest⟩ := h
      obtain ⟨hnodup, hunknown⟩ := ih hrest
      rw [records_record, List.map_cons, List.nodup_cons, List.forall_mem_cons]
      refine ⟨⟨fun hmem => hunknown id hmem List.mem_cons_self, hnodup⟩, hnew, ?_⟩
      exact fun m hm hknown => hunknown m hm (List.mem_cons_of_mem _ hknown)

/-- A reference is to a record that has started. -/
theorem referred (h : Counts known next ps) {before after : List Piece} {id : NodeId} {n : Int}
    (hps : ps = before ++ .reference id n :: after) :
    (id, n) ∈ known ∨ .record id n ∈ before := by
  induction before generalizing known next ps with
  | nil =>
    subst hps
    exact .inl h.1
  | cons p before ih =>
    subst hps
    rw [List.mem_cons]
    cases p with
    | value _ | absent =>
      have hrest : Counts known next (before ++ .reference id n :: after) := h
      exact (ih hrest rfl).imp_right .inr
    | reference m k => exact (ih h.2 rfl).imp_right .inr
    | record m k =>
      rcases ih h.2.2 rfl with hknown | hbefore
      · rcases List.mem_cons.mp hknown with heq | hknown
        · cases heq
          exact .inr (.inl rfl)
        · exact .inl hknown
      · exact .inr (.inr hbefore)

end Piece.Counts

namespace Tree.Spells

variable {t : Tree} {detached : List NodeId} {parts : List Part} {ps : List Piece} {id : NodeId}

/-- An object that is not detached occurs. -/
theorem occurs (h : t.Spells detached parts ps) (hlink : .link (some id) ∈ parts)
    (hid : id ∉ detached) : Piece.Occurs id ps := by
  induction h with
  | nil => cases hlink
  | value _ _ ih | absent _ ih =>
    exact (ih (by simpa using hlink)).mono (List.subset_cons_self _ _)
  | detached hm _ ih =>
    rcases List.mem_cons.mp hlink with heq | hrest
    · cases heq
      exact absurd hm hid
    · exact (ih hrest).mono (List.subset_cons_self _ _)
  | reference _ _ ih =>
    rcases List.mem_cons.mp hlink with heq | hrest
    · cases heq
      exact ⟨_, .inr List.mem_cons_self⟩
    · exact (ih hrest).mono (List.subset_cons_self _ _)
  | record _ _ _ _ ih =>
    rcases List.mem_cons.mp hlink with heq | hrest
    · cases heq
      exact ⟨_, .inl List.mem_cons_self⟩
    · exact (ih hrest).mono fun p hp => List.mem_cons_of_mem _ (List.mem_append_right _ hp)

/-- The parts of a recorded node are among the pieces. -/
theorem exists_inner (h : t.Spells detached parts ps) {n : Int} (hrecord : .record id n ∈ ps) :
    ∃ inner, t.Spells detached (t.data id).parts inner ∧ inner ⊆ ps := by
  induction h with
  | nil => cases hrecord
  | value _ _ ih | absent _ ih | detached _ _ ih | reference _ _ ih =>
    obtain ⟨inner, hinner, hsubset⟩ := ih (by simpa using hrecord)
    exact ⟨inner, hinner, fun p hp => List.mem_cons_of_mem _ (hsubset hp)⟩
  | @record m k _ inner ps _ hspells _ ihinner ihrest =>
    rcases List.mem_cons.mp hrecord with heq | htail
    · cases heq
      exact ⟨inner, hspells, fun p hp => List.mem_cons_of_mem _ (List.mem_append_left _ hp)⟩
    rcases List.mem_append.mp htail with hmem | hmem
    · obtain ⟨deeper, hdeeper, hsubset⟩ := ihinner hmem
      exact ⟨deeper, hdeeper,
        fun p hp => List.mem_cons_of_mem _ (List.mem_append_left _ (hsubset hp))⟩
    · obtain ⟨later, hlater, hsubset⟩ := ihrest hmem
      exact ⟨later, hlater,
        fun p hp => List.mem_cons_of_mem _ (List.mem_append_right _ (hsubset hp))⟩

/-- Only nodes of the stream are recorded. -/
theorem stores_of_record {roots : List (Option NodeId)} (h : t.Spells detached parts ps)
    (hparts : ∀ m, .link (some m) ∈ parts → m ∉ detached → t.Stores detached roots m) {n : Int}
    (hrecord : .record id n ∈ ps) : t.Stores detached roots id := by
  induction h with
  | nil => cases hrecord
  | value _ _ ih | absent _ ih | detached _ _ ih | reference _ _ ih =>
    exact ih (fun m hm => hparts m (List.mem_cons_of_mem _ hm)) (by simpa using hrecord)
  | @record m k _ inner ps hm _ _ ihinner ihrest =>
    have hstored : t.Stores detached roots m := hparts m List.mem_cons_self hm
    rcases List.mem_cons.mp hrecord with heq | htail
    · cases heq
      exact hstored
    rcases List.mem_append.mp htail with hmem | hmem
    · exact ihinner (fun l hl hl' => .link hstored (NodeData.link_mem_parts.mp hl) hl') hmem
    · exact ihrest (fun l hl => hparts l (List.mem_cons_of_mem _ hl)) hmem

end Tree.Spells

namespace Writer

variable {t : Tree} {detached : List NodeId} {roots : List (Option NodeId)} {base : Int}

/-- The nodes of a stream are those that it records. -/
theorem exists_record_iff {ps : List Piece} (hspells : t.Spells detached (roots.map .link) ps)
    (hcounts : Piece.Counts [] base ps) (id : NodeId) :
    (∃ n, .record id n ∈ ps) ↔ t.Stores detached roots id := by
  -- Whatever occurs is recorded, since a reference is to a record.
  have recorded : ∀ {m : NodeId}, Piece.Occurs m ps → ∃ n, .record m n ∈ ps := by
    rintro m ⟨n, hrecord | hreference⟩
    · exact ⟨n, hrecord⟩
    · obtain ⟨before, after, hps⟩ := List.append_of_mem hreference
      rcases hcounts.referred hps with hknown | hbefore
      · cases hknown
      · exact ⟨n, hps ▸ List.mem_append_left _ hbefore⟩
  constructor
  · rintro ⟨n, hrecord⟩
    refine hspells.stores_of_record (fun m hm hm' => .root ?_ hm') hrecord
    simpa using hm
  · intro hstored
    induction hstored with
    | root hroot hid => exact recorded (hspells.occurs (List.mem_map_of_mem hroot) hid)
    | link _ hlink hm ih =>
      obtain ⟨n, hrecord⟩ := ih
      obtain ⟨inner, hinner, hsubset⟩ := hspells.exists_inner hrecord
      exact recorded ((hinner.occurs (NodeData.link_mem_parts.mpr hlink) hm).mono hsubset)

/-- **Numbers in order.** What has been written is spelled by its roots. The records that start in
it have the numbers from `base` on, one for each node of the stream, and a reference takes three
bytes and is to a record that has started before. With more nodes than there are numbers left the
stream cannot be written. -/
theorem objects_numbering (hbase : fitsShort base = true) :
    (∀ w, objects t detached roots { next := base } = .ok () w →
      ∃ (pieces : List Piece) (ids : List NodeId),
        t.Spells detached (roots.map .link) pieces ∧
        w.out.toList = pieces.flatMap (Piece.bytes t) ∧
        Piece.records pieces = ids.zipIdx.map (fun e => (e.1, base + e.2)) ∧
        ids.Nodup ∧
        (∀ id, id ∈ ids ↔ t.Stores detached roots id) ∧
        (∀ id n, w.sequence? id = some n ↔ .record id n ∈ pieces) ∧
        w.next = base + ids.length ∧ w.next ≤ maxShort ∧
        ∀ before id n after, pieces = before ++ .reference id n :: after →
          .record id n ∈ before ∧ (Piece.bytes t (.reference id n)).length = 3) ∧
    ∀ nodes : List NodeId, nodes.Nodup → (∀ id ∈ nodes, t.Stores detached roots id) →
      maxShort - base < nodes.length →
      ∃ e w, objects t detached roots { next := base } = .error e w := by
  have hwritten : ∀ w, objects t detached roots { next := base } = .ok () w →
      ∃ pieces, t.Spells detached (roots.map .link) pieces ∧
        ({ next := base } : WriterState).Continues t pieces w :=
    fun w hw => objects_writes roots hw
  have hle : base ≤ maxShort := ((fitsShort_iff base).mp hbase).2
  refine ⟨fun w hw => ?_, fun nodes hnodup hstored hmany => ?_⟩
  · obtain ⟨pieces, hspells, hw⟩ := hwritten w hw
    obtain ⟨hids, -⟩ := hw.counts.nodup
    have hnumbers : w.numbers = (Piece.records pieces).reverse := by
      rw [hw.numbers, List.append_nil]
    refine ⟨pieces, (Piece.records pieces).map (·.1), hspells, ?_, ?_, hids, fun id => ?_,
      fun id n => ?_, ?_, hw.next_le hle, fun before id n after hpieces => ⟨?_, rfl⟩⟩
    · simp [hw.out]
    · exact hw.counts.records_eq (Int.add_zero base).symm
    · rw [← exists_record_iff hspells hw.counts id]
      simp [Piece.mem_records]
    · have hkeys : (w.numbers.map (·.1)).Nodup := by
        rw [hnumbers, List.map_reverse]
        exact List.nodup_reverse.mpr hids
      rw [← Piece.mem_records, ← List.mem_reverse, ← hnumbers]
      exact ⟨mem_of_lookup, lookup_of_mem hkeys⟩
    · rw [hw.next, List.length_map]
    · exact (hw.counts.referred hpieces).resolve_left nofun
  · cases hrun : objects t detached roots { next := base } with
    | error e w => exact ⟨e, w, rfl⟩
    | ok u w =>
      -- The nodes would all be recorded, each with a number of its own.
      obtain ⟨pieces, hspells, hw⟩ := hwritten w hrun
      have hsubset : nodes ⊆ (Piece.records pieces).map (·.1) := by
        intro id hid
        obtain ⟨n, hn⟩ := (exists_record_iff hspells hw.counts id).mpr (hstored id hid)
        exact List.mem_map.mpr ⟨(id, n), Piece.mem_records.mpr hn, rfl⟩
      have hlength := (List.subperm_of_subset hnodup hsubset).length_le
      have hnext := hw.next
      have hnext' := hw.next_le hle
      rw [List.length_map] at hlength
      simp only at hnext
      omega

/-- In the crossed classes four nodes at least are stored, but for the block around them. -/
theorem crossedClasses_stores :
    ∀ id ∈ [0, 1, 2, 3], crossedClasses.Stores [6] [some 0, none, some 3] id := by
  have hroot : crossedClasses.Stores [6] [some 0, none, some 3] 0 := .root (by decide) (by decide)
  have hbelow : ∀ id ∈ [1, 2, 3], crossedClasses.Stores [6] [some 0, none, some 3] id := by
    intro id hid
    have hlinks : ∀ id ∈ [1, 2, 3], id ∈ (crossedClasses.data 0).links ∧ id ∉ [6] := by decide
    exact .link hroot (hlinks id hid).1 (hlinks id hid).2
  exact List.forall_mem_cons.mpr ⟨hroot, hbelow⟩

/-- The crossed classes are written from 100 on. They cannot be written from 32764 on, where only
three numbers are left. -/
theorem objects_numbering_crossedClasses :
    (∃ (w : WriterState) (pieces : List Piece) (ids : List NodeId),
      objects crossedClasses [6] [some 0, none, some 3] { next := 100 } = .ok () w ∧
      crossedClasses.Spells [6] [.link (some 0), .link none, .link (some 3)] pieces ∧
      Piece.records pieces = ids.zipIdx.map (fun e => (e.1, (100 : Int) + e.2)) ∧
      (∀ id, id ∈ ids ↔ crossedClasses.Stores [6] [some 0, none, some 3] id) ∧ w.next = 106) ∧
    ∃ e w, objects crossedClasses [6] [some 0, none, some 3] { next := 32764 } = .error e w := by
  have hsucceeds : succeedsWith (objects crossedClasses [6] [some 0, none, some 3])
      { next := 100 } (fun _ w => w.next = 106) = true := by decide +kernel
  obtain ⟨_, w, hw, hnext⟩ := exists_of_succeedsWith hsucceeds
  obtain ⟨pieces, ids, hspells, -, hrecords, -, hids, -⟩ :=
    (objects_numbering (by decide)).1 w hw
  refine ⟨⟨w, pieces, ids, hw, hspells, hrecords, hids, of_decide_eq_true hnext⟩, ?_⟩
  exact (objects_numbering (by decide)).2 [0, 1, 2, 3] (by decide) crossedClasses_stores (by decide)

end Writer

end Simula
