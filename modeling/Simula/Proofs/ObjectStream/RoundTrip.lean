import Mathlib.Data.Set.Function
import Simula.Proofs.ObjectStream.Objects

/-!
# Graphs survive the object stream

A graph that has been written is read back, node by node and link by link, if every record in it
can be read where it stands.
-/

namespace Simula

/-- Reads objects one after the other. -/
def Reader.objects : Nat → Reader (List (Option NodeId))
  | 0 => return []
  | n + 1 => do
    let l ← Reader.object
    return l :: (← Reader.objects n)

/-- Reading objects only appends nodes. -/
theorem Reader.objects_grows (n : Nat) : (Reader.objects n).Grows := by
  induction n with
  | zero => exact Reader.pure_grows _
  | succ n ih => exact Reader.object_grows.bind fun _ => ih.bind fun _ => Reader.pure_grows _

section

variable {t : Tree} {detached : List NodeId} {k : Copying t detached}

/-- Objects one after the other are written and read in step. -/
theorem objects_transcribes (depth : Nat) (seen : List Opening) (links : List (Option NodeId)) :
    Transcribes k depth []
      (∀ o ∈ openAll (t.openFrom detached t.size []) seen (links.filterMap id),
        o.Readable t detached) seen
      (openAll (t.openFrom detached t.size []) seen (links.filterMap id))
      (Writer.objects t detached links) (Reader.objects links.length)
      (links.map (copiedLink detached k.copy)) := by
  induction links generalizing seen with
  | nil => exact (Transcribes.pure []).congr (by simp [openAll])
  | cons l links ih =>
    have hfirst := @wholeObject_transcribes t detached k depth seen l
    have hlinks : (l :: links).filterMap id = l.toList ++ links.filterMap id := by
      cases l <;> rfl
    rw [hlinks, openAll_append, List.forall_mem_append]
    exact hfirst.bind ((ih _).map (copiedLink detached k.copy l :: ·))

end

/-- Copies that follow each other from a first place on are in bijection with their originals. -/
theorem bijOn_of_placed {seen : List Opening} {copy : NodeId → NodeId} {first : Nat}
    (h : seen.map (fun o => copy o.node) = List.range' first seen.length) :
    Set.BijOn copy {id | ∃ o ∈ seen, o.node = id} {id | first ≤ id ∧ id < first + seen.length} := by
  have hmem : ∀ id, (∃ o ∈ seen, copy o.node = id) ↔ first ≤ id ∧ id < first + seen.length := by
    intro id
    rw [← List.mem_range'_1, ← h, List.mem_map]
  refine ⟨?_, ?_, ?_⟩
  · rintro id ⟨o, ho, rfl⟩
    exact (hmem _).mp ⟨o, ho, rfl⟩
  · rintro id ⟨o, ho, rfl⟩ id' ⟨o', ho', rfl⟩ heq
    have hnodup : (seen.map fun o => copy o.node).Nodup := by
      rw [h]
      exact List.nodup_range'
    exact congrArg Opening.node (List.inj_on_of_nodup_map hnodup ho ho' heq)
  · intro id hid
    obtain ⟨o, ho, hcopy⟩ := (hmem id).mpr hid
    exact ⟨o.node, ⟨o, ho, rfl⟩, hcopy⟩

/-- **Round trip.** A written graph in which every record can be read where it stands is read
back into any tree with the same case rule. The reader takes as many objects and all bytes, and
appends one copy of every node written in full, with its line, its scalar fields and its links;
it leaves the nodes that were there alone. -/
theorem Reader.objects_written {t target : Tree} {detached : List NodeId}
    {roots : List (Option NodeId)} {base : Int} {w : WriterState}
    (hwrite : Writer.objects t detached roots { next := base } = .ok () w)
    (hreadable : ∀ o ∈ t.openings detached roots, o.Readable t detached)
    (hnamed : ∀ o ∈ t.openings detached roots, ∀ e ∈ (t.data o.node).entries,
      t.identifier? e.2 = some e.1)
    (hrule : target.caseRule = t.caseRule) :
    (∀ id, (w.sequence? id).isSome ↔ ∃ o ∈ t.openings detached roots, o.node = id) ∧
    ∃ (copy : NodeId → NodeId) (r : ReaderState),
      Reader.objects roots.length { input := w.out.toList, tree := target } =
        .ok (roots.map (copiedLink detached copy)) r ∧
      r.input = [] ∧
      (∀ id < target.size, r.tree.nodes[id]? = target.nodes[id]?) ∧
      Set.BijOn copy {id | (w.sequence? id).isSome} {id | target.size ≤ id ∧ id < r.tree.size} ∧
      ∀ id, (w.sequence? id).isSome → ∃ node, t.nodes[id]? = some node ∧
        r.tree.nodes[copy id]? =
          some ⟨min node.line maxShort, node.data.relabel detached copy⟩ := by
  have hstart : ({ next := base } : WriterState).Numbered [] := ⟨rfl, .nil, nofun, .nil⟩
  -- The numbered nodes are the opened ones, wherever their copies will be.
  obtain ⟨hw, -⟩ :=
    @objects_transcribes t detached (.plain t detached id) 0 [] roots _ _ hstart hwrite
  rw [List.nil_append] at hw
  change w.Numbered (t.openings detached roots) at hw
  have hopened : ∀ id, (w.sequence? id).isSome ↔ ∃ o ∈ t.openings detached roots, o.node = id :=
    fun id => hw.isSome_sequence?.trans List.mem_map
  refine ⟨hopened, ?_⟩
  -- The copies follow the target tree in the order of the openings.
  let copy := fun id => target.size + ((t.openings detached roots).map (·.node)).idxOf id
  have hplaced : (t.openings detached roots).map (fun o => copy o.node) =
      List.range' target.size (t.openings detached roots).length := by
    have hrange := map_idxOf_eq_range' hw.once target.size
    rwa [List.map_map, List.length_map] at hrange
  obtain ⟨-, bs, hout, hread⟩ :=
    @objects_transcribes t detached (.plain t detached copy) w.out.toList.length [] roots _ _ hstart hwrite
  have hbytes : w.out.toList = bs := by rw [hout]; simp
  have haligned : ({ input := w.out.toList, tree := target } : ReaderState).Aligned
      (.plain t detached copy) [] [] [] := ⟨hrule, rfl, nofun, .nil, nofun, nofun, nofun⟩
  obtain ⟨r, hobjects, hinput, hsize, hr⟩ := (@hread _ [] haligned
    (by rw [List.append_nil]; exact hbytes) (by simp [← hbytes])
    ⟨hplaced, fun _ _ => rfl⟩).1 hreadable
  obtain ⟨hextends, hfills⟩ := (objects_grows roots.length).of_ok hobjects
  have hbij : Set.BijOn copy {id | (w.sequence? id).isSome}
      {id | target.size ≤ id ∧ id < r.tree.size} := by
    simp only [hopened, hsize]
    exact bijOn_of_placed hplaced
  refine ⟨copy, r, hobjects, hinput, hextends.old, hbij, fun id hid => ?_⟩
  obtain ⟨hge, hlt⟩ := hbij.mapsTo hid
  obtain ⟨o, ho, rfl⟩ := (hopened id).mp hid
  have hcopied : r.tree.nodes[copy o.node]? = some (t.copiedNode detached copy o.node) :=
    hr.complete o ho nofun
  -- A complete copy has content, and so its original has.
  have hdata : t.data o.node ≠ .pending := by
    intro hpending
    refine hfills (copy o.node) hge hlt ?_
    rw [Tree.data_of_node hcopied, Tree.copiedNode, hpending]
    rfl
  refine ⟨_, Tree.node_eq (Tree.lt_of_data hdata), ?_⟩
  rw [hcopied, Tree.copiedNode, NodeData.named_eq (hnamed o ho)]

/-- A class `A` in a block, with a class `B` inside that is prefixed by it. The attribute `x` of
`A` is protected by `A` and hidden by `B`, so the two specifications refer to each other. -/
def crossedClasses : Tree where
  nodes := #[
    ⟨40000, .declaration "A" (some 6) (.classDeclaration
      { guarded := #[2], body := { declarations := ⟨#[("x", 1), ("B", 3)]⟩ } })⟩,
    ⟨2, .declaration "x" (some 0) (.simpleVariable .integer (some 5))⟩,
    ⟨3, .declaration "x" (some 0) (.protectedSpec (some 4))⟩,
    ⟨4, .declaration "B" (some 0) (.classDeclaration
      { prefixName := some "A", prefixClass := some 0, hidden := #[4] })⟩,
    ⟨5, .declaration "x" (some 3) (.hiddenSpec (some 2))⟩,
    ⟨2, .expression (.constant (.integer 70000)) .integer⟩,
    ⟨1, .declaration "main" none (.block { declarations := ⟨#[("A", 0)]⟩ })⟩]

/-- The crossed classes survive, but for the block around them, which is detached. -/
theorem objects_written_crossedClasses :
    ∃ w, Writer.objects crossedClasses [6] [some 0, none, some 3] { next := 100 } = .ok () w ∧
      (∀ o ∈ crossedClasses.openings [6] [some 0, none, some 3], o.Readable crossedClasses [6]) ∧
      ∃ (copy : NodeId → NodeId) (r : ReaderState),
        Reader.objects 3 { input := w.out.toList, tree := {} } =
          .ok [some (copy 0), none, some (copy 3)] r ∧ r.input = [] ∧
        ∃ node, crossedClasses.nodes[0]? = some node ∧
          r.tree.nodes[copy 0]? = some ⟨min node.line maxShort, node.data.relabel [6] copy⟩ := by
  have hreadable : ∀ o ∈ crossedClasses.openings [6] [some 0, none, some 3],
      o.Readable crossedClasses [6] := by decide +kernel
  have hnamed : ∀ o ∈ crossedClasses.openings [6] [some 0, none, some 3],
      ∀ e ∈ (crossedClasses.data o.node).entries, crossedClasses.identifier? e.2 = some e.1 := by
    decide +kernel
  have hsucceeds : succeedsWith (Writer.objects crossedClasses [6] [some 0, none, some 3])
      { next := 100 } (fun _ _ => true) = true := by decide +kernel
  obtain ⟨_, w, hw, -⟩ := exists_of_succeedsWith hsucceeds
  have hrule : ({} : Tree).caseRule = crossedClasses.caseRule := rfl
  obtain ⟨hopened, copy, r, hobjects, hinput, -, -, hnodes⟩ :=
    Reader.objects_written hw hreadable hnamed hrule
  have hroot : (w.sequence? 0).isSome := (hopened 0).mpr (by decide +kernel)
  exact ⟨w, hw, hreadable, copy, r, hobjects, hinput, hnodes 0 hroot⟩

end Simula
