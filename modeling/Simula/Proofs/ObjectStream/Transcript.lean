import Mathlib.Data.List.Nodup
import Simula.ObjectStream.Writer
import Simula.Proofs.ObjectStream.Growth
import Simula.Proofs.ObjectStream.Openings

/-!
# Writing and reading side by side

A reader that follows a writer through the same stream keeps in step with it. The numbers that
the writer has given out are those under which the reader has registered the copies, the nodes
written in full have complete copies, and the nodes whose records are still open have pending
ones. `Transcribes` says that a writing action and a reading action keep in step, and under which
condition the reading action succeeds; it is closed under sequencing, so it passes from the
fields of a record to the record and from there to the stream.
-/

namespace Simula

/-- What is looked up is in the list. -/
theorem mem_of_lookup {α β : Type} [BEq α] [LawfulBEq α] {l : List (α × β)} {k : α} {v : β}
    (h : l.lookup k = some v) : (k, v) ∈ l := by
  obtain ⟨l₁, l₂, rfl, -⟩ := List.lookup_eq_some_iff.mp h
  simp

/-- With keys that differ, what is in the list is looked up. -/
theorem lookup_of_mem {α β : Type} [BEq α] [LawfulBEq α] {l : List (α × β)} {k : α} {v : β}
    (hl : (l.map (·.1)).Nodup) (h : (k, v) ∈ l) : l.lookup k = some v := by
  obtain ⟨l₁, l₂, rfl⟩ := List.append_of_mem h
  refine List.lookup_eq_some_iff.mpr ⟨l₁, l₂, rfl, fun p hp => ?_⟩
  rw [List.map_append, List.nodup_append] at hl
  have hne := hl.2.2 p.1 (List.mem_map_of_mem hp) k (by simp)
  exact bne_iff_ne.mpr (Ne.symm hne)

/-- A key that is not in the list is not found. -/
theorem lookup_eq_none_of_notMem {α β : Type} [BEq α] [LawfulBEq α] {l : List (α × β)} {k : α}
    (h : k ∉ l.map (·.1)) : l.lookup k = none := by
  refine List.lookup_eq_none_iff.mpr fun p hp => bne_iff_ne.mpr ?_
  rintro rfl
  exact h (List.mem_map_of_mem hp)

/-- Appending a value succeeds exactly where its encoder does. -/
theorem Writer.emit_eq_ok {e : Encoder Unit} {w w' : WriterState}
    (h : Writer.emit e w = .ok () w') :
    ∃ out, e w.out = .ok () out ∧ w' = { w with out := out } := by
  obtain ⟨out, numbers, next⟩ := w
  simp only [Writer.emit] at h
  cases he : e out with
  | ok _ out' =>
    rw [he] at h
    cases h
    exact ⟨out', rfl, rfl⟩
  | error err out' =>
    rw [he] at h
    cases h

/-- Known bytes are appended to the stream. -/
theorem Writer.emit_of_appends {e : Encoder Unit} {bs : Bytes} (h : e.Appends bs)
    (w : WriterState) : Writer.emit e w = .ok () { w with out := w.out ++ bs } := by
  obtain ⟨out, numbers, next⟩ := w
  rw [Writer.emit, h out]

/-- What has been taken was at the start of the input. -/
theorem Reader.take_eq_ok {α : Type} {d : Decoder α} {r r' : ReaderState} {a : α}
    (h : Reader.take d r = .ok a r') :
    d r.input = .ok a r'.input ∧ r'.tree = r.tree ∧ r'.objects = r.objects := by
  obtain ⟨input, tree, objects⟩ := r
  simp only [Reader.take] at h
  cases hd : d input with
  | ok b rest =>
    rw [hd] at h
    cases h
    exact ⟨rfl, rfl, rfl⟩
  | error e rest =>
    rw [hd] at h
    cases h

/-- A record that has been read: a free number, the node that it opens, and the fields of the
node. -/
theorem Reader.takeTagged_eq_ok {readLink : Reader (Option NodeId)} {kind : Kind}
    (hnull : kind ≠ .null) (href : kind ≠ .objectReference) {s s' : ReaderState} {l : Option NodeId}
    (h : Reader.takeTagged readLink kind s = .ok l s') :
    ∃ sequence line input d s₁, s.objects.lookup sequence = none ∧
      Reader.takeData readLink kind (ReaderState.opened ⟨input, s.tree, s.objects⟩ sequence line) =
        .ok d s₁ ∧ l = some s.tree.size ∧ s' = s₁.completed s.tree.size d := by
  rw [Reader.takeTagged_record hnull href] at h
  obtain ⟨sequence, ⟨input₁, tree₁, objects₁⟩, hshort, h⟩ := bind_eq_ok.mp h
  obtain ⟨line, ⟨input₂, tree₂, objects₂⟩, hline, h⟩ := bind_eq_ok.mp h
  obtain ⟨id, s₃, hregister, h⟩ := bind_eq_ok.mp h
  obtain ⟨d, s₄, hdata, h⟩ := bind_eq_ok.mp h
  obtain ⟨_, s₅, hcomplete, h⟩ := bind_eq_ok.mp h
  obtain ⟨rfl, rfl⟩ := pure_eq_ok.mp h
  cases hcomplete
  obtain ⟨-, htree₁, hobjects₁⟩ := Reader.take_eq_ok hshort
  obtain ⟨-, htree₂, hobjects₂⟩ := Reader.take_eq_ok hline
  simp only at htree₁ hobjects₁ htree₂ hobjects₂
  subst htree₁ hobjects₁ htree₂ hobjects₂
  obtain ⟨hseq, rfl, rfl⟩ := Reader.register_eq_ok hregister
  exact ⟨sequence, line, input₂, d, s₄, hseq, hdata, rfl, rfl⟩

/-- A value at the start of the input is taken from it. -/
theorem Reader.take_of_ok {α : Type} {d : Decoder α} {r : ReaderState} {a : α} {rest : Bytes}
    (h : d r.input = .ok a rest) : Reader.take d r = .ok a { r with input := rest } := by
  obtain ⟨input, tree, objects⟩ := r
  simp only at h
  rw [Reader.take, h]

/-- A value that cannot be decoded is not taken. -/
theorem Reader.take_of_error {α : Type} {d : Decoder α} {r : ReaderState} {e : Error}
    {rest : Bytes} (h : d r.input = .error e rest) :
    Reader.take d r = .error e { r with input := rest } := by
  obtain ⟨input, tree, objects⟩ := r
  simp only at h
  rw [Reader.take, h]

namespace Writer

variable {detached : List NodeId} {record : NodeId → Writer Unit} {id : NodeId}

/-- A detached node is written as absent. -/
theorem putObject_of_detached (h : id ∈ detached) :
    putObject detached record (some id) = emit (Encoder.kind .null) := by
  rw [putObject, if_pos h]

/-- A node that has a number is written as a reference to it. -/
theorem putObject_of_known {w : WriterState} {sequence : Int} (h : id ∉ detached)
    (hsequence : w.sequence? id = some sequence) :
    putObject detached record (some id) w =
      (do emit (Encoder.kind .objectReference); emit (Encoder.short sequence) : Writer Unit) w := by
  rw [putObject, if_neg h, bind_of_ok (get_apply w), hsequence]

/-- A node without a number is written as a record. -/
theorem putObject_of_new {w : WriterState} (h : id ∉ detached) (hsequence : w.sequence? id = none) :
    putObject detached record (some id) w = record id w := by
  rw [putObject, if_neg h, bind_of_ok (get_apply w), hsequence]

end Writer

/-- The writer has numbered the nodes of these openings, each with a number of its own. -/
structure WriterState.Numbered (seen : List Opening) (w : WriterState) : Prop where
  nodes : w.numbers.map (·.1) = (seen.map (·.node)).reverse
  /-- No node is opened twice. -/
  once : (seen.map (·.node)).Nodup
  below : ∀ p ∈ w.numbers, p.2 < w.next
  nodup : (w.numbers.map (·.2)).Nodup

/-- The node as it is read back. -/
def Tree.copiedNode (t : Tree) (detached : List NodeId) (copy : NodeId → NodeId) (id : NodeId) :
    Node :=
  ⟨min (t.line id) maxShort, ((t.data id).named t).relabel detached copy⟩

/-- How the nodes of a tree, but for the detached ones, are copied through a stream. -/
structure Copying (t : Tree) (detached : List NodeId) where
  /-- The copy of a node. -/
  copy : NodeId → NodeId
  /-- The copy of a node as it is in the end. -/
  finished : NodeId → Node
  identifier?_finished : ∀ id, (finished id).data.identifier? = t.identifier? id

/-- A copying that leaves the nodes as they are read. -/
def Copying.plain (t : Tree) (detached : List NodeId) (copy : NodeId → NodeId) :
    Copying t detached where
  copy := copy
  finished := t.copiedNode detached copy
  identifier?_finished _ := NodeData.identifier?_relabel t detached copy _

/-- The copies of these openings follow each other from a first place on, and stay as they are
read. -/
structure Copying.Placed {t : Tree} {detached : List NodeId} (k : Copying t detached)
    (news : List Opening) (first : Nat) : Prop where
  places : news.map (fun o => k.copy o.node) = List.range' first news.length
  finished : ∀ o ∈ news, k.finished o.node = t.copiedNode detached k.copy o.node

/-- The first of placed openings is at the first place. -/
theorem Copying.Placed.cons {t : Tree} {detached : List NodeId} {k : Copying t detached}
    {o : Opening} {news : List Opening} {first : Nat}
    (h : k.Placed (o :: news) first) :
    k.copy o.node = first ∧ k.finished o.node = t.copiedNode detached k.copy o.node ∧
      k.Placed news (first + 1) := by
  have hplaces := h.places
  rw [List.map_cons, List.length_cons, List.range'_succ, List.cons.injEq] at hplaces
  exact ⟨hplaces.1, h.finished o List.mem_cons_self, hplaces.2,
    fun o' ho' => h.finished o' (List.mem_cons_of_mem _ ho')⟩

/-- Openings in two parts are placed one part after the other. -/
theorem Copying.Placed.append {t : Tree} {detached : List NodeId} {k : Copying t detached}
    {news news' : List Opening} {first : Nat}
    (h : k.Placed (news ++ news') first) :
    k.Placed news first ∧ k.Placed news' (first + news.length) := by
  have hplaces := h.places
  rw [List.map_append, List.length_append, ← List.range'_append, Nat.one_mul] at hplaces
  obtain ⟨hplaces₁, hplaces₂⟩ := List.append_inj hplaces (by simp)
  exact ⟨⟨hplaces₁, fun o ho => h.finished o (List.mem_append_left _ ho)⟩,
    ⟨hplaces₂, fun o ho => h.finished o (List.mem_append_right _ ho)⟩⟩

/-- Numbers that differ, counted from a first place on. -/
theorem map_idxOf_eq_range' {ids : List NodeId} (h : ids.Nodup) (first : Nat) :
    ids.map (fun id => first + ids.idxOf id) = List.range' first ids.length := by
  refine List.ext_getElem (by simp) fun i hi _ => ?_
  rw [List.getElem_map, List.getElem_range', h.idxOf_getElem, Nat.one_mul]

/-- Copies of some nodes from a first place on; those of the others stay where they are. -/
def copyFrom (copy : NodeId → NodeId) (ids : List NodeId) (first : Nat) (id : NodeId) : NodeId :=
  if id ∈ ids then first + ids.idxOf id else copy id

/-- The copying that goes on with some nodes from a first place on. -/
def Copying.goOn {t : Tree} {detached : List NodeId} (k : Copying t detached) (ids : List NodeId)
    (first : Nat) : Copying t detached where
  copy := copyFrom k.copy ids first
  finished id :=
    if id ∈ ids then t.copiedNode detached (copyFrom k.copy ids first) id else k.finished id
  identifier?_finished id := by
    split
    · exact NodeData.identifier?_relabel t detached _ _
    · exact k.identifier?_finished id

/-- Where a copying goes on, the copies follow each other. -/
theorem Copying.goOn_placed {t : Tree} {detached : List NodeId} (k : Copying t detached)
    {news : List Opening} (hnews : (news.map (·.node)).Nodup) (first : Nat) :
    (k.goOn (news.map (·.node)) first).Placed news first where
  places := by
    rw [← List.length_map (·.node), ← map_idxOf_eq_range' hnews first, List.map_map]
    refine List.map_congr_left fun o ho => ?_
    exact if_pos (List.mem_map_of_mem ho)
  finished o ho := if_pos (List.mem_map_of_mem ho)

/-- The reader has copied the nodes of these openings, but for the content of the opened ones. -/
structure ReaderState.Aligned {t : Tree} {detached : List NodeId} (k : Copying t detached)
    (opened : List NodeId) (seen : List Opening) (numbers : List (NodeId × Int))
    (r : ReaderState) : Prop where
  caseRule : r.tree.caseRule = t.caseRule
  /-- Copies are registered under the numbers of their originals. -/
  objects : r.objects = numbers.map fun p => (p.2, k.copy p.1)
  bound : ∀ o ∈ seen, k.copy o.node < r.tree.size
  /-- Different nodes have different copies. -/
  nodup : (seen.map fun o => k.copy o.node).Nodup
  complete : ∀ o ∈ seen, o.node ∉ opened →
    r.tree.nodes[k.copy o.node]? = some (k.finished o.node)
  pending : ∀ id ∈ opened,
    r.tree.nodes[k.copy id]? = some ⟨min (t.line id) maxShort, .pending⟩
  opened_subset : ∀ id ∈ opened, id ∈ seen.map (·.node)

section

variable {t : Tree} {detached : List NodeId} {k : Copying t detached} {opened : List NodeId}
variable {seen : List Opening} {numbers : List (NodeId × Int)} {r : ReaderState}

namespace ReaderState.Aligned

/-- Being in step does not depend on the input that is left. -/
theorem setInput (h : r.Aligned k opened seen numbers) (input : Bytes) :
    ({ r with input := input } : ReaderState).Aligned k opened seen numbers :=
  ⟨h.caseRule, h.objects, h.bound, h.nodup, h.complete, h.pending, h.opened_subset⟩

/-- Different nodes have different copies. -/
theorem copy_injective (h : r.Aligned k opened seen numbers) {o o' : Opening}
    (ho : o ∈ seen) (ho' : o' ∈ seen) (heq : k.copy o.node = k.copy o'.node) : o = o' :=
  List.inj_on_of_nodup_map h.nodup ho ho' heq

/-- Between two records a reader stays in step if its tree only grows and the copies become what
they are to be, even if the copying changes for other nodes. -/
theorem transfer {k' : Copying t detached} {w : WriterState} {r' : ReaderState}
    (h : r.Aligned k [] seen w.numbers) (hw : w.Numbered seen)
    (hcopy : ∀ o ∈ seen, k'.copy o.node = k.copy o.node) (hobjects : r'.objects = r.objects)
    (hrule : r'.tree.caseRule = r.tree.caseRule) (hsize : r.tree.size ≤ r'.tree.size)
    (hcomplete : ∀ o ∈ seen, r'.tree.nodes[k.copy o.node]? = some (k'.finished o.node)) :
    r'.Aligned k' [] seen w.numbers where
  caseRule := hrule.trans h.caseRule
  objects := by
    rw [hobjects, h.objects]
    refine List.map_congr_left fun p hp => ?_
    have hmem : p.1 ∈ seen.map (·.node) := by
      rw [← List.mem_reverse, ← hw.nodes]
      exact List.mem_map_of_mem hp
    obtain ⟨o, ho, heq⟩ := List.mem_map.mp hmem
    rw [← heq, hcopy o ho]
  bound o ho := by
    rw [hcopy o ho]
    exact Nat.lt_of_lt_of_le (h.bound o ho) hsize
  nodup := by
    rw [List.map_congr_left hcopy]
    exact h.nodup
  complete o ho _ := by
    rw [hcopy o ho]
    exact hcomplete o ho
  pending := nofun
  opened_subset := nofun

/-- A reader stays in step with a copying that goes on with nodes that have not been read. -/
theorem goOn {w : WriterState} (h : r.Aligned k [] seen w.numbers) (hw : w.Numbered seen)
    {ids : List NodeId} (hnew : ∀ o ∈ seen, o.node ∉ ids) (first : Nat) :
    r.Aligned (k.goOn ids first) [] seen w.numbers := by
  refine h.transfer hw (fun o ho => if_neg (hnew o ho)) rfl rfl (Nat.le_refl _) fun o ho => ?_
  rw [h.complete o ho nofun]
  exact congrArg some (if_neg (hnew o ho)).symm

/-- Beginning the record of the next node keeps in step. -/
theorem begin (h : r.Aligned k opened seen numbers) {id : NodeId}
    (hid : k.copy id = r.tree.size) (sequence : Int) :
    (r.opened sequence (min (t.line id) maxShort)).Aligned k (id :: opened)
      (seen ++ [⟨id, opened⟩]) ((id, sequence) :: numbers) where
  caseRule := h.caseRule
  objects := by rw [ReaderState.opened, h.objects, List.map_cons, hid]
  bound := by
    have hsize : (r.opened sequence (min (t.line id) maxShort)).tree.size = r.tree.size + 1 :=
      Tree.size_push ..
    intro o ho
    rw [hsize]
    rcases List.mem_append.mp ho with ho | ho
    · exact Nat.lt_succ_of_lt (h.bound o ho)
    · rw [List.mem_singleton.mp ho, hid]
      exact Nat.lt_succ_self _
  nodup := by
    rw [List.map_append, List.nodup_append]
    refine ⟨h.nodup, List.nodup_singleton _, ?_⟩
    intro c hc c' hc' heq
    obtain ⟨o, ho, rfl⟩ := List.mem_map.mp hc
    have hc : k.copy id = c' := (List.mem_singleton.mp hc').symm
    have hlt := h.bound o ho
    rw [heq, ← hc, hid] at hlt
    exact Nat.lt_irrefl _ hlt
  complete := by
    intro o ho hopen
    rcases List.mem_append.mp ho with ho | ho
    · rw [ReaderState.opened, Tree.nodes_push_of_lt _ (h.bound o ho)]
      exact h.complete o ho fun hmem => hopen (List.mem_cons_of_mem _ hmem)
    · rw [List.mem_singleton.mp ho] at hopen
      exact absurd List.mem_cons_self hopen
  pending := by
    intro i hi
    by_cases heq : i = id
    · rw [heq, ReaderState.opened, hid, Tree.nodes_push, if_pos rfl]
    · have hmem : i ∈ opened := (List.mem_cons.mp hi).resolve_left heq
      have hnode := h.pending i hmem
      rw [ReaderState.opened, Tree.nodes_push_of_lt _ (Tree.lt_of_node hnode), hnode]
  opened_subset := by
    intro i hi
    rw [List.map_append]
    rcases List.mem_cons.mp hi with rfl | hi
    · exact List.mem_append_right _ (List.mem_singleton_self _)
    · exact List.mem_append_left _ (h.opened_subset i hi)

/-- Filling in the content of the innermost open node keeps in step. -/
theorem finish {id : NodeId} (h : r.Aligned k (id :: opened) seen numbers)
    (hid : id ∉ opened)
    (hfinished : k.finished id = t.copiedNode detached k.copy id) :
    (r.completed (k.copy id) (((t.data id).named t).relabel detached k.copy)).Aligned k
      opened seen numbers := by
  have hopen := h.pending id List.mem_cons_self
  obtain ⟨own, hown, rfl⟩ := List.mem_map.mp (h.opened_subset id List.mem_cons_self)
  -- No other node shares its copy with the node that is filled in.
  have hother : ∀ o ∈ seen, o.node ≠ own.node → k.copy o.node ≠ k.copy own.node :=
    fun o ho hne heq => hne (congrArg Opening.node (h.copy_injective ho hown heq))
  refine ⟨h.caseRule, h.objects, fun o ho => ?_, h.nodup, fun o ho hnot => ?_, fun i hi => ?_,
    fun i hi => h.opened_subset i (List.mem_cons_of_mem _ hi)⟩
  · rw [size_completed]
    exact h.bound o ho
  · by_cases heq : o.node = own.node
    · rw [heq, completed, Tree.setData, Tree.nodes_update, if_pos rfl, hopen, hfinished]
      rfl
    · rw [completed, Tree.nodes_setData_of_ne _ (hother o ho heq)]
      exact h.complete o ho fun hmem => (List.mem_cons.mp hmem).elim heq hnot
  · obtain ⟨o, ho, rfl⟩ := List.mem_map.mp (h.opened_subset i (List.mem_cons_of_mem _ hi))
    have hne : o.node ≠ own.node := fun heq => hid (heq ▸ hi)
    rw [completed, Tree.nodes_setData_of_ne _ (hother o ho hne)]
    exact h.pending o.node (List.mem_cons_of_mem _ hi)

/-- The identifier of a copy, which an open node does not have yet. -/
theorem identifier?_copy (h : r.Aligned k opened seen numbers) {id : NodeId}
    (hid : id ∈ seen.map (·.node)) :
    r.tree.identifier? (k.copy id) = if id ∈ opened then none else t.identifier? id := by
  obtain ⟨o, ho, rfl⟩ := List.mem_map.mp hid
  by_cases hopen : o.node ∈ opened
  · rw [if_pos hopen, Tree.identifier?, Tree.data_of_node (h.pending _ hopen)]
    rfl
  · rw [if_neg hopen, Tree.identifier?, Tree.data_of_node (h.complete o ho hopen)]
    exact k.identifier?_finished _

end ReaderState.Aligned

end

section

/-- The writing action opens the records `news` after those in `seen`. The reading action follows
it through the bytes that it appends if the condition holds, giving the value `a`, and fails
otherwise. At most `depth` bytes are followed. -/
def Transcribes {t : Tree} {detached : List NodeId} {α : Type} (k : Copying t detached)
    (depth : Nat) (opened : List NodeId) (condition : Prop) (seen news : List Opening)
    (put : Writer Unit) (take : Reader α) (a : α) : Prop :=
  ∀ ⦃w w' : WriterState⦄, w.Numbered seen → put w = .ok () w' →
    w'.Numbered (seen ++ news) ∧ ∃ bs : Bytes, w'.out = w.out ++ bs ∧
      ∀ ⦃r : ReaderState⦄ ⦃rest : Bytes⦄,
        r.Aligned k opened seen w.numbers → r.input = bs ++ rest →
        bs.length ≤ depth → k.Placed news r.tree.size →
        (condition → ∃ r', take r = .ok a r' ∧ r'.input = rest ∧
          r'.tree.size = r.tree.size + news.length ∧
          r'.Aligned k opened (seen ++ news) w'.numbers) ∧
        (¬ condition → ∃ e r', take r = .error e r')

namespace Transcribes

variable {t : Tree} {detached : List NodeId} {k : Copying t detached} {α β : Type}
variable {depth : Nat} {opened : List NodeId} {c c' : Prop}
variable {seen news news' : List Opening} {put put' : Writer Unit} {take : Reader α} {a : α}

/-- Actions one after the other keep in step. -/
theorem bind {f : α → Reader β} {b : β}
    (h : Transcribes k depth opened c seen news put take a)
    (h' : Transcribes k depth opened c' (seen ++ news) news' put' (f a) b) :
    Transcribes k depth opened (c ∧ c') seen (news ++ news') (do put; put')
      (take >>= f) b := by
  intro w w' hw hput
  obtain ⟨_, w₁, hput₁, hput₂⟩ := bind_eq_ok.mp hput
  obtain ⟨hw₁, bs, hout, hread⟩ := h hw hput₁
  obtain ⟨hw', cs, hout', hread'⟩ := h' hw₁ hput₂
  rw [← List.append_assoc]
  refine ⟨hw', bs ++ cs, by rw [hout', hout, Output.append_append], ?_⟩
  intro r rest hr hinput hlen hplaced
  rw [List.append_assoc] at hinput
  rw [List.length_append] at hlen
  obtain ⟨hplaced₁, hplaced₂⟩ := hplaced.append
  obtain ⟨hok, herr⟩ := hread hr hinput (by omega) hplaced₁
  by_cases hc : c
  · obtain ⟨r₁, htake, hinput₁, hsize₁, hr₁⟩ := hok hc
    rw [bind_of_ok htake]
    rw [← hsize₁] at hplaced₂
    obtain ⟨hok', herr'⟩ := hread' hr₁ hinput₁ (by omega) hplaced₂
    refine ⟨fun hcc => ?_, fun hcc => herr' fun hc' => hcc ⟨hc, hc'⟩⟩
    obtain ⟨r₂, htake₂, hinput₂, hsize₂, hr₂⟩ := hok' hcc.2
    exact ⟨r₂, htake₂, hinput₂, by rw [hsize₂, hsize₁, List.length_append, Nat.add_assoc], hr₂⟩
  · obtain ⟨e, r₁, htake⟩ := herr hc
    rw [bind_of_error htake]
    exact ⟨fun hcc => absurd hcc.1 hc, fun _ => ⟨e, r₁, rfl⟩⟩

/-- The condition may be said in another way. -/
theorem congr (h : Transcribes k depth opened c seen news put take a)
    (hc : c ↔ c') : Transcribes k depth opened c' seen news put take a := by
  rw [← propext hc]
  exact h

/-- What has been read may be refused, or turned into another value, by a look at the state. -/
theorem andThen {f : α → Reader β} {b : β}
    (h : Transcribes k depth opened c seen news put take a)
    (hf : c → ∀ {numbers r}, r.Aligned k opened (seen ++ news) numbers →
      (c' → f a r = .ok b r) ∧ (¬ c' → ∃ e r', f a r = .error e r')) :
    Transcribes k depth opened (c ∧ c') seen news put (take >>= f) b := by
  intro w w' hw hput
  obtain ⟨hw', bs, hout, hread⟩ := h hw hput
  refine ⟨hw', bs, hout, fun r rest hr hinput hlen hplaced => ?_⟩
  obtain ⟨hok, herr⟩ := hread hr hinput hlen hplaced
  by_cases hc : c
  · obtain ⟨r', htake, hinput', hsize, hr'⟩ := hok hc
    obtain ⟨hok', herr'⟩ := hf hc hr'
    rw [bind_of_ok htake]
    exact ⟨fun hcc => ⟨r', hok' hcc.2, hinput', hsize, hr'⟩,
      fun hcc => herr' fun hc' => hcc ⟨hc, hc'⟩⟩
  · obtain ⟨e, r', htake⟩ := herr hc
    rw [bind_of_error htake]
    exact ⟨fun hcc => absurd hcc.1 hc, fun _ => ⟨e, r', rfl⟩⟩

/-- A value computed from what is read needs nothing more. -/
theorem map (h : Transcribes k depth opened c seen news put take a) (f : α → β) :
    Transcribes k depth opened c seen news put (take >>= fun a => Pure.pure (f a))
      (f a) :=
  congr (h.andThen fun _ _ _ _ => ⟨fun _ => rfl, fun hn => absurd trivial hn⟩) (and_true _).to_iff

/-- Nothing is written and nothing is read. -/
theorem pure (a : α) :
    Transcribes k depth opened True seen [] (Pure.pure ()) (Pure.pure a) a := by
  intro w w' hw hput
  obtain ⟨-, rfl⟩ := pure_eq_ok.mp hput
  rw [List.append_nil]
  refine ⟨hw, [], by simp, fun r rest hr hinput _ _ => ⟨fun _ => ?_, fun hn => absurd trivial hn⟩⟩
  exact ⟨r, rfl, hinput, rfl, hr⟩

/-- A value stored in place is written and read without a step in the graph. -/
theorem emit {d : Decoder α} {e : Encoder Unit}
    (h : ∀ {out out'}, e out = .ok () out' → ∃ bs, e.Appends bs ∧ (c → d.Reads bs a) ∧
      (¬ c → ∀ rest, ∃ err s, d (bs ++ rest) = .error err s)) :
    Transcribes k depth opened c seen [] (Writer.emit e) (Reader.take d) a := by
  intro w w' hw hput
  obtain ⟨out, hout, rfl⟩ := Writer.emit_eq_ok hput
  obtain ⟨bs, happ, hread, hrefuse⟩ := h hout
  rw [List.append_nil]
  refine ⟨⟨hw.nodes, hw.once, hw.below, hw.nodup⟩, bs, happ.eq hout,
    fun r rest hr hinput _ _ => ⟨?_, ?_⟩⟩
  · intro hc
    have hd : d r.input = .ok a rest := by rw [hinput, hread hc]
    exact ⟨{ r with input := rest }, Reader.take_of_ok hd, rfl, rfl, hr.setInput rest⟩
  · intro hc
    obtain ⟨err, s, hd⟩ := hrefuse hc rest
    rw [← hinput] at hd
    exact ⟨err, _, Reader.take_of_error hd⟩

/-- A value with a codec is always read back. -/
theorem emit_codec {put : α → Encoder Unit} {d : Decoder α} {kept : α → α}
    (h : Codec put d kept) (a : α) :
    Transcribes k depth opened True seen [] (Writer.emit (put a)) (Reader.take d)
      (kept a) := by
  refine emit fun hout => ?_
  obtain ⟨bs, happ, hread⟩ := h.read hout
  exact ⟨bs, happ, fun _ => hread, fun hn => absurd trivial hn⟩

end Transcribes

end

end Simula
