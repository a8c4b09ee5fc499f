import Simula.Proofs.ObjectStream.Transcript

/-!
# Fields in step

If the links of a record are written and read in step, so are its fields, and with them the content
of its node. A field is refused where a detached node must not be missing, where a module is
neither a class nor a procedure, and where declarations cannot be put into a list again.
-/

namespace Simula

open Reader (declarationList)

section

variable {t : Tree} {detached : List NodeId} {copy : NodeId → NodeId} {opened : List NodeId}

/-- Whether nodes can be declared behind the entries of a list. -/
def Tree.DeclarableBehind (t : Tree) (opened : List NodeId) (l : DeclarationList)
    (ids : List NodeId) : Prop :=
  t.Declarable opened ids ∧
    ∀ e ∈ l.entries, ∀ id ∈ ids, ∀ i ∈ t.identifier? id, t.sameIdentifier e.1 i = false

/-- A node can be declared together with others if its identifier is free and the others can be
declared behind it. -/
theorem Tree.declarableBehind_cons {id : NodeId} {i : String} (hopen : id ∉ opened)
    (hname : t.identifier? id = some i) (l : DeclarationList) (entry : NodeId)
    (ids : List NodeId) :
    t.DeclarableBehind opened l (id :: ids) ↔
      (¬ ∃ e ∈ l.entries, t.caseRule.same e.1 i = true) ∧
        t.DeclarableBehind opened ⟨l.entries.push (i, entry)⟩ ids := by
  constructor
  · rintro ⟨⟨hcomplete, hnamed, hdistinct⟩, hfree⟩
    obtain ⟨hfirst, hrest⟩ := List.pairwise_cons.mp hdistinct
    refine ⟨?_, ⟨fun k hk => hcomplete k (List.mem_cons_of_mem _ hk),
      fun k hk => hnamed k (List.mem_cons_of_mem _ hk), hrest⟩, ?_⟩
    · rintro ⟨e, he, hsame⟩
      have hdiff := hfree e he id List.mem_cons_self i hname
      rw [sameIdentifier, hsame] at hdiff
      cases hdiff
    · intro e he k hk j hj
      rcases Array.mem_push.mp he with he | rfl
      · exact hfree e he k (List.mem_cons_of_mem _ hk) j hj
      · exact hfirst k hk i hname j hj
  · rintro ⟨htaken, ⟨hcomplete, hnamed, hdistinct⟩, hfree⟩
    refine ⟨⟨List.forall_mem_cons.mpr ⟨hopen, hcomplete⟩,
      List.forall_mem_cons.mpr ⟨by rw [hname]; rfl, hnamed⟩,
      List.pairwise_cons.mpr ⟨fun k hk i' hi' j hj => ?_, hdistinct⟩⟩, fun e he => ?_⟩
    · obtain rfl : i = i' := Option.some.inj (hname.symm.trans hi')
      exact hfree (i, entry) Array.mem_push_self k hk j hj
    · refine List.forall_mem_cons.mpr ⟨fun j hj => ?_, fun k hk j hj => ?_⟩
      · obtain rfl : i = j := Option.some.inj (hname.symm.trans hj)
        exact Bool.eq_false_iff.mpr fun hsame => htaken ⟨e, he, hsame⟩
      · exact hfree e (Array.mem_push_of_mem _ he) k hk j hj

/-- Declarations that are named by their members come back under the identifiers of these. -/
theorem DeclarationList.relabel_named (l : DeclarationList) :
    (l.named t).relabel copy =
      ⟨(l.nodes.map fun id => ((t.identifier? id).getD "", copy id)).toArray⟩ := by
  rw [relabel, named, nodes]
  congr 1
  apply Array.ext'
  simp

/-- Copies are declared under the identifiers of their originals if these can be declared, and
refused otherwise. -/
theorem declarationList_copies {tree : Tree} (hrule : tree.caseRule = t.caseRule)
    {ids : List NodeId} (hids : ∀ id ∈ ids,
      tree.identifier? (copy id) = if id ∈ opened then none else t.identifier? id)
    (l : DeclarationList) :
    (t.DeclarableBehind opened l ids →
      declarationList tree l (ids.map copy) = .ok ⟨l.entries ++
        (ids.map fun id => ((t.identifier? id).getD "", copy id)).toArray⟩) ∧
    (¬ t.DeclarableBehind opened l ids →
      ∃ e, declarationList tree l (ids.map copy) = .error e) := by
  induction ids generalizing l with
  | nil =>
    have hnil : t.DeclarableBehind opened l [] := ⟨⟨nofun, nofun, .nil⟩, nofun⟩
    exact ⟨fun _ => by simp [declarationList], fun h => absurd hnil h⟩
  | cons id ids ih =>
    have hid := hids id List.mem_cons_self
    replace ih := ih fun i hi => hids i (List.mem_cons_of_mem _ hi)
    rw [List.map_cons, declarationList, hid]
    by_cases hopen : id ∈ opened
    · rw [if_pos hopen]
      refine ⟨fun h => absurd hopen (h.1.complete id List.mem_cons_self), fun _ => ⟨_, rfl⟩⟩
    rw [if_neg hopen]
    cases hname : t.identifier? id with
    | none =>
      refine ⟨fun h => ?_, fun _ => ⟨_, rfl⟩⟩
      have hsome := h.1.named id List.mem_cons_self
      rw [hname] at hsome
      cases hsome
    | some i =>
      rw [Tree.declarableBehind_cons hopen hname l (copy id)]
      simp only [DeclarationList.insert?_eq, hrule]
      by_cases htaken : ∃ e ∈ l.entries, t.caseRule.same e.1 i = true
      · rw [if_pos htaken]
        exact ⟨fun h => absurd htaken h.1, fun _ => ⟨_, rfl⟩⟩
      · rw [if_neg htaken]
        obtain ⟨hok, herr⟩ := ih ⟨l.entries.push (i, copy id)⟩
        refine ⟨fun h => (hok h.2).trans ?_, fun h => herr fun hrest => h ⟨htaken, hrest⟩⟩
        simp [hname]

end

section

variable {t : Tree} {detached : List NodeId} {k : Copying t detached} {depth : Nat}
variable {opened : List NodeId} {openOne : List Opening → NodeId → List Opening}
variable {good : Opening → Prop} {writeLink : Option NodeId → Writer Unit}
variable {readLink : Reader (Option NodeId)}
variable (hlink : ∀ seen l, Transcribes k depth opened
  (∀ o ∈ openAll openOne seen l.toList, good o) seen (openAll openOne seen l.toList)
  (writeLink l) readLink (copiedLink detached k.copy l))
include hlink

/-- A slot that cannot be empty is refused if its node is detached. -/
theorem takeChild_transcribes (role : String) (seen : List Opening) (id : NodeId) :
    Transcribes k depth opened
      ((∀ o ∈ openAll openOne seen [id], good o) ∧ id ∉ detached) seen
      (openAll openOne seen [id]) (writeLink (some id)) (Reader.takeChild readLink role)
      (k.copy id) := by
  refine (hlink seen (some id)).andThen fun _ _ r _ => ⟨fun h => ?_, fun h => ?_⟩
  · rw [copiedLink_of_notMem h]
    rfl
  · rw [copiedLink_of_mem (Classical.not_not.mp h)]
    exact ⟨_, _, rfl⟩

/-- Nodes one after the other are refused if one of them is detached. -/
theorem takeChildren_transcribes (role : String) (seen : List Opening) (ids : List NodeId) :
    Transcribes k depth opened
      ((∀ o ∈ openAll openOne seen ids, good o) ∧ ∀ id ∈ ids, id ∉ detached) seen
      (openAll openOne seen ids) (Writer.putObjects writeLink ids)
      (Reader.takeChildren readLink role ids.length) (ids.map k.copy) := by
  induction ids generalizing seen with
  | nil => exact (Transcribes.pure _).congr (by simp [openAll])
  | cons id ids ih =>
    have hfirst := takeChild_transcribes hlink role seen id
    rw [openAll_singleton] at hfirst
    refine (hfirst.bind ((ih _).map (k.copy id :: ·))).congr ?_
    rw [openAll, List.forall_mem_append, List.forall_mem_cons]
    exact and_and_and_comm

/-- A list of nodes is refused if one of them is detached. -/
theorem takeList_transcribes (role : String) (seen : List Opening) (ids : List NodeId) :
    Transcribes k depth opened
      ((∀ o ∈ openAll openOne seen ids, good o) ∧ ∀ id ∈ ids, id ∉ detached) seen
      (openAll openOne seen ids) (Writer.putList writeLink ids)
      (Reader.takeList readLink role) (ids.map k.copy) := by
  have hcount : Transcribes k depth opened True seen []
      (Writer.emit (Encoder.count ids.length)) (Reader.take Decoder.count) ids.length :=
    Transcribes.emit_codec count_codec ids.length
  have hids := takeChildren_transcribes hlink role (seen ++ []) ids
  rw [List.append_nil] at hids
  exact (hcount.bind (by rwa [List.append_nil])).congr (true_and _).to_iff

/-- The declarations of a scope are refused if one of them is detached or cannot be declared. -/
theorem takeDeclarations_transcribes
    (hmem : ∀ seen id, id ∈ detached ∨ id ∈ (seen ++ openOne seen id).map (·.node))
    (seen : List Opening) (l : DeclarationList) :
    Transcribes k depth opened
      ((∀ o ∈ openAll openOne seen l.nodes, good o) ∧
        (∀ id ∈ l.nodes, id ∉ detached) ∧ t.Declarable opened l.nodes) seen
      (openAll openOne seen l.nodes) (Writer.putList writeLink l.nodes)
      (Reader.takeDeclarations readLink) ((l.named t).relabel k.copy) := by
  refine ((takeList_transcribes hlink "declaration" seen l.nodes).andThen ?_).congr and_assoc
  rintro ⟨-, hattached⟩ numbers r hr
  have hids : ∀ id ∈ l.nodes,
      r.tree.identifier? (k.copy id) = if id ∈ opened then none else t.identifier? id :=
    fun id hid => hr.identifier?_copy
      ((mem_openAll hmem hid seen).resolve_left (hattached id hid))
  obtain ⟨hok, herr⟩ := declarationList_copies hr.caseRule hids {}
  have hbehind : t.DeclarableBehind opened {} l.nodes ↔ t.Declarable opened l.nodes :=
    ⟨fun h => h.1, fun h => ⟨h, fun e he => by simp at he⟩⟩
  rw [hbehind] at hok herr
  refine ⟨fun h => ?_, fun h => ?_⟩
  · rw [bind_of_ok (get_apply r), hok h, l.relabel_named]
    simp
  · obtain ⟨e, he⟩ := herr h
    refine ⟨e, r, ?_⟩
    rw [bind_of_ok (get_apply r), he]
    rfl

/-- A field is written and read in step, and refused if it cannot be read back. -/
theorem takeField_transcribes
    (hmem : ∀ seen id, id ∈ detached ∨ id ∈ (seen ++ openOne seen id).map (·.node))
    (seen : List Opening) (s : Shape) (v : s.Value) :
    Transcribes k depth opened
      ((∀ o ∈ openAll openOne seen (s.links v), good o) ∧ s.Readable t detached opened v) seen
      (openAll openOne seen (s.links v)) (Writer.putField writeLink s v)
      (Reader.takeField readLink s) (s.copied t detached k.copy v) := by
  cases s with
  | scalar s =>
    exact (Transcribes.emit Scalar.read_put).congr (by simp [Shape.links, Shape.Readable, openAll])
  | link => exact (hlink seen v).congr (by simp [Shape.links, Shape.Readable])
  | child role => exact takeChild_transcribes hlink role seen v
  | children role => exact takeList_transcribes hlink role seen v
  | declarations => exact takeDeclarations_transcribes hlink hmem seen v

/-- The fields of a record are written and read in step. -/
theorem takePayload_transcribes
    (hmem : ∀ seen id, id ∈ detached ∨ id ∈ (seen ++ openOne seen id).map (·.node))
    (seen : List Opening) (ss : List Shape) (p : Payload ss) :
    Transcribes k depth opened
      ((∀ o ∈ openAll openOne seen (Payload.links ss p), good o) ∧
        Payload.Readable t detached opened ss p) seen
      (openAll openOne seen (Payload.links ss p)) (Writer.putPayload writeLink ss p)
      (Reader.takePayload readLink ss) (Payload.copied t detached k.copy ss p) := by
  induction ss generalizing seen with
  | nil => exact (Transcribes.pure ()).congr (by simp [Payload.links, Payload.Readable, openAll])
  | cons s ss ih =>
    obtain ⟨v, vs⟩ := p
    have hfirst := takeField_transcribes hlink hmem seen s v
    rw [Payload.links, openAll_append, List.forall_mem_append, Payload.Readable]
    exact (hfirst.bind ((ih _ vs).map fun vs => (s.copied t detached k.copy v, vs))).congr
      and_and_and_comm

/-- The content of a node is written and read in step. -/
theorem takeData_transcribes
    (hmem : ∀ seen id, id ∈ detached ∨ id ∈ (seen ++ openOne seen id).map (·.node))
    (seen : List Opening) {d : NodeData} (hd : d ≠ .pending) :
    Transcribes k depth opened
      ((∀ o ∈ openAll openOne seen d.links, good o) ∧ d.Readable t detached opened) seen
      (openAll openOne seen d.links) (Writer.putData writeLink d.kind d)
      (Reader.takeData readLink d.kind) ((d.named t).relabel detached k.copy) := by
  obtain ⟨layout, p, hl, hp, hbuild⟩ := NodeData.exists_record t detached k.copy hd
  have hput : Writer.putData writeLink d.kind d = Writer.putPayload writeLink layout.shapes p := by
    rw [Writer.putData, hl]
    simp only [hp]
  have htake : Reader.takeData readLink d.kind =
      (do return layout.build (← Reader.takePayload readLink layout.shapes)) := by
    rw [Reader.takeData, hl]
  rw [hput, htake, NodeData.links_eq hl hp, NodeData.readable_iff t detached opened hl hp, ← hbuild]
  exact (takePayload_transcribes hlink hmem seen layout.shapes p).map layout.build

end

end Simula
