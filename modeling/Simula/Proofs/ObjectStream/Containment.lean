import Simula.Proofs.ObjectStream.Rewriting
import Simula.Proofs.ObjectStream.RoundTrip
import Simula.Proofs.Stream.Consumption

/-!
# Reading arbitrary bytes

Whatever bytes a reader is given, it changes no node that was in the tree, it takes five bytes at
least for every node that it appends, and what it has read without an error is closed: every node
number in it is the number of a node that the same reader has appended. So no link of what has been
read leads out of the tree, or to a node whose fields are still missing.

The reader hands out numbers of records that it is still reading, so that the links are closed is
carried along with the table of the numbers handed out.
-/

namespace Simula

/-! ## Node numbers in a node -/

/-- The labels in a label list, accumulated ones included. -/
def LabelList.references (l : LabelList) : List NodeId :=
  l.own.toList ++ (l.accumulated.map (·.toList)).getD []

/-- The node numbers in the common part of a scope. -/
def Body.references (b : Body) : List NodeId :=
  b.declarations.nodes ++ b.labels.references ++ b.statements.toList

/-- The node numbers in the form of a declaration. -/
def Declaration.references : Declaration → List NodeId
  | external _ _ module => module.toList
  | classDeclaration c =>
    c.prefixClass.toList ++ c.parameters.toList ++ c.virtuals.toList ++ c.hidden.toList ++
      c.guarded.toList ++ c.body.references
  | procedure _ ps b => ps.toList ++ b.references
  | block b => b.references
  | simpleVariable _ c => c.toList
  | hiddenSpec p => p.toList
  | protectedSpec h => h.toList
  | array _ _ | parameter _ _ _ | label _ | virtualSpec _ _ => []

/-- The node numbers in any field of a node, whether the field is stored or not. -/
def NodeData.references : NodeData → List NodeId
  | pending => []
  | declaration _ s d => s.toList ++ d.references
  | connection c =>
    c.declaredIn.toList ++ c.inspected.toList ++ c.classDeclaration.toList ++ c.statement.toList
  | statement s => s.children
  | expression e _ => e.children

/-- The node numbers in the fields that a record leaves out. -/
def NodeData.unstored : NodeData → List NodeId
  | declaration _ _ (.external _ _ module) => module.toList
  | d => ((d.labels?.bind (·.accumulated)).map (·.toList)).getD []

/-- What a node refers to is stored in its record or left out by it. -/
theorem NodeData.references_subset (d : NodeData) : d.references ⊆ d.links ++ d.unstored := by
  intro l hl
  rw [List.mem_append]
  cases d with
  | pending => cases hl
  | declaration i s f =>
    cases f <;> simp [references, Declaration.references, Body.references, LabelList.references]
      at hl <;> simp [links, unstored, labels?, body?, Declaration.body?, kind, Declaration.kind,
        Kind.layout?, Payload.links, Shape.links, Layout.external, Layout.classDeclaration,
        Layout.procedure, Layout.block, Layout.simpleVariable, Layout.array, Layout.parameter,
        Layout.label, Layout.hiddenSpec, Layout.protectedSpec, Layout.virtualSpec] <;> tauto
  | connection c =>
    simp [references] at hl
    simp [links, kind, Kind.layout?, Payload.links, Shape.links, Layout.connectionBlock]
    tauto
  | statement f => exact .inl (children_subset_links _ hl)
  | expression f ty => exact .inl (children_subset_links _ hl)

/-- A node put together from the fields of a record refers to nothing else than they do. -/
theorem Layout.references_build {kind : Kind} {layout : Layout} (h : kind.layout? = some layout)
    (p : Payload layout.shapes) :
    (layout.build p).references ⊆ Payload.links layout.shapes p := by
  have hlinks : (layout.build p).links = Payload.links layout.shapes p :=
    NodeData.links_eq ((kind_build h p).symm ▸ h) (fields_build h p)
  have hunstored : (layout.build p).unstored = [] := by
    cases kind <;> cases h <;> rfl
  have hsubset := (layout.build p).references_subset
  rwa [hlinks, hunstored, List.append_nil] at hsubset

/-! ## Bytes for nodes -/

/-- Between two states bytes have been taken off the front of the input, five for every new node;
`debt` of them had been taken before. -/
structure ReaderState.Pays (debt : Nat) (s s' : ReaderState) : Prop where
  input : s'.input <:+ s.input
  cost : 5 * s'.tree.size + s'.input.length ≤ 5 * s.tree.size + s.input.length + debt

namespace ReaderState.Pays

variable {debt : Nat} {s s₁ s₂ : ReaderState}

/-- Without new nodes there is nothing to pay. -/
theorem refl (s : ReaderState) : s.Pays 0 s := ⟨List.suffix_refl _, Nat.le_refl _⟩

/-- What is paid in two steps is paid. -/
theorem trans (h : s.Pays 0 s₁) (h' : s₁.Pays debt s₂) : s.Pays debt s₂ where
  input := h'.input.trans h.input
  cost := by
    have hcost := h.cost
    have hcost' := h'.cost
    omega

instance : Std.Refl (ReaderState.Pays 0) := ⟨refl⟩

instance : Trans (ReaderState.Pays 0) (ReaderState.Pays 0) (ReaderState.Pays 0) := ⟨trans⟩

/-- More may have been taken before. -/
theorem mono {debt' : Nat} (h : s.Pays debt s₁) (hle : debt ≤ debt') : s.Pays debt' s₁ :=
  ⟨h.input, Nat.le_trans h.cost (Nat.add_le_add_left hle _)⟩

/-- Bytes that have just been taken count for what follows. -/
theorem of_taken {k : Nat} (h : s₁.Pays (debt + k) s₂) (htree : s₁.tree = s.tree)
    (hinput : s₁.input <:+ s.input) (hlength : s.input.length = s₁.input.length + k) :
    s.Pays debt s₂ where
  input := h.input.trans hinput
  cost := by
    have hcost := h.cost
    rw [htree] at hcost
    omega

end ReaderState.Pays

namespace Reader

variable {α : Type}

/-- A primitive value is taken off the front of the input. -/
theorem take_pays {d : Decoder α} (h : Follows Bytes.LeadsTo d) :
    Follows (ReaderState.Pays 0) (take d) := by
  intro s
  cases hd : d s.input with
  | ok a rest =>
    rw [leaves_of_ok (take_of_ok hd)]
    have hrest : rest <:+ s.input := h.of_ok hd
    exact ⟨hrest, Nat.add_le_add_left hrest.length_le _⟩
  | error e rest =>
    rw [leaves_of_error (take_of_error hd)]
    have hrest : rest <:+ s.input := h.of_error hd
    exact ⟨hrest, Nat.add_le_add_left hrest.length_le _⟩

/-- The steps of reading fields take bytes and append no node of their own. -/
theorem pays_frame : FieldFrame fun _ x _ => Follows (ReaderState.Pays 0) x :=
  .of_bind .pure .bind (fun hd => take_pays hd.consumes) (fun _ => .throw _) fun ids =>
    Follows.get.bind fun s => by
      cases declarationList s.tree {} ids with
      | ok list => exact .pure list
      | error e => exact .throw e

section

variable {readLink : Reader (Option NodeId)} (hlink : Follows (ReaderState.Pays 0) readLink)
include hlink

/-- The content of a node is paid for with its bytes. -/
theorem takeData_pays (kind : Kind) :
    Follows (ReaderState.Pays 0) (takeData readLink kind) := by
  unfold takeData
  cases kind.layout? with
  | none => exact .throw _
  | some layout =>
    exact (pays_frame.takePayload (y := readLink) hlink layout.shapes).bind fun p => .pure _

/-- The head of a record pays for its node. -/
theorem takeRecord_pays (kind : Kind) (sequence : Int) (line : Nat) :
    Follows (ReaderState.Pays 5) (do
      let id ← register sequence line
      complete id (← takeData readLink kind)
      return some id) := by
  intro s
  have hopen : s.Pays 5 (s.opened sequence line) := by
    refine ⟨List.suffix_refl _, ?_⟩
    simp only [ReaderState.opened, Tree.size_push]
    omega
  cases hseq : s.objects.lookup sequence with
  | some _ =>
    rw [leaves_of_error (bind_of_error (register_of_known line hseq))]
    exact hopen
  | none =>
    rw [leaves_bind_of_ok (register_of_fresh line hseq)]
    have hdata := takeData_pays hlink kind
    have hafter : ∀ s₂, (s.opened sequence line).Pays 0 s₂ → s.Pays 5 s₂ := by
      intro s₂ h
      have hcost := hopen.cost
      have hcost' := h.cost
      exact ⟨h.input, by omega⟩
    cases hd : takeData readLink kind (s.opened sequence line) with
    | error e s₂ =>
      rw [leaves_of_error (bind_of_error hd)]
      exact hafter s₂ (hdata.of_error hd)
    | ok d s₂ =>
      rw [leaves_bind_of_ok hd]
      have hpays := hafter s₂ (hdata.of_ok hd)
      have hsize : (s₂.completed s.tree.size d).tree.size = s₂.tree.size := s₂.size_completed _ _
      exact ⟨hpays.input, hsize ▸ hpays.cost⟩

/-- An object whose tag has been read pays for its nodes with what it takes and the tag. -/
theorem takeTagged_pays (kind : Kind) :
    Follows (ReaderState.Pays 1) (takeTagged readLink kind) := by
  intro s
  by_cases hnull : kind = .null
  · subst hnull
    exact (ReaderState.Pays.refl s).mono (Nat.zero_le 1)
  by_cases href : kind = .objectReference
  · subst href
    have hreference : Follows (ReaderState.Pays 0) (takeTagged readLink .objectReference) := by
      refine (take_pays Decoder.short_parses.consumes).bind fun sequence =>
        Follows.get.bind fun s => ?_
      cases s.objects.lookup sequence with
      | none => exact .throw _
      | some id => exact .pure _
    exact (hreference s).mono (Nat.zero_le 1)
  rw [takeTagged_record hnull href]
  have hshort := take_pays Decoder.short_parses.consumes
  have hcount := take_pays Decoder.count_parses.consumes
  cases h₁ : take Decoder.short s with
  | error e s₁ =>
    rw [leaves_of_error (bind_of_error h₁)]
    exact (hshort.of_error h₁).mono (Nat.zero_le 1)
  | ok sequence s₁ =>
    rw [leaves_bind_of_ok h₁]
    obtain ⟨hd₁, htree₁, -⟩ := take_eq_ok h₁
    refine ReaderState.Pays.of_taken ?_ htree₁ (hshort.of_ok h₁).input
      (Decoder.length_of_short hd₁)
    cases h₂ : take Decoder.count s₁ with
    | error e s₂ =>
      rw [leaves_of_error (bind_of_error h₂)]
      exact (hcount.of_error h₂).mono (Nat.zero_le 3)
    | ok line s₂ =>
      rw [leaves_bind_of_ok h₂]
      obtain ⟨hd₂, htree₂, -⟩ := take_eq_ok h₂
      exact (takeRecord_pays hlink kind sequence line s₂).of_taken htree₂ (hcount.of_ok h₂).input
        (Decoder.length_of_count hd₂)

end

/-- An object pays for its nodes. -/
theorem objectWithin_pays (depth : Nat) : Follows (ReaderState.Pays 0) (objectWithin depth) := by
  induction depth with
  | zero => exact .throw _
  | succ depth ih =>
    intro s
    have hkind := take_pays Decoder.kind_parses.consumes
    cases h : take Decoder.kind s with
    | error e s₁ =>
      rw [objectWithin, leaves_of_error (bind_of_error h)]
      exact hkind.of_error h
    | ok kind s₁ =>
      rw [objectWithin, leaves_bind_of_ok h]
      obtain ⟨hd, htree, -⟩ := take_eq_ok h
      exact (takeTagged_pays ih kind s₁).of_taken htree (hkind.of_ok h).input
        (Decoder.length_of_kind hd)

/-- An object whose tag has been read pays for its nodes, with the byte of the tag. -/
theorem tagged_pays (kind : Kind) : Follows (ReaderState.Pays 1) (tagged kind) := fun s =>
  takeTagged_pays (objectWithin_pays s.input.length) kind s

/-- Reading objects takes five bytes for every node. -/
theorem objects_pays (n : Nat) : Follows (ReaderState.Pays 0) (objects n) := by
  induction n with
  | zero => exact .pure _
  | succ n ih =>
    have hobject : Follows (ReaderState.Pays 0) object := fun s =>
      objectWithin_pays s.input.length s
    exact hobject.bind fun _ => ih.bind fun _ => .pure _

end Reader

/-! ## Closed links -/

/-- The nodes are among those from `base` on. -/
def ReaderState.Holds (base : Nat) (s : ReaderState) (ids : List NodeId) : Prop :=
  ∀ l ∈ ids, base ≤ l ∧ l < s.tree.size

/-- The nodes from `base` on, and the numbers handed out, refer only to nodes from `base` on. -/
structure ReaderState.Closed (base : Nat) (s : ReaderState) : Prop where
  base_le : base ≤ s.tree.size
  objects : s.Holds base (s.objects.map (·.2))
  links : ∀ i, base ≤ i → s.Holds base (s.tree.data i).references

namespace ReaderState

variable {base : Nat} {s s' : ReaderState} {ids : List NodeId}

/-- What a tree holds a larger one holds. -/
theorem Holds.mono (h : s.Holds base ids) (hle : s.tree.size ≤ s'.tree.size) :
    s'.Holds base ids :=
  fun l hl => ⟨(h l hl).1, Nat.lt_of_lt_of_le (h l hl).2 hle⟩

/-- Beginning a record hands out the number of its node, which refers to nothing yet. -/
theorem Closed.opened (h : s.Closed base) (sequence : Int) (line : Nat) :
    (s.opened sequence line).Closed base := by
  have hsize : (s.opened sequence line).tree.size = s.tree.size + 1 := Tree.size_push ..
  have hle : s.tree.size ≤ (s.opened sequence line).tree.size := by omega
  refine ⟨Nat.le_trans h.base_le hle, ?_, fun i hi => ?_⟩
  · intro l hl
    rcases List.mem_cons.mp hl with rfl | hl
    · exact ⟨h.base_le, Nat.lt_of_lt_of_eq (Nat.lt_succ_self _) hsize.symm⟩
    · exact h.objects.mono hle l hl
  · have hdata : (s.opened sequence line).tree.data i =
        if i = s.tree.size then .pending else s.tree.data i := Tree.data_push ..
    rw [hdata]
    split
    · exact nofun
    · exact (h.links i hi).mono hle

/-- Filling in a node with references to held nodes keeps the links closed. -/
theorem Closed.completed (h : s.Closed base) {id : NodeId} {d : NodeData}
    (hid : id < s.tree.size) (hd : s.Holds base d.references) :
    (s.completed id d).Closed base := by
  have hle : s.tree.size ≤ (s.completed id d).tree.size := Nat.le_of_eq (s.size_completed id d).symm
  refine ⟨Nat.le_trans h.base_le hle, h.objects.mono hle, fun i hi => ?_⟩
  have hdata : (s.completed id d).tree.data i = if i = id then d else s.tree.data i :=
    Tree.data_setData d hid i
  rw [hdata]
  split
  · exact hd.mono hle
  · exact (h.links i hi).mono hle

end ReaderState

/-- The action only reads on, keeps the links closed and gives only nodes that the tree holds. -/
structure Reader.Closes {α : Type} (base : Nat) (ids : α → List NodeId) (m : Reader α) : Prop where
  grows : m.Grows
  closed : ∀ {s s' a}, s.Closed base → m s = .ok a s' → s'.Closed base ∧ s'.Holds base (ids a)

namespace Reader

variable {base : Nat} {α β γ : Type}

/-- A value without nodes may be given back. -/
theorem Closes.give {ids : α → List NodeId} {a : α} (h : ids a = []) :
    (pure a : Reader α).Closes base ids where
  grows := pure_grows a
  closed hs hm := by
    obtain ⟨rfl, rfl⟩ := pure_eq_ok.mp hm
    exact ⟨hs, h ▸ nofun⟩

/-- A primitive value refers to no node, and what follows it may depend on it. -/
theorem Closes.taken {ids : β → List NodeId} (d : Decoder α) {f : α → Reader β}
    (hf : ∀ a, (f a).Closes base ids) : (take d >>= f).Closes base ids where
  grows := (take_grows d).bind fun a => (hf a).grows
  closed {s s' b} hs hm := by
    obtain ⟨a, s₁, ha, hm⟩ := bind_eq_ok.mp hm
    obtain ⟨-, htree, hobjects⟩ := take_eq_ok ha
    refine (hf a).closed ⟨htree ▸ hs.base_le, ?_, fun i hi => ?_⟩ hm
    · rw [hobjects]
      exact hs.objects.mono (Nat.le_of_eq (by rw [htree]))
    · rw [htree]
      exact (hs.links i hi).mono (Nat.le_of_eq (by rw [htree]))

/-- Two values one after the other refer to what each of them does. -/
theorem Closes.both {u : α → List NodeId} {v : β → List NodeId} {w : γ → List NodeId}
    {x : Reader α} {y : Reader β} {f : α → β → γ} (hx : x.Closes base u) (hy : y.Closes base v)
    (hw : ∀ a b, w (f a b) = u a ++ v b) :
    Closes base w (do let a ← x; let b ← y; return f a b) where
  grows := hx.grows.bind fun _ => hy.grows.bind fun _ => pure_grows _
  closed {s s' c} hs hm := by
    obtain ⟨a, s₁, ha, hm⟩ := bind_eq_ok.mp hm
    obtain ⟨b, s₂, hb, hm⟩ := bind_eq_ok.mp hm
    obtain ⟨rfl, rfl⟩ := pure_eq_ok.mp hm
    obtain ⟨hs₁, hheld⟩ := hx.closed hs ha
    obtain ⟨hs₂, hheld'⟩ := hy.closed hs₁ hb
    have hle := (hy.grows.of_ok hb).1.size_le
    rw [hw]
    exact ⟨hs₂, List.forall_mem_append.mpr ⟨hheld.mono hle, hheld'⟩⟩

/-- A record leads to its own node, whose content refers to nodes that the tree holds. -/
theorem Closes.record {readLink : Reader (Option NodeId)} {kind : Kind} {layout : Layout}
    (hlayout : kind.layout? = some layout)
    (hfields : (takePayload readLink layout.shapes).Closes base (Payload.links layout.shapes))
    (sequence : Int) (line : Nat) :
    (takeRecord readLink layout sequence line).Closes base Option.toList where
  grows := takeRecord_grows hlayout hfields.grows sequence line
  closed {s s' l} hs hm := by
    obtain ⟨id, s₁, hregister, hm⟩ := bind_eq_ok.mp hm
    obtain ⟨p, s₂, hp, hm⟩ := bind_eq_ok.mp hm
    obtain ⟨_, s₃, hcomplete, hm⟩ := bind_eq_ok.mp hm
    obtain ⟨-, rfl, rfl⟩ := register_eq_ok hregister
    cases hcomplete
    obtain ⟨rfl, rfl⟩ := pure_eq_ok.mp hm
    obtain ⟨hs₂, hheld⟩ := hfields.closed (hs.opened sequence line) hp
    have hlt : s.tree.size < s₂.tree.size := by
      have hle := (hfields.grows.of_ok hp).1.size_le
      have hsize : (s.opened sequence line).tree.size = s.tree.size + 1 := Tree.size_push ..
      omega
    have hreferences : s₂.Holds base (layout.build p).references :=
      fun l hl => hheld l (Layout.references_build hlayout p hl)
    refine ⟨hs₂.completed hlt hreferences, List.forall_mem_singleton.mpr ⟨hs.base_le, ?_⟩⟩
    exact Nat.lt_of_lt_of_eq hlt (s₂.size_completed _ _).symm

/-- Every step of reading an object keeps the links closed. -/
theorem closes_frame (base : Nat) : ObjectFrame fun v x _ => x.Closes base v.links where
  give h := .give h
  taken _ hf := .taken _ hf
  child {x _} hx role := by
    refine ⟨grows_frame.child (y := x) hx.grows role, fun hs hm => ?_⟩
    obtain ⟨l, s₁, hl, hm⟩ := bind_eq_ok.mp hm
    cases l with
    | none => cases hm
    | some id =>
      obtain ⟨rfl, rfl⟩ := pure_eq_ok.mp hm
      exact hx.closed hs hl
  both hx hy hw _ := hx.both hy hw
  listed {x _} hx := by
    refine ⟨grows_frame.listed (y := x) hx.grows, fun {s s' list} hs hm => ?_⟩
    obtain ⟨ids, s₁, hids, hm⟩ := bind_eq_ok.mp hm
    obtain ⟨hlist, rfl⟩ := declare_eq_ok hm
    have hnodes : View.declarations.links list = ids := nodes_declarationList hlist
    rw [hnodes]
    exact hx.closed hs hids
  ended := ⟨throw_grows _, fun _ hm => nomatch hm⟩
  known sequence := by
    refine ⟨grows_frame.known sequence, fun hs hm => ?_⟩
    obtain ⟨id, hlookup, rfl, rfl⟩ := refer_eq_ok hm
    have hmem := List.mem_map_of_mem (f := (·.2)) (mem_of_lookup hlookup)
    exact ⟨hs, List.forall_mem_singleton.mpr (hs.objects id hmem)⟩
  record hlayout hfields := .record hlayout hfields

/-- An object behind its tag keeps the links closed. -/
theorem tagged_closes (kind : Kind) : (tagged kind).Closes base Option.toList := by
  have hframe := closes_frame base
  refine ⟨tagged_grows kind, fun {s s' l} hs hm => ?_⟩
  exact (hframe.takeTagged (y := objectWithin s.input.length) (hframe.objectWithin _) kind).closed
    hs hm

/-- Objects that have been read refer only to each other. -/
theorem objects_closes (n : Nat) : (objects n).Closes base fun ids => ids.filterMap id := by
  induction n with
  | zero => exact .give rfl
  | succ n ih =>
    have hobject : object.Closes base Option.toList :=
      ⟨object_grows, fun hs => ((closes_frame base).objectWithin _).closed hs⟩
    refine hobject.both ih fun l rest => ?_
    cases l <;> rfl

/-- **Containment.** Reading any number of objects from any bytes into any tree, up to the first
error, leaves the nodes of the tree as they were and takes at least five bytes for each node that it
appends. If all objects have been read, no new node is pending, and the objects and all node numbers
in new nodes are those of new nodes. -/
theorem objects_contained (t : Tree) (bytes : Bytes) (n : Nat) :
    let r := leaves (objects n) { input := bytes, tree := t }
    t.Extends r.tree ∧
    (∃ taken, bytes = taken ++ r.input ∧ 5 * (r.tree.size - t.size) ≤ taken.length) ∧
    ∀ ids r', objects n { input := bytes, tree := t } = .ok ids r' →
      (∀ i, t.size ≤ i → i < r'.tree.size → r'.tree.data i ≠ .pending ∧
        ∀ l ∈ (r'.tree.data i).references, t.size ≤ l ∧ l < r'.tree.size) ∧
      ∀ id, some id ∈ ids → t.size ≤ id ∧ id < r'.tree.size := by
  intro r
  have hpays : ReaderState.Pays 0 { input := bytes, tree := t } r := objects_pays n _
  refine ⟨?_, ?_, fun ids r' h => ?_⟩
  · cases h : objects n { input := bytes, tree := t } with
    | ok ids r' =>
      rw [show r = r' from leaves_of_ok h]
      exact ((objects_grows n).of_ok h).1.toExtends
    | error e r' =>
      rw [show r = r' from leaves_of_error h]
      exact ((objects_grows n).of_error h).toExtends
  · obtain ⟨taken, htaken⟩ := hpays.input
    refine ⟨taken, htaken.symm, ?_⟩
    have hcost : 5 * r.tree.size + r.input.length ≤ 5 * t.size + bytes.length := hpays.cost
    have hlength := congrArg List.length htaken
    rw [List.length_append] at hlength
    change taken.length + r.input.length = bytes.length at hlength
    omega
  · have hstart : ReaderState.Closed t.size { input := bytes, tree := t } := by
      refine ⟨Nat.le_refl _, nofun, fun i hi => ?_⟩
      rw [Tree.data_of_size_le hi]
      exact nofun
    obtain ⟨hclosed, hheld⟩ := (objects_closes n).closed hstart h
    refine ⟨fun i hi hlt => ⟨((objects_grows n).of_ok h).2 i hi hlt, hclosed.links i hi⟩,
      fun id hid => hheld id ?_⟩
    exact List.mem_filterMap.mpr ⟨some id, hid, rfl⟩

/-- A class with an attribute that refers back to it, and a second reference to the class, are read
into a tree that has a node already: they refer to the two new nodes only. -/
theorem objects_contained_classBytes :
    ∃ r, objects 2
        { input := classBytes ++ [1, 0, 5], tree := ⟨#[⟨1, .statement .dummy⟩], .insensitive⟩ } =
          .ok [some 1, some 1] r ∧ r.tree.size = 3 ∧
      ∀ i, 1 ≤ i → i < r.tree.size → r.tree.data i ≠ .pending ∧
        ∀ l ∈ (r.tree.data i).references, 1 ≤ l ∧ l < r.tree.size := by
  have hsucceeds : succeedsWith (objects 2)
      { input := classBytes ++ [1, 0, 5], tree := ⟨#[⟨1, .statement .dummy⟩], .insensitive⟩ }
      (fun ids r => ids = [some 1, some 1] ∧ r.tree.size = 3) = true := by decide +kernel
  obtain ⟨ids, r, hread, htest⟩ := exists_of_succeedsWith hsucceeds
  obtain ⟨rfl, hsize⟩ := of_decide_eq_true htest
  exact ⟨r, hread, hsize, ((objects_contained _ _ 2).2.2 _ r hread).1⟩

end Reader

end Simula
