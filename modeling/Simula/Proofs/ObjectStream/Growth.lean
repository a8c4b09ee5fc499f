import Simula.Proofs.ObjectStream.Frame
import Simula.Proofs.Tree.Nodes

/-!
# What reading leaves as it is

Whatever a stream holds, reading it only appends nodes: the nodes that were in the tree stay as
they are, and every new node is registered under the number of its record, in the order in which
the records start. A failed read may leave pending nodes behind; a successful one does not.
-/

namespace Simula

/-- The later state comes from the earlier one by reading on. -/
structure ReaderState.Extends (s s' : ReaderState) : Prop extends s.tree.Extends s'.tree where
  /-- Registered numbers stay registered. -/
  objects : s.objects <:+ s'.objects
  /-- The new nodes are registered in order, the latest first. -/
  registered : s'.objects.map (·.2) =
    (List.range' s.tree.size (s'.tree.size - s.tree.size)).reverse ++ s.objects.map (·.2)

/-- All nodes that the later state has more are complete. -/
def ReaderState.Fills (s s' : ReaderState) : Prop :=
  ∀ i, s.tree.size ≤ i → i < s'.tree.size → s'.tree.data i ≠ .pending

namespace ReaderState

variable {s s₁ s₂ : ReaderState}

/-- States with one tree and one table differ in nothing that reading has to keep. -/
theorem Extends.of_eq (ht : s₁.tree = s.tree) (ho : s₁.objects = s.objects) : s.Extends s₁ where
  toExtends := ht ▸ .refl s.tree
  objects := ho ▸ List.suffix_refl _
  registered := by simp [ht, ho]

/-- Reading on twice is reading on. -/
theorem Extends.trans (h : s.Extends s₁) (h' : s₁.Extends s₂) : s.Extends s₂ where
  toExtends := h.toExtends.trans h'.toExtends
  objects := h.objects.trans h'.objects
  registered := by
    have hle := h.size_le
    have hle' := h'.size_le
    have hrange : List.range' s.tree.size (s₂.tree.size - s.tree.size) =
        List.range' s.tree.size (s₁.tree.size - s.tree.size) ++
          List.range' s₁.tree.size (s₂.tree.size - s₁.tree.size) := by
      have hstart : s₁.tree.size = s.tree.size + 1 * (s₁.tree.size - s.tree.size) := by omega
      have hlen : s₂.tree.size - s.tree.size =
          (s₁.tree.size - s.tree.size) + (s₂.tree.size - s₁.tree.size) := by omega
      rw [hlen, ← List.range'_append, ← hstart]
    rw [h'.registered, h.registered, hrange, List.reverse_append, List.append_assoc]

/-- New nodes stay complete while others follow. -/
theorem Fills.trans (h : s.Fills s₁) (he : s₁.Extends s₂) (h' : s₁.Fills s₂) : s.Fills s₂ := by
  intro i hi hi'
  by_cases hlt : i < s₁.tree.size
  · rw [Tree.data_congr (he.old i hlt)]
    exact h i hi hlt
  · exact h' i (Nat.le_of_not_lt hlt) hi'

/-- Where nothing is new, nothing is incomplete. -/
theorem Fills.of_size (h : s₁.tree.size = s.tree.size) : s.Fills s₁ := by
  intro i hi hi'
  omega

/-- The state in which the record of a new node has been begun. -/
def opened (s : ReaderState) (sequence : Int) (line : Nat) : ReaderState :=
  ⟨s.input, s.tree.push ⟨line, .pending⟩, (sequence, s.tree.size) :: s.objects⟩

/-- Beginning a record appends its node. -/
theorem extends_opened (s : ReaderState) (sequence : Int) (line : Nat) :
    s.Extends (s.opened sequence line) where
  toExtends := .push s.tree _
  objects := List.suffix_cons _ _
  registered := by simp [opened]

/-- The state in which the content of a node has been filled in. -/
def completed (s : ReaderState) (id : NodeId) (d : NodeData) : ReaderState :=
  ⟨s.input, s.tree.setData id d, s.objects⟩

/-- Completing a node adds none. -/
@[simp] theorem size_completed (s : ReaderState) (id : NodeId) (d : NodeData) :
    (s.completed id d).tree.size = s.tree.size :=
  Tree.size_setData ..

/-- Filling in the node of a record changes nothing that was there before the record. -/
theorem Extends.completed {sequence : Int} {line : Nat} (h : s.Extends (s.opened sequence line))
    (h' : (s.opened sequence line).Extends s₂) (d : NodeData) :
    s.Extends (s₂.completed s.tree.size d) := by
  have hall := h.trans h'
  refine ⟨hall.toExtends.update (Nat.le_refl _) fun _ => d, hall.objects, ?_⟩
  rw [size_completed]
  exact hall.registered

/-- A record whose content is filled in leaves no new node incomplete. -/
theorem Fills.completed {sequence : Int} {line : Nat} {d : NodeData}
    (h : (s.opened sequence line).Fills s₂) (h' : (s.opened sequence line).Extends s₂)
    (hd : d ≠ .pending) : s.Fills (s₂.completed s.tree.size d) := by
  have hsize : (s.opened sequence line).tree.size = s.tree.size + 1 := Tree.size_push ..
  have hle := h'.size_le
  intro i hi hi'
  rw [size_completed] at hi'
  have hlt : s.tree.size < s₂.tree.size := by omega
  have hdata := Tree.data_setData d hlt i
  by_cases hid : i = s.tree.size
  · rw [if_pos hid] at hdata
    exact fun hp => hd (hdata.symm.trans hp)
  · rw [if_neg hid] at hdata
    have hpos : s.tree.size < i := Nat.lt_of_le_of_ne hi (Ne.symm hid)
    exact fun hp => h i (by omega) hi' (hdata.symm.trans hp)

end ReaderState

/-- The action only reads on, and leaves no new node incomplete when it succeeds. -/
def Reader.Grows {α : Type} (m : Reader α) : Prop := ∀ s,
  match m s with
  | .ok _ s' => s.Extends s' ∧ s.Fills s'
  | .error _ s' => s.Extends s'

namespace Reader

variable {α β : Type}

/-- A successful action has read on. -/
theorem Grows.of_ok {m : Reader α} (h : m.Grows) {s s' : ReaderState} {a : α}
    (hm : m s = .ok a s') : s.Extends s' ∧ s.Fills s' := by
  have hs := h s
  rw [hm] at hs
  exact hs

/-- A failed action has read on, too. -/
theorem Grows.of_error {m : Reader α} (h : m.Grows) {s s' : ReaderState} {e : Error}
    (hm : m s = .error e s') : s.Extends s' := by
  have hs := h s
  rw [hm] at hs
  exact hs

/-- Actions one after the other only read on. -/
theorem Grows.bind {m : Reader α} {f : α → Reader β} (hm : m.Grows) (hf : ∀ a, (f a).Grows) :
    (m >>= f).Grows := by
  intro s
  cases h : m s with
  | error e s₁ =>
    rw [bind_of_error h]
    exact hm.of_error h
  | ok a s₁ =>
    obtain ⟨he, hc⟩ := hm.of_ok h
    rw [bind_of_ok h]
    cases h' : f a s₁ with
    | error e s₂ => exact he.trans ((hf a).of_error h')
    | ok b s₂ =>
      obtain ⟨he', hc'⟩ := (hf a).of_ok h'
      exact ⟨he.trans he', hc.trans he' hc'⟩

/-- An action that leaves tree and table alone only reads on. -/
theorem Grows.of_still {m : Reader α}
    (h : ∀ s, match m s with
      | .ok _ s' => s'.tree = s.tree ∧ s'.objects = s.objects
      | .error _ s' => s'.tree = s.tree ∧ s'.objects = s.objects) : m.Grows := by
  intro s
  have hs := h s
  cases hm : m s with
  | ok a s' =>
    rw [hm] at hs
    exact ⟨.of_eq hs.1 hs.2, .of_size (by rw [hs.1])⟩
  | error e s' =>
    rw [hm] at hs
    exact .of_eq hs.1 hs.2

/-- Giving a value back changes nothing. -/
theorem pure_grows (a : α) : (pure a : Reader α).Grows := .of_still fun _ => ⟨rfl, rfl⟩

/-- A failure changes nothing. -/
theorem throw_grows (e : Error) : (throw e : Reader α).Grows := .of_still fun _ => ⟨rfl, rfl⟩

/-- Looking at the state changes nothing. -/
theorem get_grows : (get : Reader ReaderState).Grows := .of_still fun _ => ⟨rfl, rfl⟩

/-- A primitive value is read without touching the tree. -/
theorem take_grows (d : Decoder α) : (take d).Grows := by
  refine .of_still fun s => ?_
  rw [take]
  cases d s.input with
  | ok a input => exact ⟨rfl, rfl⟩
  | error e input => exact ⟨rfl, rfl⟩

/-- A number that is free gets the next node. -/
theorem register_of_fresh {s : ReaderState} {sequence : Int} (line : Nat)
    (h : s.objects.lookup sequence = none) :
    register sequence line s = .ok s.tree.size (s.opened sequence line) := by
  rw [register, h]
  rfl

/-- A number that is taken is refused, after its node has been appended. -/
theorem register_of_known {s : ReaderState} {sequence : Int} {id : NodeId} (line : Nat)
    (h : s.objects.lookup sequence = some id) :
    register sequence line s =
      .error (.protocol (.reusedNumber sequence)) (s.opened sequence line) := by
  rw [register, h]
  rfl

/-- A node that has been registered is the next of the tree, under a number that was free. -/
theorem register_eq_ok {s s' : ReaderState} {sequence : Int} {line : Nat} {id : NodeId}
    (h : register sequence line s = .ok id s') :
    s.objects.lookup sequence = none ∧ id = s.tree.size ∧ s' = s.opened sequence line := by
  cases hlookup : s.objects.lookup sequence with
  | none =>
    rw [register_of_fresh line hlookup] at h
    cases h
    exact ⟨rfl, rfl, rfl⟩
  | some i =>
    rw [register_of_known line hlookup] at h
    cases h

/-- The content of a node is built from the fields in the layout of its kind. -/
theorem takeData_eq_ok {readLink : Reader (Option NodeId)} {kind : Kind} {s s' : ReaderState}
    {d : NodeData} (h : takeData readLink kind s = .ok d s') :
    ∃ (layout : Layout) (p : Payload layout.shapes), kind.layout? = some layout ∧
      takePayload readLink layout.shapes s = .ok p s' ∧ d = layout.build p := by
  unfold takeData at h
  cases hl : kind.layout? with
  | none =>
    rw [hl] at h
    cases h
  | some layout =>
    rw [hl] at h
    obtain ⟨p, s₁, hp, h₁⟩ := bind_eq_ok.mp h
    obtain ⟨rfl, rfl⟩ := pure_eq_ok.mp h₁
    exact ⟨layout, p, rfl, hp, rfl⟩

/-- Nodes built from the fields of a record are not pending. -/
theorem takeData_ne_pending {readLink : Reader (Option NodeId)} {kind : Kind}
    {s s' : ReaderState} {d : NodeData} (h : takeData readLink kind s = .ok d s') :
    d ≠ .pending := by
  obtain ⟨layout, p, hl, -, rfl⟩ := takeData_eq_ok h
  exact Layout.build_ne_pending hl p

/-- The fields of a kind give a node of that kind. -/
theorem kind_of_takeData {readLink : Reader (Option NodeId)} {kind : Kind} {s s' : ReaderState}
    {d : NodeData} (h : takeData readLink kind s = .ok d s') : d.kind = kind := by
  obtain ⟨layout, p, hl, -, rfl⟩ := takeData_eq_ok h
  exact Layout.kind_build hl p

/-- A record adds its own node in front of those of its fields. -/
theorem takeRecord_grows {readLink : Reader (Option NodeId)} {kind : Kind} {layout : Layout}
    (hlayout : kind.layout? = some layout) (hfields : (takePayload readLink layout.shapes).Grows)
    (sequence : Int) (line : Nat) : (takeRecord readLink layout sequence line).Grows := by
  intro s
  have hopen := s.extends_opened sequence line
  unfold takeRecord
  cases hseq : s.objects.lookup sequence with
  | some _ =>
    rw [bind_of_error (register_of_known line hseq)]
    exact hopen
  | none =>
    rw [bind_of_ok (register_of_fresh line hseq)]
    cases hp : takePayload readLink layout.shapes (s.opened sequence line) with
    | error e s₂ =>
      rw [bind_of_error hp]
      exact hopen.trans (hfields.of_error hp)
    | ok p s₂ =>
      obtain ⟨he, hf⟩ := hfields.of_ok hp
      rw [bind_of_ok hp]
      exact ⟨hopen.completed he _, hf.completed he (Layout.build_ne_pending hlayout p)⟩

/-- Every step of reading an object only reads on. -/
theorem grows_frame : ObjectFrame fun _ x _ => x.Grows where
  toFieldFrame := .of_bind pure_grows (fun hx hf => hx.bind hf) (fun _ => take_grows _)
    (fun _ => throw_grows _) fun ids => get_grows.bind fun s => by
      cases declarationList s.tree {} ids with
      | ok list => exact pure_grows list
      | error e => exact throw_grows e
  ended := throw_grows _
  known sequence := get_grows.bind fun s => by
    cases s.objects.lookup sequence with
    | none => exact throw_grows _
    | some id => exact pure_grows _
  record hlayout hfields := takeRecord_grows hlayout hfields

/-- Reading the content of a node only reads on. -/
theorem takeData_grows {readLink : Reader (Option NodeId)} (hlink : readLink.Grows)
    (kind : Kind) : (takeData readLink kind).Grows := by
  unfold takeData
  cases kind.layout? with
  | none => exact throw_grows _
  | some layout =>
    exact (grows_frame.takePayload (y := readLink) hlink layout.shapes).bind fun p => pure_grows _

/-- Reading an object only appends nodes, however many records may be open at a time. -/
theorem objectWithin_grows (depth : Nat) : (objectWithin depth).Grows :=
  grows_frame.objectWithin depth

/-- Reading an object only appends nodes. -/
theorem object_grows : object.Grows := fun s => objectWithin_grows s.input.length s

/-- Reading an object behind its tag only appends nodes. -/
theorem tagged_grows (kind : Kind) : (tagged kind).Grows := fun s =>
  grows_frame.takeTagged (y := objectWithin s.input.length) (objectWithin_grows _) kind s

end Reader

end Simula
