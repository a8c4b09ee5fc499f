import Simula.Tree

/-!
# Nodes of a changing tree

Appending a node leaves the others as they are, and changing one changes only that one. The
lemmas here say so for the nodes themselves, for their content, and for whatever of the content a
view shows.
-/

namespace Simula.Tree

/-- The content of a node that is there. -/
theorem data_of_node {t : Tree} {id : NodeId} {n : Node} (h : t.nodes[id]? = some n) :
    t.data id = n.data := by
  rw [data, h]

/-- The line of a node that is there. -/
theorem line_of_node {t : Tree} {id : NodeId} {n : Node} (h : t.nodes[id]? = some n) :
    t.line id = n.line := by
  rw [line, h]

/-- A node that is there has a number below the size. -/
theorem lt_of_node {t : Tree} {id : NodeId} {n : Node} (h : t.nodes[id]? = some n) : id < t.size :=
  (Array.getElem?_eq_some_iff.mp h).1

/-- A number below the size belongs to the node with that line and content. -/
theorem node_eq {t : Tree} {id : NodeId} (h : id < t.size) :
    t.nodes[id]? = some ⟨t.line id, t.data id⟩ := by
  have hn : t.nodes[id]? = some t.nodes[id] := Array.getElem?_eq_getElem h
  rw [data_of_node hn, line_of_node hn, hn]

/-- A number beyond the tree reads as pending. -/
theorem data_of_size_le {t : Tree} {id : NodeId} (h : t.size ≤ id) : t.data id = .pending := by
  have hn : t.nodes[id]? = none := Array.getElem?_eq_none h
  rw [data, hn]

/-- Only a node that is there has content. -/
theorem lt_of_data {t : Tree} {id : NodeId} (h : t.data id ≠ .pending) : id < t.size := by
  by_cases hid : id < t.size
  · exact hid
  · exact absurd (data_of_size_le (Nat.le_of_not_lt hid)) h

/-- Only a node that is there has a kind. -/
theorem lt_of_kind {t : Tree} {id : NodeId} (h : t.kind id ≠ .null) : id < t.size := by
  refine lt_of_data fun hpending => h ?_
  rw [kind, hpending]
  rfl

/-- A node of a module kind is there. -/
theorem lt_of_isModule {t : Tree} {id : NodeId} (h : (t.kind id).isModule = true) :
    id < t.size := by
  refine lt_of_kind fun hnull => ?_
  rw [hnull] at h
  cases h

/-- Two trees with the same node under a number have the same content there. -/
theorem data_congr {t t' : Tree} {id : NodeId} (h : t'.nodes[id]? = t.nodes[id]?) :
    t'.data id = t.data id := by
  rw [data, data, h]

/-- A new node is counted. -/
@[simp] theorem size_push (t : Tree) (n : Node) : (t.push n).size = t.size + 1 :=
  Array.size_push n

/-- A new node leaves the case rule. -/
@[simp] theorem caseRule_push (t : Tree) (n : Node) : (t.push n).caseRule = t.caseRule := rfl

/-- Changing a node adds none. -/
@[simp] theorem size_update (t : Tree) (id : NodeId) (f : NodeData → NodeData) :
    (t.update id f).size = t.size :=
  Array.size_modify

/-- Changing a node leaves the case rule. -/
@[simp] theorem caseRule_update (t : Tree) (id : NodeId) (f : NodeData → NodeData) :
    (t.update id f).caseRule = t.caseRule := rfl

/-- The nodes after one has been appended. -/
theorem nodes_push (t : Tree) (n : Node) (i : NodeId) :
    (t.push n).nodes[i]? = if i = t.size then some n else t.nodes[i]? :=
  Array.getElem?_push

/-- Appending a node leaves those before it. -/
theorem nodes_push_of_lt {t : Tree} {i : NodeId} (n : Node) (h : i < t.size) :
    (t.push n).nodes[i]? = t.nodes[i]? := by
  rw [nodes_push, if_neg (Nat.ne_of_lt h)]

/-- The nodes after the content of one has changed. -/
theorem nodes_update (t : Tree) (id : NodeId) (f : NodeData → NodeData) (i : NodeId) :
    (t.update id f).nodes[i]? =
      if id = i then t.nodes[i]?.map fun n => { n with data := f n.data } else t.nodes[i]? :=
  Array.getElem?_modify

/-- Changing a node leaves the others. -/
theorem nodes_update_of_ne {t : Tree} {id i : NodeId} (f : NodeData → NodeData) (h : i ≠ id) :
    (t.update id f).nodes[i]? = t.nodes[i]? := by
  rw [nodes_update, if_neg (Ne.symm h)]

/-- The content of the nodes after one has been appended. -/
theorem data_push (t : Tree) (n : Node) (i : NodeId) :
    (t.push n).data i = if i = t.size then n.data else t.data i := by
  by_cases h : i = t.size
  · rw [data, nodes_push, if_pos h, if_pos h]
  · rw [if_neg h]
    exact data_congr (by rw [nodes_push, if_neg h])

/-- The content of a changed node. -/
theorem data_update_self {t : Tree} {id : NodeId} (f : NodeData → NodeData) (h : id < t.size) :
    (t.update id f).data id = f (t.data id) := by
  rw [data, nodes_update, if_pos rfl, node_eq h]
  rfl

/-- Changing a node leaves the content of the others. -/
theorem data_update_of_ne {t : Tree} {id i : NodeId} (f : NodeData → NodeData) (h : i ≠ id) :
    (t.update id f).data i = t.data i :=
  data_congr (nodes_update_of_ne f h)

/-- Changing the content of a node leaves the lines. -/
@[simp] theorem line_update (t : Tree) (id : NodeId) (f : NodeData → NodeData) (i : NodeId) :
    (t.update id f).line i = t.line i := by
  rw [line, line, nodes_update]
  by_cases h : id = i
  · rw [if_pos h]
    cases t.nodes[i]? <;> rfl
  · rw [if_neg h]

/-- A change that does not show in one node shows in none. -/
theorem view_update {β : Type} {view : NodeData → β} (t : Tree) (id : NodeId)
    {f : NodeData → NodeData} (hf : ∀ d, view (f d) = view d) (i : NodeId) :
    view ((t.update id f).data i) = view (t.data i) := by
  by_cases hi : i = id
  · subst hi
    by_cases hlt : i < t.size
    · rw [data_update_self f hlt, hf]
    · have hle : t.size ≤ i := Nat.le_of_not_lt hlt
      rw [data_of_size_le hle, data_of_size_le (by simpa using hle)]
  · rw [data_update_of_ne f hi]

/-- Replacing a node adds none. -/
@[simp] theorem size_setData (t : Tree) (id : NodeId) (d : NodeData) :
    (t.setData id d).size = t.size :=
  size_update ..

/-- Replacing the content of a node leaves the others. -/
theorem nodes_setData_of_ne {t : Tree} {id i : NodeId} (d : NodeData) (h : i ≠ id) :
    (t.setData id d).nodes[i]? = t.nodes[i]? :=
  nodes_update_of_ne _ h

/-- The content of the nodes after that of one has been replaced. -/
theorem data_setData {t : Tree} {id : NodeId} (d : NodeData) (h : id < t.size) (i : NodeId) :
    (t.setData id d).data i = if i = id then d else t.data i := by
  by_cases hi : i = id
  · subst hi
    rw [setData, data_update_self _ h, if_pos rfl]
  · rw [setData, data_update_of_ne _ hi, if_neg hi]

/-- The later tree has all nodes of the earlier one, as they were. -/
structure Extends (t t' : Tree) : Prop where
  caseRule : t'.caseRule = t.caseRule
  size_le : t.size ≤ t'.size
  /-- Nodes that were there stay as they are. -/
  old : ∀ i < t.size, t'.nodes[i]? = t.nodes[i]?

namespace Extends

variable {t t₁ t₂ : Tree}

/-- A tree has all its nodes. -/
theorem refl (t : Tree) : t.Extends t := ⟨rfl, Nat.le_refl _, fun _ _ => rfl⟩

/-- Growing twice is growing. -/
theorem trans (h : t.Extends t₁) (h' : t₁.Extends t₂) : t.Extends t₂ where
  caseRule := h'.caseRule.trans h.caseRule
  size_le := Nat.le_trans h.size_le h'.size_le
  old i hi := (h'.old i (Nat.lt_of_lt_of_le hi h.size_le)).trans (h.old i hi)

/-- Appending a node is growing. -/
theorem push (t : Tree) (n : Node) : t.Extends (t.push n) where
  caseRule := rfl
  size_le := Nat.le_of_lt (by simp)
  old _ hi := nodes_push_of_lt n hi

/-- A node that came later may still be changed. -/
theorem update (h : t.Extends t₁) {id : NodeId} (hid : t.size ≤ id) (f : NodeData → NodeData) :
    t.Extends (t₁.update id f) where
  caseRule := h.caseRule
  size_le := Nat.le_trans h.size_le (Nat.le_of_eq (size_update ..).symm)
  old i hi := (nodes_update_of_ne f (Nat.ne_of_lt (Nat.lt_of_lt_of_le hi hid))).trans (h.old i hi)

/-- A tree that has one node more is the earlier one with that node appended. -/
theorem eq_push (h : t.Extends t₁) {n : Node} (hsize : t₁.size = t.size + 1)
    (hnode : t₁.nodes[t.size]? = some n) : t₁ = t.push n := by
  have hnodes : t₁.nodes = t.nodes.push n := by
    refine Array.ext_getElem? fun i => ?_
    rw [Array.getElem?_push]
    by_cases hi : i = t.nodes.size
    · rw [if_pos hi, hi]
      exact hnode
    rw [if_neg hi]
    by_cases hlt : i < t.size
    · exact h.old i hlt
    · have hle : t.nodes.size ≤ i := Nat.le_of_not_lt hlt
      have hle₁ : t₁.nodes.size ≤ i := by
        change t₁.nodes.size = t.nodes.size + 1 at hsize
        omega
      rw [Array.getElem?_eq_none hle, Array.getElem?_eq_none hle₁]
  obtain ⟨nodes, rule⟩ := t
  obtain ⟨nodes₁, rule₁⟩ := t₁
  obtain rfl : nodes₁ = nodes.push n := hnodes
  obtain rfl : rule₁ = rule := h.caseRule
  rfl

/-- The content of a node that was there. -/
theorem data_eq (h : t.Extends t₁) {id : NodeId} (hid : id < t.size) : t₁.data id = t.data id :=
  data_congr (h.old id hid)

end Extends

/-- Every node of the earlier tree still looks the same in the later one. -/
structure Keeps {β : Type} (view : NodeData → β) (t t' : Tree) : Prop where
  size_le : t.size ≤ t'.size
  same : ∀ id < t.size, view (t'.data id) = view (t.data id)

section

variable {β : Type} {view : NodeData → β} {t t₁ t₂ : Tree}

/-- Nodes that stay as they are look the same. -/
theorem Extends.keeps (h : t.Extends t₁) : t.Keeps view t₁ where
  size_le := h.size_le
  same _ hid := congrArg view (h.data_eq hid)

namespace Keeps

/-- A tree keeps what it shows. -/
theorem refl (t : Tree) : t.Keeps view t := ⟨Nat.le_refl _, fun _ _ => rfl⟩

/-- What two steps keep both keep. -/
theorem trans (h : t.Keeps view t₁) (h' : t₁.Keeps view t₂) : t.Keeps view t₂ where
  size_le := Nat.le_trans h.size_le h'.size_le
  same id hid := (h'.same id (Nat.lt_of_lt_of_le hid h.size_le)).trans (h.same id hid)

/-- Appending a node changes no other. -/
theorem push (t : Tree) (n : Node) : t.Keeps view (t.push n) := (Extends.push t n).keeps

/-- A change that does not show in one node does not show in the tree. -/
theorem update (t : Tree) (id : NodeId) {f : NodeData → NodeData}
    (hf : ∀ d, view (f d) = view d) : t.Keeps view (t.update id f) where
  size_le := by simp
  same i _ := view_update t id hf i

end Keeps

end

end Simula.Tree
