import Mathlib.Data.List.Perm.Subperm
import Simula.Proofs.ObjectStream.Record
import Simula.Proofs.Tree.Nodes

/-!
# The records that a writer opens

A node is written in full where it is met first, inside the records of the nodes that led to it.
The openings list the nodes written in full, in order, each with the nodes whose records are
still open around it. They depend on the tree and the detached nodes alone, so they say what a
stream holds without a look at its bytes.
-/

namespace Simula

/-- A record written in full. -/
structure Opening where
  node : NodeId
  /-- The nodes whose records are open around it, the innermost first. -/
  around : List NodeId
  deriving DecidableEq, Repr

/-- The openings of nodes written one after the other, where `openOne` tells those of one node
after the openings before it. -/
def openAll (openOne : List Opening → NodeId → List Opening) :
    List Opening → List NodeId → List Opening
  | _, [] => []
  | seen, id :: ids => openOne seen id ++ openAll openOne (seen ++ openOne seen id) ids

/-- Nodes written in two parts have the openings of the first part and then those of the second. -/
theorem openAll_append (openOne : List Opening → NodeId → List Opening) (seen : List Opening)
    (ids ids' : List NodeId) :
    openAll openOne seen (ids ++ ids') =
      openAll openOne seen ids ++ openAll openOne (seen ++ openAll openOne seen ids) ids' := by
  induction ids generalizing seen with
  | nil => simp [openAll]
  | cons id ids ih => simp [openAll, ih]

/-- Each of the openings is one of some node. -/
theorem exists_of_mem_openAll {openOne : List Opening → NodeId → List Opening}
    {seen : List Opening} {ids : List NodeId} {o : Opening} (h : o ∈ openAll openOne seen ids) :
    ∃ seen' id, o ∈ openOne seen' id := by
  induction ids generalizing seen with
  | nil => cases h
  | cons id ids ih => exact (List.mem_append.mp h).elim (fun h => ⟨seen, id, h⟩) fun h => ih h

/-- The openings of one node. -/
theorem openAll_singleton (openOne : List Opening → NodeId → List Opening) (seen : List Opening)
    (id : NodeId) : openAll openOne seen [id] = openOne seen id := by
  simp [openAll]

namespace Tree

variable (t : Tree) (detached : List NodeId)

/-- The openings of a node met inside the records of `around` after the openings in `seen`, with
at most `depth` records open inside its own. -/
def openFrom : Nat → List NodeId → List Opening → NodeId → List Opening
  | 0, around, seen, id =>
    if id ∈ detached ∨ id ∈ seen.map (·.node) then [] else [⟨id, around⟩]
  | depth + 1, around, seen, id =>
    if id ∈ detached ∨ id ∈ seen.map (·.node) then []
    else
      ⟨id, around⟩ ::
        openAll (openFrom depth (id :: around)) (seen ++ [⟨id, around⟩]) (t.data id).links

/-- The openings of objects written one after the other. -/
def openings (roots : List (Option NodeId)) : List Opening :=
  openAll (t.openFrom detached t.size []) [] (roots.filterMap id)

variable {t detached}

/-- A node that is detached or was met before opens nothing. -/
theorem openFrom_of_known {depth : Nat} {around : List NodeId} {seen : List Opening} {id : NodeId}
    (h : id ∈ detached ∨ id ∈ seen.map (·.node)) :
    t.openFrom detached depth around seen id = [] := by
  cases depth <;> rw [openFrom, if_pos h]

/-- A node that is met for the first time opens its own record and those of its links. -/
theorem openFrom_of_new {around : List NodeId} {seen : List Opening} {id : NodeId} (depth : Nat)
    (h : ¬ (id ∈ detached ∨ id ∈ seen.map (·.node))) :
    t.openFrom detached (depth + 1) around seen id =
      ⟨id, around⟩ :: openAll (t.openFrom detached depth (id :: around))
        (seen ++ [⟨id, around⟩]) (t.data id).links := by
  rw [openFrom, if_neg h]

/-- Records are opened for attached nodes only. -/
theorem notMem_detached_of_openFrom {depth : Nat} {around : List NodeId} {seen : List Opening}
    {id : NodeId} {o : Opening} (ho : o ∈ t.openFrom detached depth around seen id) :
    o.node ∉ detached := by
  by_cases hknown : id ∈ detached ∨ id ∈ seen.map (·.node)
  · rw [openFrom_of_known hknown] at ho
    cases ho
  have hattached : id ∉ detached := fun h => hknown (.inl h)
  induction depth generalizing around seen id with
  | zero =>
    rw [openFrom, if_neg hknown, List.mem_singleton] at ho
    rw [ho]
    exact hattached
  | succ depth ih =>
    rw [openFrom_of_new _ hknown, List.mem_cons] at ho
    rcases ho with rfl | ho
    · exact hattached
    · obtain ⟨seen', x, hx⟩ := exists_of_mem_openAll ho
      by_cases hknown' : x ∈ detached ∨ x ∈ seen'.map (·.node)
      · rw [openFrom_of_known hknown'] at hx
        cases hx
      · exact ih hx hknown' fun h => hknown' (.inl h)

/-- A node that has been written is detached or has an opening. -/
theorem mem_openFrom (depth : Nat) (around : List NodeId) (seen : List Opening) (id : NodeId) :
    id ∈ detached ∨ id ∈ (seen ++ t.openFrom detached depth around seen id).map (·.node) := by
  by_cases h : id ∈ detached ∨ id ∈ seen.map (·.node)
  · rw [openFrom_of_known h, List.append_nil]
    exact h
  · refine .inr ?_
    rw [List.map_append]
    refine List.mem_append_right _ ?_
    cases depth <;> simp only [openFrom, if_neg h, List.map_cons, List.mem_cons, true_or]

end Tree

/-- Nodes that have been written one after the other are detached or have openings. -/
theorem mem_openAll {detached : List NodeId} {openOne : List Opening → NodeId → List Opening}
    (h : ∀ seen id, id ∈ detached ∨ id ∈ (seen ++ openOne seen id).map (·.node))
    {ids : List NodeId} {id : NodeId} (hid : id ∈ ids) (seen : List Opening) :
    id ∈ detached ∨ id ∈ (seen ++ openAll openOne seen ids).map (·.node) := by
  induction ids generalizing seen with
  | nil => cases hid
  | cons i ids ih =>
    rw [openAll, ← List.append_assoc]
    rcases List.mem_cons.mp hid with rfl | hid
    · refine (h seen id).imp_right fun hmem => ?_
      rw [List.map_append]
      exact List.mem_append_left _ hmem
    · exact ih hid _

/-- Every link from these openings leads to a detached node, to an opening or to one in `seen`. -/
def Tree.ClosedBehind (t : Tree) (detached : List NodeId) (seen news : List Opening) : Prop :=
  ∀ o ∈ news, ∀ id ∈ (t.data o.node).links, id ∈ detached ∨ id ∈ (seen ++ news).map (·.node)

/-- The openings of nodes written one after the other are closed if those of each are. -/
theorem openAll_closed {t : Tree} {detached : List NodeId}
    {openOne : List Opening → NodeId → List Opening} (around : List NodeId)
    (h : ∀ seen id, (∀ a ∈ around, a ∈ seen.map (·.node)) →
      t.ClosedBehind detached seen (openOne seen id))
    {ids : List NodeId} {seen : List Opening} (hseen : ∀ a ∈ around, a ∈ seen.map (·.node)) :
    t.ClosedBehind detached seen (openAll openOne seen ids) := by
  induction ids generalizing seen with
  | nil => exact fun o ho => nomatch ho
  | cons i ids ih =>
    have hfirst := h seen i hseen
    have hseen' : ∀ a ∈ around, a ∈ (seen ++ openOne seen i).map (·.node) := by
      intro a ha
      rw [List.map_append]
      exact List.mem_append_left _ (hseen a ha)
    have hrest := ih hseen'
    intro o ho id hid
    rw [openAll, ← List.append_assoc]
    rcases List.mem_append.mp ho with ho | ho
    · refine (hfirst o ho id hid).imp_right fun hmem => ?_
      rw [List.map_append]
      exact List.mem_append_left _ hmem
    · exact hrest o ho id hid

/-- Inside the records of all nodes of a tree there is none left that could be opened. -/
theorem Tree.links_eq_nil_of_around {t : Tree} {around : List NodeId} {id : NodeId}
    (hlength : t.size ≤ around.length) (hnodup : around.Nodup) (hrange : ∀ a ∈ around, a < t.size)
    (hid : id ∉ around) : (t.data id).links = [] := by
  have hbeyond : t.size ≤ id := by
    by_cases hlt : id < t.size
    · have hall : ∀ a ∈ id :: around, a < t.size := List.forall_mem_cons.mpr ⟨hlt, hrange⟩
      have hsub : id :: around ⊆ List.range t.size := fun a ha => List.mem_range.mpr (hall a ha)
      have hle := (List.subperm_of_subset (List.nodup_cons.mpr ⟨hid, hnodup⟩) hsub).length_le
      rw [List.length_cons, List.length_range] at hle
      omega
    · exact Nat.le_of_not_lt hlt
  rw [data_of_size_le hbeyond]
  rfl

/-- The openings of a node are closed; no record is left out for want of depth. -/
theorem Tree.openFrom_closed {t : Tree} {detached : List NodeId} (depth : Nat)
    {around : List NodeId} (hlength : depth + around.length = t.size) (hnodup : around.Nodup)
    (hrange : ∀ a ∈ around, a < t.size) (seen : List Opening) (id : NodeId)
    (hseen : ∀ a ∈ around, a ∈ seen.map (·.node)) :
    t.ClosedBehind detached seen (t.openFrom detached depth around seen id) := by
  induction depth generalizing around seen id with
  | zero =>
    by_cases hknown : id ∈ detached ∨ id ∈ seen.map (·.node)
    · rw [openFrom_of_known hknown]
      exact fun o ho => nomatch ho
    have hnone := links_eq_nil_of_around (by omega) hnodup hrange fun h =>
      hknown (.inr (hseen id h))
    rw [openFrom, if_neg hknown]
    intro o ho x hx
    obtain rfl := List.mem_singleton.mp ho
    rw [hnone] at hx
    cases hx
  | succ depth ih =>
    by_cases hknown : id ∈ detached ∨ id ∈ seen.map (·.node)
    · rw [openFrom_of_known hknown]
      exact fun o ho => nomatch ho
    rw [openFrom_of_new _ hknown]
    by_cases hid : id < t.size
    · have hinside : t.ClosedBehind detached (seen ++ [⟨id, around⟩])
          (openAll (t.openFrom detached depth (id :: around)) (seen ++ [⟨id, around⟩])
            (t.data id).links) := by
        refine openAll_closed (id :: around) (fun seen x => ?_) ?_
        · refine ih ?_ ?_ ?_ seen x
          · rw [List.length_cons]
            omega
          · exact List.nodup_cons.mpr ⟨fun h => hknown (.inr (hseen id h)), hnodup⟩
          · exact List.forall_mem_cons.mpr ⟨hid, hrange⟩
        · rw [List.map_append, List.forall_mem_cons]
          exact ⟨List.mem_append_right _ (List.mem_singleton_self id), fun a ha =>
            List.mem_append_left _ (hseen a ha)⟩
      intro o ho x hx
      rw [List.append_cons]
      rcases List.mem_cons.mp ho with rfl | ho
      · exact mem_openAll (fun seen x => mem_openFrom _ _ seen x) hx _
      · exact hinside o ho x hx
    · rw [data_of_size_le (Nat.le_of_not_lt hid)]
      intro o ho x hx
      obtain rfl := List.mem_singleton.mp ho
      rw [data_of_size_le (Nat.le_of_not_lt hid)] at hx
      cases hx

end Simula
