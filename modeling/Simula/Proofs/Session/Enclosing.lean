import Simula.Proofs.Effects
import Simula.Proofs.Graph.Reachability
import Simula.Proofs.Identifier
import Simula.Proofs.ObjectStream.Record
import Simula.Proofs.Tree.Nodes
import Simula.Session

/-!
# A block around a loaded module

Before a loaded module is checked again, it is declared in a new block behind its external
declarations. Declaring a node gives it its stored spelling and its scope, appends it to the list of
the scope and changes nothing else.
-/

namespace Simula

/-- A node with an identifier is in the tree. -/
theorem Tree.lt_of_identifier {t : Tree} {id : NodeId} {i : String}
    (h : t.identifier? id = some i) : id < t.size := by
  refine lt_of_data fun hpending => ?_
  rw [identifier?, hpending] at h
  cases h

/-- What declaring a node in a block does: the node gets its stored spelling and its scope and
stands last in the list of the block. -/
theorem Tree.exists_declare {t : Tree} {scope decl : NodeId} {written i : String}
    {s : Option NodeId} {b : Body} (hdecl : t.identifier? decl = some written)
    (hscope : t.data scope = .declaration i s (.block b)) (hne : decl ≠ scope)
    (hfree : b.declarations.find? t.caseRule (t.normalize written) = none) :
    ∃ t', t.declare scope decl = (t', none) ∧ t'.size = t.size ∧ t'.caseRule = t.caseRule ∧
      t'.data scope = .declaration i s (.block { b with
        declarations := ⟨b.declarations.entries.push (t.normalize written, decl)⟩ }) ∧
      t'.data decl =
        ((t.data decl).withIdentifier (t.normalize written)).withDeclaredIn (some scope) ∧
      ∀ id, id ≠ scope → id ≠ decl → t'.data id = t.data id := by
  have hdeclared : decl < t.size := lt_of_identifier hdecl
  have hlt : scope < t.size := lt_of_data (by simp [hscope])
  have hinsert : b.declarations.insert? t.caseRule (t.normalize written) decl =
      some ⟨b.declarations.entries.push (t.normalize written, decl)⟩ := by
    simp [DeclarationList.insert?, hfree]
  generalize hnamed : t.update decl
    (fun d => (d.withIdentifier (t.normalize written)).withDeclaredIn (some scope)) = t₁
  have hsize : t₁.size = t.size := by simp [← hnamed]
  have hscope₁ : t₁.data scope = .declaration i s (.block b) := by
    rw [← hnamed, data_update_of_ne _ (Ne.symm hne), hscope]
  refine ⟨t₁.update scope fun d => d.modifyBody fun body =>
    { body with declarations := ⟨b.declarations.entries.push (t.normalize written, decl)⟩ },
    ?_, ?_, ?_, ?_, ?_, ?_⟩
  · have hrule : t₁.caseRule = t.caseRule := by rw [← hnamed, caseRule_update]
    have hlist : (t₁.data scope).declarations? = some b.declarations := by
      rw [hscope₁]
      rfl
    simp only [declare, hdecl, hnamed, hlist, hrule, hinsert]
  · simp [hsize]
  · simp [← hnamed]
  · rw [data_update_self _ (hsize ▸ hlt), hscope₁]
    rfl
  · rw [data_update_of_ne _ hne, ← hnamed, data_update_self _ hdeclared]
  · intro id hid hid'
    rw [data_update_of_ne _ hid, ← hnamed, data_update_of_ne _ hid']

/-- The tree with an empty block behind its nodes. -/
def Tree.withLibrary (t : Tree) : Tree := t.push ⟨0, .declaration "library" none (.block {})⟩

/-- The block is one node more. -/
@[simp] theorem Tree.size_withLibrary (t : Tree) : t.withLibrary.size = t.size + 1 := size_push ..

/-- The block leaves the case rule. -/
@[simp] theorem Tree.caseRule_withLibrary (t : Tree) : t.withLibrary.caseRule = t.caseRule :=
  caseRule_push ..

/-- The block is empty. -/
theorem Tree.data_withLibrary (t : Tree) :
    t.withLibrary.data t.size = .declaration "library" none (.block {}) := by
  rw [withLibrary, data_push, if_pos rfl]

/-- The nodes before the block stay as they are. -/
theorem Tree.data_withLibrary_of_lt {t : Tree} {id : NodeId} (h : id < t.size) :
    t.withLibrary.data id = t.data id := by
  rw [withLibrary, data_push, if_neg (Nat.ne_of_lt h)]

/-- Neither the identifier nor the scope of a node shows in what is below it. -/
theorem NodeData.children_withDeclaredIn (i : String) (s : Option NodeId) (d : NodeData) :
    ((d.withIdentifier i).withDeclaredIn s).children = d.children := by
  rcases d with _ | ⟨_, _, form⟩ | _ | _ | ⟨form, _⟩
  case expression => cases form <;> rfl
  all_goals rfl

/-- The spelling under which a node is declared. -/
def Tree.spelling (t : Tree) (id : NodeId) : String := t.normalize ((t.identifier? id).getD "")

/-- Different identifiers have different spellings. -/
theorem Tree.DistinctNames.spelling_ne {t : Tree} {a b : NodeId} (h : t.DistinctNames a b)
    (ha : (t.identifier? a).isSome) (hb : (t.identifier? b).isSome) :
    t.spelling a ≠ t.spelling b := by
  obtain ⟨i, hi⟩ := Option.isSome_iff_exists.mp ha
  obtain ⟨j, hj⟩ := Option.isSome_iff_exists.mp hb
  have hne := h i hi j hj
  simpa [spelling, hi, hj, normalize, sameIdentifier, CaseRule.same] using hne

/-- The later tree has a block behind the nodes of the earlier one, in which some of these are
declared. -/
structure Tree.Enclosed (t t' : Tree) (ids : List NodeId) : Prop where
  lt_size : ∀ id ∈ ids, id < t.size
  size : t'.size = t.size + 1
  caseRule : t'.caseRule = t.caseRule
  block : t'.data t.size = .declaration "library" none
    (.block { declarations := ⟨(ids.map fun id => (t.spelling id, id)).toArray⟩ })
  declared : ∀ id ∈ ids, t'.data id =
    ((t.data id).withIdentifier (t.spelling id)).withDeclaredIn (some t.size)
  other : ∀ id < t.size, id ∉ ids → t'.data id = t.data id

namespace Tree.Enclosed

variable {t t' : Tree} {ids : List NodeId}

/-- An empty block encloses nothing. -/
theorem nil (t : Tree) : t.Enclosed t.withLibrary [] where
  lt_size := nofun
  size := t.size_withLibrary
  caseRule := t.caseRule_withLibrary
  block := t.data_withLibrary
  declared := nofun
  other _ hid _ := data_withLibrary_of_lt hid

/-- Behind the block a node shows the same, apart from its identifier and its scope. -/
theorem keeps {β : Type} {view : NodeData → β} (h : t.Enclosed t' ids)
    (hview : ∀ i s d, view ((d.withIdentifier i).withDeclaredIn s) = view d) :
    t.Keeps view t' where
  size_le := h.size ▸ Nat.le_succ _
  same id hid := by
    by_cases hmem : id ∈ ids
    · rw [h.declared id hmem, hview]
    · rw [h.other id hid hmem]

/-- The block has what is declared in it below it. -/
theorem children_block (h : t.Enclosed t' ids) : t'.children t.size = ids := by
  rw [children, h.block]
  simp [NodeData.children, Declaration.children, Body.children, DeclarationList.nodes,
    Function.comp_def]

/-- From the block a traversal comes to what is declared there. It stays among the last nodes and the
declared ones if nothing else is below the last nodes, and nothing at all below the others. -/
theorem inside_of_reaches (h : t.Enclosed t' ids) {first : Nat}
    (hids : ∀ id ∈ ids, first ≤ id ∨ t.children id = [])
    (hclosed : ∀ id, first ≤ id → id < t.size → ∀ c ∈ t.children id,
      c ∈ ids ∨ (first ≤ c ∧ c < t.size)) {n : NodeId}
    (hn : Graph.Reaches t'.size t'.children [t.size] n) :
    n = t.size ∨ n ∈ ids ∨ (first ≤ n ∧ n < t.size) := by
  have hchildren : ∀ n < t.size, t'.children n = t.children n :=
    (h.keeps NodeData.children_withDeclaredIn).same
  induction hn with
  | root hn _ => exact .inl (List.mem_singleton.mp hn)
  | @step n c _ hc _ ih =>
    rcases ih with rfl | hmem | ⟨hlow, hhigh⟩
    · rw [h.children_block] at hc
      exact .inr (.inl hc)
    · have hlt := h.lt_size n hmem
      rw [hchildren n hlt] at hc
      rcases hids n hmem with hlow | hnone
      · exact .inr (hclosed n hlow hlt c hc)
      · rw [hnone] at hc
        cases hc
    · rw [hchildren n hhigh] at hc
      exact .inr (hclosed n hlow hhigh c hc)

/-- One node more can be declared in the block if its spelling is still free. -/
theorem exists_declare (h : t.Enclosed t' ids) {id : NodeId} (hnamed : (t.identifier? id).isSome)
    (hnew : ∀ x ∈ ids, t.spelling x ≠ t.spelling id) :
    ∃ t'', t'.declare t.size id = (t'', none) ∧ t.Enclosed t'' (ids ++ [id]) := by
  obtain ⟨i, hi⟩ := Option.isSome_iff_exists.mp hnamed
  have hlt : id < t.size := lt_of_identifier hi
  have hid : id ∉ ids := fun hmem => hnew id hmem rfl
  have hdata : t'.data id = t.data id := h.other id hlt hid
  have hi' : t'.identifier? id = some i := by rw [identifier?, hdata]; exact hi
  have hspelling : t'.normalize i = t.spelling id := by
    rw [spelling, hi, normalize, h.caseRule]
    rfl
  have hfree : DeclarationList.find? ⟨(ids.map fun id => (t.spelling id, id)).toArray⟩ t'.caseRule
      (t'.normalize i) = none := by
    rw [hspelling, h.caseRule]
    simpa [DeclarationList.find?, CaseRule.same, spelling, normalize] using hnew
  obtain ⟨t'', hdeclare, hsize, hrule, hblock, hdecl, hold⟩ :=
    Tree.exists_declare hi' h.block (Nat.ne_of_lt hlt) hfree
  refine ⟨t'', hdeclare, fun x hx => ?_, hsize.trans h.size, hrule.trans h.caseRule, ?_,
    fun x hx => ?_, fun x hx hx' => ?_⟩
  · exact (List.mem_append.mp hx).elim (h.lt_size x) fun hx => List.mem_singleton.mp hx ▸ hlt
  · rw [hblock, hspelling]
    simp
  · rcases List.mem_append.mp hx with hx | hx
    · have hne : x ≠ id := fun heq => hid (heq ▸ hx)
      rw [hold x (Nat.ne_of_lt (h.lt_size x hx)) hne, h.declared x hx]
    · obtain rfl := List.mem_singleton.mp hx
      rw [hdecl, hdata, hspelling]
  · rw [List.mem_append, List.mem_singleton, not_or] at hx'
    rw [hold x (Nat.ne_of_lt hx) hx'.2, h.other x hx hx'.1]

end Tree.Enclosed

namespace Session

/-- A module passes the check of a session if no error has been reported in the end. -/
theorem check_eq_ok {s : Session} {t : Tree} {module : NodeId} {c : Compilation} :
    check module ⟨s, t⟩ = .ok () c ↔ ∃ r, CheckM.check module ⟨t, s.diagnostics⟩ = .ok () r ∧
      r.diagnostics.errorCount = 0 ∧ c = ⟨{ s with diagnostics := r.diagnostics }, r.tree⟩ := by
  rw [check]
  cases hrun : CheckM.check module ⟨t, s.diagnostics⟩ with
  | error e r =>
    have hchecking : checking (CheckM.check module) ⟨s, t⟩ =
        .error e ⟨{ s with diagnostics := r.diagnostics }, r.tree⟩ := by
      simp only [checking, hrun]
    rw [bind_of_error hchecking]
    simp
  | ok a r =>
    have hchecking : checking (CheckM.check module) ⟨s, t⟩ =
        .ok a ⟨{ s with diagnostics := r.diagnostics }, r.tree⟩ := by
      simp only [checking, hrun]
    rw [bind_of_ok hchecking, bind_of_ok (get_apply _)]
    by_cases herrors : r.diagnostics.errorCount = 0
    · rw [if_neg (by simp [herrors]), pure_eq_ok]
      simp [herrors, eq_comm]
    · rw [if_pos (Nat.pos_of_ne_zero herrors)]
      simp [herrors]

/-- Declaring nodes goes on behind one that is not left out. -/
theorem declareAll_cons_of_none {scope id : NodeId} {c : Compilation} {t : Tree}
    (h : c.tree.declare scope id = (t, none)) (ids : List NodeId) :
    declareAll scope (id :: ids) c = declareAll scope ids ⟨c.session, t⟩ := by
  have hdeclare : declare scope id c = .ok true ⟨c.session, t⟩ := by
    obtain ⟨s, tree⟩ := c
    simp only [declare, h]
  have hdiscard : (discard (declare scope id) : SessionM Unit) c = .ok () ⟨c.session, t⟩ := by
    change EStateM.map _ (declare scope id) c = _
    rw [EStateM.map, hdeclare]
  rw [declareAll, bind_of_ok hdiscard]

/-- A module is enclosed if its external declarations and itself can be declared in a new block. -/
theorem enclose_of_declareAll {c : Compilation} {m : LoadedModule} {t : Tree}
    (h : declareAll c.tree.size (m.externals ++ [m.module]) { c with tree := c.tree.withLibrary } =
      .ok () ⟨c.session, t⟩) : enclose m c = .ok c.tree.size ⟨c.session, t⟩ := by
  rw [enclose, bind_of_ok (get_apply c), bind_of_ok (modify_apply _ _)]
  exact bind_of_ok h

/-- Nodes with different identifiers are declared in a block one after the other. -/
theorem exists_declareAll {s : Session} {t t' : Tree} {ids rest : List NodeId}
    (h : t.Enclosed t' ids) (hrest : t.Declarable [] (ids ++ rest)) :
    ∃ t'', declareAll t.size rest ⟨s, t'⟩ = .ok () ⟨s, t''⟩ ∧
      t.Enclosed t'' (ids ++ rest) := by
  induction rest generalizing t' ids with
  | nil => exact ⟨t', rfl, by rwa [List.append_nil]⟩
  | cons id rest ih =>
    have hnamed := hrest.named id (by simp)
    have hnew : ∀ x ∈ ids, t.spelling x ≠ t.spelling id := fun x hx =>
      ((List.pairwise_append.mp hrest.distinct).2.2 x hx id List.mem_cons_self).spelling_ne
        (hrest.named x (List.mem_append_left _ hx)) hnamed
    obtain ⟨t₁, hdeclare, h₁⟩ := h.exists_declare hnamed hnew
    have hcons : ids ++ id :: rest = ids ++ [id] ++ rest := by simp
    obtain ⟨t₂, hall, h₂⟩ := ih h₁ (hcons ▸ hrest)
    refine ⟨t₂, ?_, hcons ▸ h₂⟩
    rw [declareAll_cons_of_none (c := ⟨s, t'⟩) hdeclare]
    exact hall

/-- A module whose identifier differs from those of its external declarations, which differ from each
other, can be enclosed with them. -/
theorem exists_enclose {c : Compilation} {m : LoadedModule}
    (h : c.tree.Declarable [] (m.externals ++ [m.module])) :
    ∃ t, enclose m c = .ok c.tree.size ⟨c.session, t⟩ ∧
      c.tree.Enclosed t (m.externals ++ [m.module]) := by
  rw [← List.nil_append (m.externals ++ [m.module])] at h
  obtain ⟨t, hall, henclosed⟩ := exists_declareAll (s := c.session) (.nil c.tree) h
  rw [List.nil_append] at henclosed
  exact ⟨t, enclose_of_declareAll hall, henclosed⟩

end Session

end Simula
