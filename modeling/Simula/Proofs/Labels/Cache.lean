import Simula.Proofs.Check.Frame
import Simula.Proofs.Labels.Numbering

/-!
# Remembered label lists

A scope remembers the list of its labels and those of its prefix classes from the first time it is
asked for. The list is forgotten when the scope itself gets a label, and at no other time. So what a
scope tells later is what counted when the list was computed, even if a prefix class has got labels
since or the prefix chain has changed. It is what counts now, with each label numbered by its
position, as long as what counts for the scope has stayed the same; for procedures and blocks, which
have no prefix, that is always so.
-/

namespace Simula

/-- What decides which labels count for which scope: prefix classes, own labels, and which nodes are
labels. -/
def NodeData.labelling (d : NodeData) : Option (Option NodeId) × List NodeId × Bool :=
  (d.class?.map (·.prefixClass), d.ownLabels, d.labelIndex?.isSome)

/-- What a scope remembers and what index a label has, besides. -/
def NodeData.labelState (d : NodeData) :
    (Option (Option NodeId) × List NodeId × Bool) × Option (Array NodeId) × Option Nat :=
  (d.labelling, d.cachedLabels?, d.labelIndex?)

namespace Tree

variable {t t₁ t₂ t' : Tree}

/-- In both trees the same labels count for the same scopes. -/
structure SameLabelling (t t' : Tree) : Prop where
  size_le : t.size ≤ t'.size
  same : ∀ id, (t'.data id).labelling = (t.data id).labelling

namespace SameLabelling

/-- What two steps leave of the labelling their composition leaves. -/
theorem trans (h : t.SameLabelling t₁) (h' : t₁.SameLabelling t₂) : t.SameLabelling t₂ :=
  ⟨Nat.le_trans h.size_le h'.size_le, fun id => (h'.same id).trans (h.same id)⟩

variable (h : t.SameLabelling t')
include h

/-- Each scope has the same labels of its own. -/
theorem ownLabels (id : NodeId) : (t'.data id).ownLabels = (t.data id).ownLabels :=
  congrArg (·.2.1) (h.same id)

/-- The same nodes are labels. -/
theorem isLabel (id : NodeId) :
    (t'.data id).labelIndex?.isSome = (t.data id).labelIndex?.isSome :=
  congrArg (·.2.2) (h.same id)

/-- Classes have the same prefix classes. -/
theorem prefixClass? (id : NodeId) : t'.prefixClass? id = t.prefixClass? id := by
  have hclass : (t'.data id).class?.map (·.prefixClass) = (t.data id).class?.map (·.prefixClass) :=
    congrArg (·.1) (h.same id)
  have hjoin : ∀ c : Option ClassParts, c.bind (·.prefixClass) = (c.map (·.prefixClass)).join :=
    fun c => by cases c <;> rfl
  rw [Tree.prefixClass?, Tree.prefixClass?, class?, class?, hjoin, hjoin, hclass]

/-- Each scope has the same labels, those of its prefixes included. -/
theorem labelsOf (scope : NodeId) : t'.labelsOf scope = t.labelsOf scope := by
  simp only [Tree.labelsOf, labelOwners_eq, prefixChain_of_prefixClass h.prefixClass? h.size_le,
    h.ownLabels]

/-- The prefix chains of classes are the same. -/
theorem prefixPath {c : NodeId} {path : List NodeId} :
    t'.PrefixPath c path ↔ t.PrefixPath c path := by
  constructor
  · intro hpath
    induction hpath with
    | ends hc => exact .ends (h.prefixClass? _ ▸ hc)
    | next hc _ ih => exact .next (h.prefixClass? _ ▸ hc) ih
  · intro hpath
    induction hpath with
    | ends hc => exact .ends ((h.prefixClass? _).trans hc)
    | next hc _ ih => exact .next ((h.prefixClass? _).trans hc) ih

/-- Labels stay nodes of their own. -/
theorem wellLabelled (hw : t.WellLabelled) : t'.WellLabelled :=
  hw.congr h.ownLabels fun l hl => (h.isLabel l).trans hl

end SameLabelling

/-! ## Numbering and remembering -/

/-- The later tree comes from the earlier one by accumulating labels of scopes: what is remembered
stays, what is remembered anew is what counts, and numbers once right stay right. -/
structure Relabelled (t t' : Tree) : Prop extends t.SameLabelling t' where
  kept : ∀ scope labels, (t.data scope).cachedLabels? = some labels →
    (t'.data scope).cachedLabels? = some labels
  filled : t.WellLabelled → ∀ scope labels, (t.data scope).cachedLabels? = none →
    (t'.data scope).cachedLabels? = some labels → labels.toList = t'.labelsOf scope ∧
      ∀ path, t'.PrefixPath scope path → t'.Numbered scope
  numbered : t.WellLabelled → ∀ scope path, t'.PrefixPath scope path → t.Numbered scope →
    t'.Numbered scope

namespace Relabelled

/-- A tree in which labels and what is remembered are the same. -/
theorem of_same (hsize : t.size ≤ t'.size)
    (h : ∀ id, (t'.data id).labelState = (t.data id).labelState) : t.Relabelled t' := by
  have hlabelling : t.SameLabelling t' := ⟨hsize, fun id => congrArg (·.1) (h id)⟩
  have hcached : ∀ id, (t'.data id).cachedLabels? = (t.data id).cachedLabels? := fun id =>
    congrArg (·.2.1) (h id)
  have hindex : ∀ id, (t'.data id).labelIndex? = (t.data id).labelIndex? := fun id =>
    congrArg (·.2.2) (h id)
  refine ⟨hlabelling, fun scope labels hsome => (hcached scope).trans hsome,
    fun _ scope labels hnone hsome => ?_, fun _ scope path _ hnumbered i l hl => ?_⟩
  · rw [hcached, hnone] at hsome
    cases hsome
  · rw [hindex]
    exact hnumbered i l (hlabelling.labelsOf scope ▸ hl)

/-- A tree is relabelled by leaving it alone. -/
theorem refl (t : Tree) : t.Relabelled t := of_same (Nat.le_refl _) fun _ => rfl

/-- A change of one node that touches no label relabels nothing. -/
theorem update (t : Tree) (id : NodeId) {f : NodeData → NodeData}
    (hf : ∀ d, (f d).labelState = d.labelState) : t.Relabelled (t.update id f) :=
  of_same (Nat.le_of_eq (size_update ..).symm) (view_update t id hf)

/-- Trees that are relabelled one after the other are relabelled. -/
theorem trans (h : t.Relabelled t₁) (h' : t₁.Relabelled t₂) : t.Relabelled t₂ where
  toSameLabelling := h.toSameLabelling.trans h'.toSameLabelling
  kept scope labels hsome := h'.kept scope labels (h.kept scope labels hsome)
  filled hw scope labels hnone hsome := by
    have hw₁ := h.wellLabelled hw
    cases hmiddle : (t₁.data scope).cachedLabels? with
    | none => exact h'.filled hw₁ scope labels hmiddle hsome
    | some early =>
      -- The list was remembered in the middle and has stayed.
      rw [h'.kept scope early hmiddle] at hsome
      obtain rfl := Option.some.inj hsome
      obtain ⟨hlist, hnumbered⟩ := h.filled hw scope early hnone hmiddle
      refine ⟨hlist.trans (h'.labelsOf scope).symm, fun path hpath => ?_⟩
      exact h'.numbered hw₁ scope path hpath (hnumbered path (h'.prefixPath.mp hpath))
  numbered hw scope path hpath hnumbered :=
    h'.numbered (h.wellLabelled hw) scope path hpath
      (h.numbered hw scope path (h'.prefixPath.mp hpath) hnumbered)

end Relabelled

instance : Std.Refl Relabelled := ⟨Relabelled.refl⟩

instance : Trans Relabelled Relabelled Relabelled := ⟨Relabelled.trans⟩

/-- A new number of a label is no change in the labelling. -/
theorem labelling_withLabelIndex (index : Nat) (d : NodeData) :
    (withLabelIndex index d).labelling = d.labelling :=
  NodeData.view_withLabelIndex d fun _ _ _ => rfl

/-- A new number of a label is no change in what scopes remember. -/
theorem cachedLabels?_withLabelIndex (index : Nat) (d : NodeData) :
    (withLabelIndex index d).cachedLabels? = d.cachedLabels? :=
  NodeData.view_withLabelIndex d fun _ _ _ => rfl

/-- What a scope remembers of its labels is no change in the labelling. -/
theorem labelling_remembering (labels : Array NodeId) (d : NodeData) :
    (remembering labels d).labelling = d.labelling :=
  NodeData.view_modifyBody d (fun _ _ _ => rfl) (fun _ _ _ _ _ => rfl) fun _ _ _ => rfl

/-- What a scope remembers of its labels is no change in their numbers. -/
theorem labelIndex?_remembering (labels : Array NodeId) (d : NodeData) :
    (remembering labels d).labelIndex? = d.labelIndex? :=
  NodeData.view_modifyBody d (fun _ _ _ => rfl) (fun _ _ _ _ _ => rfl) fun _ _ _ => rfl

/-- A scope remembers the labels that it is told to. -/
theorem cachedLabels?_remembering (labels : Array NodeId) {d : NodeData} (h : d.labels?.isSome) :
    (remembering labels d).cachedLabels? = some labels := by
  revert h
  rcases d with _ | ⟨_, _, form⟩ | _ | _ | _
  case declaration => cases form <;> first | exact fun _ => rfl | exact nofun
  all_goals exact nofun

/-- A label is no more a scope with a new number than without it. -/
theorem isSome_labels?_withLabelIndex (index : Nat) (d : NodeData) :
    (withLabelIndex index d).labels?.isSome = d.labels?.isSome :=
  NodeData.view_withLabelIndex (v := (·.labels?.isSome)) d fun _ _ _ => rfl

section

variable {scope : NodeId}

/-- The tree after the labels of a scope have been numbered and remembered. -/
def accumulated (t : Tree) (scope : NodeId) : Tree :=
  (numberLabels 1 (t.labelsOf scope) t).update scope (remembering (t.labelsOf scope).toArray)

/-- Numbering the labels of a scope is no change in the labelling. -/
theorem accumulated_sameLabelling (t : Tree) (scope : NodeId) :
    t.SameLabelling (t.accumulated scope) where
  size_le := Nat.le_of_eq (by rw [accumulated, size_update, size_numberLabels])
  same id := by
    rw [accumulated, view_update _ _ (labelling_remembering _),
      view_numberLabels labelling_withLabelIndex]

/-- The numbers that labels get are those of one run over the labels of the scope. -/
theorem labelIndex?_accumulated (t : Tree) (scope id : NodeId) :
    ((t.accumulated scope).data id).labelIndex? =
      ((numberLabels 1 (t.labelsOf scope) t).data id).labelIndex? :=
  view_update _ _ (labelIndex?_remembering _) id

/-- A scope whose labels have been numbered remembers them. -/
theorem cachedLabels?_accumulated_self (h : (t.data scope).labels?.isSome) :
    ((t.accumulated scope).data scope).cachedLabels? = some (t.labelsOf scope).toArray := by
  have hlabels : ((numberLabels 1 (t.labelsOf scope) t).data scope).labels?.isSome := by
    rw [@view_numberLabels Bool (·.labels?.isSome) isSome_labels?_withLabelIndex]
    exact h
  have hlt : scope < (numberLabels 1 (t.labelsOf scope) t).size := lt_of_data fun hpending => by
    rw [hpending] at hlabels
    cases hlabels
  rw [accumulated, data_update_self _ hlt, cachedLabels?_remembering _ hlabels]

/-- Other scopes remember what they did before. -/
theorem cachedLabels?_accumulated_of_ne {id : NodeId} (h : id ≠ scope) :
    ((t.accumulated scope).data id).cachedLabels? = (t.data id).cachedLabels? := by
  rw [accumulated, data_update_of_ne _ h, view_numberLabels cachedLabels?_withLabelIndex]

/-- The labels that count for the scope have their positions. -/
theorem numbered_accumulated (hw : t.WellLabelled) : (t.accumulated scope).Numbered scope := by
  intro i l hl
  rw [(accumulated_sameLabelling t scope).labelsOf] at hl
  rw [labelIndex?_accumulated, labelIndex?_numberLabels (hw.nodup_labelsOf scope)
    (fun l hl => hw.isSome_labelIndex? hl) 1 hl, Nat.add_comm]

/-- The labels that count for another scope keep their positions: those numbered anew have the same
position in both lists. -/
theorem Numbered.accumulated {other : NodeId} {path : List NodeId} (h : t.Numbered other)
    (hw : t.WellLabelled) (hpath : t.PrefixPath other path) :
    (t.accumulated scope).Numbered other := by
  intro i l hl
  rw [(accumulated_sameLabelling t scope).labelsOf] at hl
  rw [labelIndex?_accumulated]
  by_cases hmem : l ∈ t.labelsOf scope
  · obtain ⟨j, hj⟩ := List.mem_iff_getElem?.mp hmem
    rw [labelIndex?_numberLabels (hw.nodup_labelsOf scope) (fun l hl => hw.isSome_labelIndex? hl) 1
      hj, hw.position_eq hpath hl hj, Nat.add_comm]
  · rw [labelIndex?_numberLabels_of_notMem hmem]
    exact h i l hl

/-- What is given back is remembered. -/
theorem cachedLabels?_of_accumulatedLabels {labels : Array NodeId}
    (h : accumulatedLabels scope t = .ok labels t') :
    (t'.data scope).cachedLabels? = some labels := by
  rcases accumulatedLabels_cases scope t with ⟨_, hcached, hok⟩ | ⟨-, ⟨e, herror⟩ | ⟨hhas, hok⟩⟩
  · rw [hok] at h
    cases h
    exact hcached
  · rw [herror] at h
    cases h
  · rw [hok] at h
    cases h
    exact cachedLabels?_accumulated_self hhas

/-- Accumulating numbers and remembers. -/
theorem accumulatedLabels_relabelled (scope : NodeId) :
    Follows Relabelled (accumulatedLabels scope) := by
  intro t
  rcases accumulatedLabels_cases scope t with ⟨labels, -, hok⟩ | ⟨hnone, ⟨e, herror⟩ | ⟨hhas, hok⟩⟩
  · rw [leaves_of_ok hok]
    exact .refl t
  · rw [leaves_of_error herror]
    exact .refl t
  · rw [leaves_of_ok hok]
    change t.Relabelled (t.accumulated scope)
    have hsame := accumulated_sameLabelling t scope
    refine ⟨hsame, fun id labels hsome => ?_, fun hw id labels hnone' hsome => ?_,
      fun hw other path hpath hnumbered => ?_⟩
    · have hne : id ≠ scope := by
        rintro rfl
        rw [hnone] at hsome
        cases hsome
      rw [cachedLabels?_accumulated_of_ne hne, hsome]
    · by_cases hid : id = scope
      · subst hid
        rw [cachedLabels?_accumulated_self hhas] at hsome
        cases hsome
        exact ⟨(hsame.labelsOf id).symm, fun _ _ => numbered_accumulated hw⟩
      · rw [cachedLabels?_accumulated_of_ne hid, hnone'] at hsome
        cases hsome
    · exact hnumbered.accumulated hw (hsame.prefixPath.mp hpath)

end

end Tree

/-! ## A check -/

/-- The tree of the later state comes from that of the earlier one by accumulating labels. -/
def CheckState.Relabelled (s s' : CheckState) : Prop := s.tree.Relabelled s'.tree

instance : Std.Refl CheckState.Relabelled := ⟨fun s => .refl s.tree⟩

instance : Trans CheckState.Relabelled CheckState.Relabelled CheckState.Relabelled :=
  ⟨Tree.Relabelled.trans⟩

/-- Converting an assigned value concerns no label. -/
theorem NodeData.labelState_withAssigned (value : NodeId) (d : NodeData) :
    (CheckM.withAssigned value d).labelState = d.labelState :=
  view_withAssigned d fun _ _ _ _ => rfl

/-- Typing an expression concerns no label. -/
theorem typingFrame_relabelled : TypingFrame CheckState.Relabelled where
  report s _ := .refl s.tree
  expressionType s id ty := .update s.tree id fun d => by cases d <;> rfl
  conversion s assignment rhs kind target line := by
    refine .of_same (t := s.tree) (by simp) fun id => ?_
    rw [Tree.view_update _ _ (NodeData.labelState_withAssigned _), Tree.data_push]
    split
    · next hid => rw [hid, Tree.data_of_size_le (Nat.le_refl _)]; rfl
    · rfl

/-- Giving a node its scope concerns no label. -/
theorem NodeData.labelState_withScope (scope : NodeId) (d : NodeData) :
    (CheckM.withScope scope d).labelState = d.labelState :=
  view_withScope d (fun _ _ form => by cases form <;> rfl) fun _ => rfl

/-- Marking the labels of a scope as complete changes neither them nor their numbers. -/
theorem NodeData.labelState_markReady (d : NodeData) :
    (d.modifyBody fun b => { b with labels := { b.labels with ready := true } }).labelState =
      d.labelState := by
  rcases d with _ | ⟨_, _, form⟩ | _ | _ | _
  case declaration => cases form <;> rfl
  all_goals rfl

/-- An action on the tree leaves the tree that it leaves, and all reports. -/
theorem CheckM.leaves_onTree {α : Type} (action : TreeM α) (s : CheckState) :
    leaves (onTree action) s = { s with tree := leaves action s.tree } := by
  rw [leaves, onTree, leaves]
  cases action s.tree <;> rfl

/-- Numbering the labels of a scope relabels the tree. -/
theorem CheckM.finishLabels_relabelled (scope : NodeId) :
    Follows CheckState.Relabelled (finishLabels scope) := by
  have haccumulated : Follows CheckState.Relabelled (onTree (Tree.accumulatedLabels scope)) := by
    intro s
    rw [leaves_onTree]
    exact Tree.accumulatedLabels_relabelled scope s.tree
  refine .bind (fun s => .refl s.tree) fun t => ?_
  split
  · refine .bind (.bind haccumulated fun _ => .pure _) fun _ => .of_modify fun s => ?_
    exact .update s.tree scope NodeData.labelState_markReady
  · exact .pure _

/-- All steps in a scope relabel the tree. -/
theorem scopeFrame_relabelled : ScopeFrame CheckState.Relabelled where
  report s _ := .refl s.tree
  typing := CheckM.typeExpr_follows typingFrame_relabelled
  connectedClass s id c scope := .update s.tree id fun d => by cases d <;> rfl
  scope s id scope := .update s.tree id (NodeData.labelState_withScope scope)
  finishLabels := CheckM.finishLabels_relabelled

/-- Once prefixes are resolved, a check does nothing to labels but accumulate them. -/
theorem CheckM.check_relabelled (module : NodeId) (s : CheckState) :
    (s.withPrefixes module).Relabelled (leaves (check module) s) := by
  refine scopeFrame_relabelled.check_follows (fun s id p => ?_) (fun s id h => ?_) module s
  all_goals
    refine .update s.tree id fun d => ?_
    rcases d with _ | ⟨_, _, form⟩ | _ | _ | _
    case declaration => cases form <;> rfl
    all_goals rfl

/-! ## One operation -/

/-- What a scope remembers, its own labels, whether it is a class, and the index of a label. -/
def NodeData.labelLists (d : NodeData) : Option (Array NodeId) × List NodeId × Bool × Option Nat :=
  (d.cachedLabels?, d.ownLabels, d.class?.isSome, d.labelIndex?)

namespace Tree

variable {t t₁ t₂ t' : Tree}

/-- What an operation does to what scopes remember. A list that is remembered is forgotten, or it
stays and the scope keeps its own labels. A list that is remembered anew is what counts now. Where
the same labels count as before, numbers once right stay right. -/
structure LabelStep (t t' : Tree) : Prop where
  wellLabelled : t'.WellLabelled
  kept : ∀ scope labels, (t.data scope).cachedLabels? = some labels →
    (t'.data scope).cachedLabels? = none ∨ (t'.data scope).cachedLabels? = some labels ∧
      (t'.data scope).ownLabels = (t.data scope).ownLabels ∧ t'.isClass scope = t.isClass scope
  filled : ∀ scope labels, (t.data scope).cachedLabels? = none →
    (t'.data scope).cachedLabels? = some labels → labels.toList = t'.labelsOf scope ∧
      ∀ path, t'.PrefixPath scope path → t'.Numbered scope
  numbered : ∀ scope path, t'.PrefixPath scope path → t'.labelsOf scope = t.labelsOf scope →
    t.Numbered scope → t'.Numbered scope

/-- The scopes of the two trees have and remember the same labels, whatever their prefixes are. -/
def SameLists (t t' : Tree) : Prop := ∀ id, (t'.data id).labelLists = (t.data id).labelLists

namespace SameLists

variable (h : t.SameLists t')
include h

/-- Scopes remember the same labels. -/
theorem cachedLabels? (id : NodeId) : (t'.data id).cachedLabels? = (t.data id).cachedLabels? :=
  congrArg (·.1) (h id)

/-- Each scope has the same labels of its own. -/
theorem ownLabels (id : NodeId) : (t'.data id).ownLabels = (t.data id).ownLabels :=
  congrArg (·.2.1) (h id)

/-- The same nodes are classes. -/
theorem isClass (id : NodeId) : t'.isClass id = t.isClass id := congrArg (·.2.2.1) (h id)

/-- Labels have the same numbers. -/
theorem labelIndex? (id : NodeId) : (t'.data id).labelIndex? = (t.data id).labelIndex? :=
  congrArg (·.2.2.2) (h id)

/-- Labels stay nodes of their own. -/
theorem wellLabelled (hw : t.WellLabelled) : t'.WellLabelled := by
  refine hw.congr h.ownLabels fun l hl => ?_
  rw [h.labelIndex?]
  exact hl

end SameLists

/-- Trees with the same labelling have the same classes. -/
theorem SameLabelling.isClass (h : t.SameLabelling t') (id : NodeId) :
    t'.isClass id = t.isClass id := by
  have hclass := congrArg (·.1.isSome) (h.same id)
  simp only [NodeData.labelling, Option.isSome_map] at hclass
  exact hclass

/-- An operation that changes prefixes at most and then accumulates labels. -/
theorem LabelStep.of_relabelled (hlists : t.SameLists t₁) (h : t₁.Relabelled t')
    (hw : t.WellLabelled) : t.LabelStep t' where
  wellLabelled := h.wellLabelled (hlists.wellLabelled hw)
  kept scope labels hsome := by
    refine .inr ⟨h.kept scope labels ((hlists.cachedLabels? scope).trans hsome), ?_, ?_⟩
    · exact (h.ownLabels scope).trans (hlists.ownLabels scope)
    · exact (h.isClass scope).trans (hlists.isClass scope)
  filled scope labels hnone hsome :=
    h.filled (hlists.wellLabelled hw) scope labels ((hlists.cachedLabels? scope).trans hnone) hsome
  numbered scope path hpath hlabels hnumbered := by
    refine h.numbered (hlists.wellLabelled hw) scope path hpath fun i l hl => ?_
    rw [hlists.labelIndex?]
    rw [← h.labelsOf, hlabels] at hl
    exact hnumbered i l hl

/-- An operation that numbers nothing and remembers nothing anew. -/
theorem LabelStep.of_unnumbered (hw : t'.WellLabelled)
    (hindex : ∀ l, (t.data l).labelIndex?.isSome →
      (t'.data l).labelIndex? = (t.data l).labelIndex?)
    (hcached : ∀ scope, (t'.data scope).cachedLabels? = none ∨
      (t'.data scope).labelLists = (t.data scope).labelLists) : t.LabelStep t' where
  wellLabelled := hw
  kept scope labels hsome := by
    rcases hcached scope with hnone | hsame
    · exact .inl hnone
    · exact .inr ⟨(congrArg (·.1) hsame).trans hsome, congrArg (·.2.1) hsame,
        congrArg (·.2.2.1) hsame⟩
  filled scope labels hnone hsome := by
    rcases hcached scope with hnone' | hsame
    · rw [hnone'] at hsome
      cases hsome
    · rw [show (t'.data scope).cachedLabels? = (t.data scope).cachedLabels? from
        congrArg (·.1) hsame, hnone] at hsome
      cases hsome
  numbered scope path _ hlabels hnumbered i l hl := by
    have hold := hnumbered i l (hlabels ▸ hl)
    rw [hindex l (by rw [hold]; rfl), hold]

end Tree

end Simula
