import Mathlib.Data.List.Induction
import Simula.Check
import Simula.Proofs.Labels.Cache

/-!
# Label lists over a run of operations

A tree is built, checked and asked for labels in any order. Whatever the order, the list that a scope
gives back is what counted for it when the list was last computed, and it is what counts now if no
operation since has changed that.
-/

namespace Simula

/-! ## Operations that change lists of labels -/

namespace NodeData

/-- A scope without labels has none of its own. -/
theorem ownLabels_of_unlabelled {d : NodeData} (h : ∀ l ∈ d.labels?, l = {}) : d.ownLabels = [] := by
  rw [ownLabels]
  cases hl : d.labels? with
  | none => rfl
  | some l => rw [h l hl]; rfl

/-- A scope without labels remembers none. -/
theorem cachedLabels?_of_unlabelled {d : NodeData} (h : ∀ l ∈ d.labels?, l = {}) :
    d.cachedLabels? = none := by
  rw [cachedLabels?]
  cases hl : d.labels? with
  | none => rfl
  | some l => rw [h l hl]; rfl

/-- A scope with one more label. -/
def withLabel (label : NodeId) (d : NodeData) : NodeData :=
  d.modifyBody fun b => { b with labels := b.labels.push label }

/-- A new label stands behind those that a scope has. -/
theorem labels?_withLabel (label : NodeId) (d : NodeData) :
    (d.withLabel label).labels? = d.labels?.map (·.push label) := by
  rcases d with _ | ⟨_, _, form⟩ | _ | _ | _
  case declaration => cases form <;> rfl
  all_goals rfl

/-- A new label of a scope is no number for the scope. -/
theorem labelIndex?_withLabel (label : NodeId) (d : NodeData) :
    (d.withLabel label).labelIndex? = d.labelIndex? := by
  rcases d with _ | ⟨_, _, form⟩ | _ | _ | _
  case declaration => cases form <;> rfl
  all_goals rfl

variable {d : NodeData} {l : LabelList} (hl : d.labels? = some l) (hready : l.ready = false)
include hl hready

/-- The new label is the last of the scope's own. -/
theorem ownLabels_withLabel (label : NodeId) :
    (d.withLabel label).ownLabels = d.ownLabels ++ [label] := by
  simp [ownLabels, labels?_withLabel, hl, LabelList.push, hready]

/-- With a new label a scope forgets what it remembered. -/
theorem cachedLabels?_withLabel (label : NodeId) : (d.withLabel label).cachedLabels? = none := by
  simp [cachedLabels?, labels?_withLabel, hl, LabelList.push, hready]

end NodeData

namespace Tree

variable {t : Tree}

/-- The labels of a scope are in the tree. -/
theorem WellLabelled.lt_size {scope l : NodeId} (hw : t.WellLabelled)
    (hl : l ∈ (t.data scope).ownLabels) : l < t.size := by
  have hlabel := hw.isLabel scope l hl
  refine lt_of_data fun hpending => ?_
  rw [hpending] at hlabel
  cases hlabel

/-- A new node without labels disturbs no list. -/
theorem labelStep_push (hw : t.WellLabelled) {n : Node} (hn : ∀ l ∈ n.data.labels?, l = {}) :
    t.LabelStep (t.push n) := by
  have hown : ∀ id, ((t.push n).data id).ownLabels = (t.data id).ownLabels := by
    intro id
    rw [data_push]
    split
    · next hid =>
      rw [hid, data_of_size_le (Nat.le_refl _), NodeData.ownLabels_of_unlabelled hn]
      rfl
    · rfl
  have hindex : ∀ l, (t.data l).labelIndex?.isSome →
      ((t.push n).data l).labelIndex? = (t.data l).labelIndex? := by
    intro l hl
    have hlt : l < t.size := lt_of_data fun hpending => by
      rw [hpending] at hl
      cases hl
    rw [data_push, if_neg (Nat.ne_of_lt hlt)]
  refine .of_unnumbered (hw.congr hown fun l hl => ?_) hindex fun scope => ?_
  · rw [hindex l hl]
    exact hl
  · rw [data_push]
    split
    · exact .inl (NodeData.cachedLabels?_of_unlabelled hn)
    · exact .inr rfl

/-- The tree with a new label in the list of a scope. -/
def withLabelIn (t : Tree) (scope : NodeId) (n : Node) : Tree :=
  (t.push n).update scope (NodeData.withLabel t.size)

section

variable {scope : NodeId} {n : Node} {l : LabelList} (hl : (t.data scope).labels? = some l)
include hl

/-- A scope is in the tree. -/
theorem lt_size_of_labels? : scope < t.size :=
  lt_of_data fun hpending => by
    rw [hpending] at hl
    cases hl

/-- The scope gets the new label. -/
theorem data_withLabelIn_self :
    (t.withLabelIn scope n).data scope = (t.data scope).withLabel t.size := by
  have hlt := lt_size_of_labels? hl
  rw [withLabelIn, data_update_self _ (by rw [size_push]; exact Nat.lt_succ_of_lt hlt), data_push,
    if_neg (Nat.ne_of_lt hlt)]

/-- The label gets the next number of the tree. -/
theorem data_withLabelIn_size : (t.withLabelIn scope n).data t.size = n.data := by
  have hlt := lt_size_of_labels? hl
  rw [withLabelIn, data_update_of_ne _ (Nat.ne_of_gt hlt), data_push, if_pos rfl]

omit hl in
/-- All other nodes stay as they are. -/
theorem data_withLabelIn_of_ne {id : NodeId} (hscope : id ≠ scope) (hsize : id ≠ t.size) :
    (t.withLabelIn scope n).data id = t.data id := by
  rw [withLabelIn, data_update_of_ne _ hscope, data_push, if_neg hsize]

/-- Labels keep their numbers. -/
theorem labelIndex?_withLabelIn {id : NodeId} (hsize : id ≠ t.size) :
    ((t.withLabelIn scope n).data id).labelIndex? = (t.data id).labelIndex? := by
  by_cases hid : id = scope
  · subst hid
    rw [data_withLabelIn_self hl, NodeData.labelIndex?_withLabel]
  · rw [data_withLabelIn_of_ne hid hsize]

variable (hready : l.ready = false) (hn : n.data.labels? = none)
include hready hn

/-- The new label is in the list of its scope, and nothing else has changed in any list. -/
theorem mem_ownLabels_withLabelIn {id label : NodeId} :
    label ∈ ((t.withLabelIn scope n).data id).ownLabels ↔
      label ∈ (t.data id).ownLabels ∨ id = scope ∧ label = t.size := by
  by_cases hid : id = scope
  · subst hid
    rw [data_withLabelIn_self hl, NodeData.ownLabels_withLabel hl hready]
    simp
  · by_cases hsize : id = t.size
    · subst hsize
      rw [data_withLabelIn_size hl, data_of_size_le (Nat.le_refl _), NodeData.ownLabels, hn]
      simp [NodeData.ownLabels, NodeData.labels?, NodeData.body?, hid]
    · rw [data_withLabelIn_of_ne hid hsize]
      simp [hid]

/-- With a new label all labels are still nodes of their own. -/
theorem WellLabelled.withLabelIn (hw : t.WellLabelled) (hlabel : n.data.labelIndex?.isSome) :
    (t.withLabelIn scope n).WellLabelled where
  isLabel id label hmem := by
    rcases (mem_ownLabels_withLabelIn hl hready hn).mp hmem with hold | ⟨-, rfl⟩
    · rw [labelIndex?_withLabelIn hl (Nat.ne_of_lt (hw.lt_size hold))]
      exact hw.isLabel id label hold
    · rw [data_withLabelIn_size hl]
      exact hlabel
  nodup id := by
    by_cases hid : id = scope
    · subst hid
      rw [data_withLabelIn_self hl, NodeData.ownLabels_withLabel hl hready]
      refine (hw.nodup id).append (by simp) fun label hold hnew => ?_
      rw [List.mem_singleton] at hnew
      exact Nat.lt_irrefl _ (hnew ▸ hw.lt_size hold)
    · by_cases hsize : id = t.size
      · subst hsize
        rw [data_withLabelIn_size hl, NodeData.ownLabels, hn]
        exact List.nodup_nil
      · rw [data_withLabelIn_of_ne hid hsize]
        exact hw.nodup id
  owner a b label ha hb := by
    rcases (mem_ownLabels_withLabelIn hl hready hn).mp ha with holdA | ⟨rfl, hnewA⟩
    · rcases (mem_ownLabels_withLabelIn hl hready hn).mp hb with holdB | ⟨-, hnewB⟩
      · exact hw.owner a b label holdA holdB
      · exact absurd (hnewB ▸ hw.lt_size holdA) (Nat.lt_irrefl _)
    · rcases (mem_ownLabels_withLabelIn hl hready hn).mp hb with holdB | ⟨rfl, -⟩
      · exact absurd (hnewA ▸ hw.lt_size holdB) (Nat.lt_irrefl _)
      · rfl

/-- A new label is added to one list, which is no longer remembered. -/
theorem labelStep_withLabelIn (hw : t.WellLabelled) (hlabel : n.data.labelIndex?.isSome) :
    t.LabelStep (t.withLabelIn scope n) := by
  refine .of_unnumbered (hw.withLabelIn hl hready hn hlabel) (fun label hlabel => ?_) fun id => ?_
  · refine labelIndex?_withLabelIn hl fun hsize => ?_
    rw [hsize, data_of_size_le (Nat.le_refl _)] at hlabel
    cases hlabel
  · by_cases hid : id = scope
    · subst hid
      rw [data_withLabelIn_self hl]
      exact .inl (NodeData.cachedLabels?_withLabel hl hready _)
    · by_cases hsize : id = t.size
      · subst hsize
        rw [data_withLabelIn_size hl, NodeData.cachedLabels?, hn]
        exact .inl rfl
      · rw [data_withLabelIn_of_ne hid hsize]
        exact .inr rfl

end

/-- Adding a label, or failing to, is a step of labelling. -/
theorem labelStep_addLabel (hw : t.WellLabelled) (scope : NodeId) (identifier : String)
    (line : Nat) : t.LabelStep (leaves (addLabel scope identifier line) t) := by
  have hfails : t.LabelStep t := .of_unnumbered hw (fun _ _ => rfl) fun _ => .inr rfl
  rw [addLabel, leaves_bind_of_ok (get_apply t)]
  cases hl : (t.data scope).labels? with
  | none => exact hfails
  | some l =>
    simp only [Option.map_some]
    cases hready : l.ready with
    | true => exact hfails
    | false => exact labelStep_withLabelIn hl hready rfl hw rfl

/-! ## Operations that leave lists of labels alone -/

/-- Lists that two steps leave alone stay the same over both. -/
theorem SameLists.trans {t₁ t₂ : Tree} (h : t.SameLists t₁) (h' : t₁.SameLists t₂) :
    t.SameLists t₂ := fun id => (h' id).trans (h id)

/-- Declaring a node changes no list of labels. -/
theorem declare_sameLists (t : Tree) (scope decl : NodeId) :
    t.SameLists (t.declare scope decl).1 := by
  have hnames : ∀ x, t.SameLists
      (t.update decl fun d => (d.withIdentifier x).withDeclaredIn (some scope)) := by
    intro x
    refine view_update t decl fun d => ?_
    rcases d with _ | ⟨_, _, form⟩ | _ | _ | _
    case declaration => cases form <;> rfl
    all_goals rfl
  have hlists : ∀ (t : Tree) list, t.SameLists
      (t.update scope fun d => d.modifyBody fun b => { b with declarations := list }) := by
    intro t list
    refine view_update t scope fun d => ?_
    rcases d with _ | ⟨_, _, form⟩ | _ | _ | _
    case declaration => cases form <;> rfl
    all_goals rfl
  rw [declare]
  split
  · exact fun _ => rfl
  · dsimp only
    split
    · exact hnames _
    · split
      · exact (hnames _).trans (hlists _ _)
      · exact hnames _

/-- Marking labels as complete changes no list of them. -/
theorem markLabelsReady_sameLists (t : Tree) (scope : NodeId) :
    t.SameLists (t.markLabelsReady scope).1 := by
  refine view_update t scope fun d => ?_
  rcases d with _ | ⟨_, _, form⟩ | _ | _ | _
  case declaration => cases form <;> rfl
  all_goals rfl

/-- Nor does a new prefix class. -/
theorem setPrefixClass_sameLists (t : Tree) (c : NodeId) (p : Option NodeId) :
    t.SameLists (t.update c fun d => d.modifyClass (·.withPrefixClass p)) := by
  refine view_update t c fun d => ?_
  rcases d with _ | ⟨_, _, form⟩ | _ | _ | _
  case declaration => cases form <;> rfl
  all_goals rfl

end Tree

/-- The scopes of the two states have and remember the same labels. -/
def CheckState.SameLists (s s' : CheckState) : Prop := s.tree.SameLists s'.tree

instance : Std.Refl CheckState.SameLists := ⟨fun _ _ => rfl⟩

instance : Trans CheckState.SameLists CheckState.SameLists CheckState.SameLists :=
  ⟨Tree.SameLists.trans⟩

/-- Resolving prefixes changes no list of labels. -/
theorem CheckState.withPrefixes_sameLists (s : CheckState) (module : NodeId) :
    s.SameLists (s.withPrefixes module) := by
  have hreport : ∀ (s : CheckState) (d : Diagnostic),
      s.SameLists { s with diagnostics := s.diagnostics.report d } := fun _ _ _ => rfl
  have hlink : ∀ (s : CheckState) (c : NodeId) (p : Option NodeId),
      s.SameLists (s.update c fun d => d.modifyClass (·.withPrefixClass p)) := fun s c p =>
    s.tree.setPrefixClass_sameLists c p
  exact Trans.trans (foldl_follows (resolvePrefix_follows hreport hlink) _ s)
    (foldl_follows (cutPrefixCycle_follows hreport hlink) _ _)

/-! ## Runs -/

/-- An operation on a tree. A new node may be a scope, but it has no labels yet. -/
inductive TreeOperation
  | add (line : Nat) (data : NodeData) (unlabelled : ∀ l ∈ data.labels?, l = {})
  | declare (scope decl : NodeId)
  | addLabel (scope : NodeId) (identifier : String) (line : Nat)
  | accumulate (scope : NodeId)
  | setPrefixClass (c : NodeId) (p : Option NodeId)
  | markReady (scope : NodeId)
  | check (module : NodeId)

namespace CheckState

/-- The state after an operation, whether it succeeds or fails. -/
def perform (s : CheckState) : TreeOperation → CheckState
  | .add line data _ => { s with tree := (s.tree.add line data).2 }
  | .declare scope decl =>
    let (tree, finding) := s.tree.declare scope decl
    { tree, diagnostics := finding.elim s.diagnostics s.diagnostics.report }
  | .addLabel scope identifier line => leaves (CheckM.onTree (Tree.addLabel scope identifier line)) s
  | .accumulate scope => leaves (CheckM.onTree (Tree.accumulatedLabels scope)) s
  | .setPrefixClass c p => s.update c fun d => d.modifyClass (·.withPrefixClass p)
  | .markReady scope => { s with tree := (s.tree.markLabelsReady scope).1 }
  | .check module => leaves (CheckM.check module) s

/-- The state after some operations. -/
def after (s : CheckState) (ops : List TreeOperation) : CheckState := ops.foldl perform s

/-- Nothing has been performed at first. -/
@[simp] theorem after_nil (s : CheckState) : s.after [] = s := rfl

/-- Operations can be performed in two parts. -/
theorem after_append (s : CheckState) (ops ops' : List TreeOperation) :
    s.after (ops ++ ops') = (s.after ops).after ops' :=
  List.foldl_append ..

/-- The last operation is performed on what the others left. -/
theorem after_concat (s : CheckState) (ops : List TreeOperation) (op : TreeOperation) :
    s.after (ops ++ [op]) = (s.after ops).perform op :=
  after_append s ops [op]

/-- Asking for the labels of a scope leaves the tree in which they are remembered. -/
theorem perform_accumulate {s : CheckState} {scope : NodeId} {labels : Array NodeId} {t' : Tree}
    (h : Tree.accumulatedLabels scope s.tree = .ok labels t') :
    (s.perform (.accumulate scope)).tree = t' := by
  rw [perform, CheckM.leaves_onTree, leaves_of_ok h]

/-- Every operation does to what scopes remember what a step may do. -/
theorem perform_labelStep {s : CheckState} (hw : s.tree.WellLabelled) (op : TreeOperation) :
    s.tree.LabelStep (s.perform op).tree := by
  cases op with
  | add line data unlabelled => exact Tree.labelStep_push hw unlabelled
  | declare scope decl => exact .of_relabelled (s.tree.declare_sameLists scope decl) (.refl _) hw
  | addLabel scope identifier line =>
    rw [perform, CheckM.leaves_onTree]
    exact Tree.labelStep_addLabel hw scope identifier line
  | accumulate scope =>
    rw [perform, CheckM.leaves_onTree]
    exact .of_relabelled (fun _ => rfl) (Tree.accumulatedLabels_relabelled scope s.tree) hw
  | setPrefixClass c p =>
    exact .of_relabelled (s.tree.setPrefixClass_sameLists c p) (.refl _) hw
  | markReady scope => exact .of_relabelled (s.tree.markLabelsReady_sameLists scope) (.refl _) hw
  | check module =>
    exact .of_relabelled (s.withPrefixes_sameLists module) (CheckM.check_relabelled module s) hw

variable {s : CheckState} {scope : NodeId} {ops : List TreeOperation} {labels : Array NodeId}

/-- Whatever is performed, labels stay nodes of their own. -/
theorem wellLabelled_after (hw : s.tree.WellLabelled) (ops : List TreeOperation) :
    (s.after ops).tree.WellLabelled := by
  induction ops using List.reverseRecOn with
  | nil => exact hw
  | append_singleton ops op ih =>
    rw [after_concat]
    exact (perform_labelStep ih op).wellLabelled

/-- After each operation of a run the scope still remembers a list, and has the labels of its own
that it had. -/
def Remembers (s : CheckState) (ops : List TreeOperation) (scope : NodeId)
    (labels : Array NodeId) : Prop :=
  ∀ later, later <+: ops → ((s.after later).tree.data scope).cachedLabels? = some labels ∧
    ((s.after later).tree.data scope).ownLabels = (s.tree.data scope).ownLabels ∧
    (s.after later).tree.isClass scope = s.tree.isClass scope

/-- A list that is remembered after a run and not before was computed by one of the operations, and
is remembered from then on. -/
theorem exists_computed (hw : s.tree.WellLabelled)
    (hstart : (s.tree.data scope).cachedLabels? = none)
    (hend : ((s.after ops).tree.data scope).cachedLabels? = some labels) :
    ∃ before op since, ops = before ++ op :: since ∧
      ((s.after before).tree.data scope).cachedLabels? = none ∧
      (s.after (before ++ [op])).Remembers since scope labels := by
  induction ops using List.reverseRecOn with
  | nil =>
    rw [after_nil, hstart] at hend
    cases hend
  | append_singleton ops op ih =>
    have hstep := perform_labelStep (wellLabelled_after hw ops) op
    have hafter := s.after_concat ops op
    cases hbefore : ((s.after ops).tree.data scope).cachedLabels? with
    | none =>
      refine ⟨ops, op, [], rfl, hbefore, fun later hlater => ?_⟩
      rw [List.prefix_nil.mp hlater, after_nil]
      exact ⟨hend, rfl, rfl⟩
    | some early =>
      rw [hafter] at hend
      -- The list was there before the last operation, which has not forgotten it.
      rcases hstep.kept scope early hbefore with hnone | ⟨hsome, hown, hclass⟩
      · rw [hnone] at hend
        cases hend
      · obtain rfl : early = labels := Option.some.inj (hsome.symm.trans hend)
        obtain ⟨before, op', since, rfl, hnone, hremembers⟩ := ih hbefore
        refine ⟨before, op', since ++ [op], by simp, hnone, fun later hlater => ?_⟩
        rcases List.prefix_concat_iff.mp hlater with rfl | hlater
        · have hsplit : before ++ op' :: since = (before ++ [op']) ++ since := by simp
          rw [hsplit, after_append] at hsome hown hclass
          obtain ⟨-, hown', hclass'⟩ := hremembers since List.prefix_rfl
          rw [after_concat]
          exact ⟨hsome, hown.trans hown', hclass.trans hclass'⟩
        · exact hremembers later hlater

/-- After each operation of a run the same labels count for the scope, and its prefix chain ends. -/
def KeepsLabels (s : CheckState) (ops : List TreeOperation) (scope : NodeId) : Prop :=
  ∀ later, later <+: ops → (s.after later).tree.labelsOf scope = s.tree.labelsOf scope ∧
    ∃ path, (s.after later).tree.PrefixPath scope path

/-- As long as the same labels count for a scope, they keep right numbers. -/
theorem KeepsLabels.numbered (h : s.KeepsLabels ops scope) (hw : s.tree.WellLabelled)
    (hnumbered : s.tree.Numbered scope) : (s.after ops).tree.Numbered scope := by
  induction ops using List.reverseRecOn with
  | nil => exact hnumbered
  | append_singleton ops op ih =>
    have hbefore : s.KeepsLabels ops scope := fun later hlater =>
      h later (hlater.trans (List.prefix_append ..))
    obtain ⟨hlabels, path, hpath⟩ := h _ List.prefix_rfl
    obtain ⟨hlabels', -⟩ := h ops (List.prefix_append ..)
    rw [after_concat] at hlabels hpath ⊢
    exact (perform_labelStep (wellLabelled_after hw ops) op).numbered scope path hpath
      (hlabels.trans hlabels'.symm) (ih hbefore)

/-- A list that is computed is what counts, and it is numbered if the prefix chain ends. -/
theorem labels_computed {before : List TreeOperation} {op : TreeOperation}
    (hw : s.tree.WellLabelled) (hnone : ((s.after before).tree.data scope).cachedLabels? = none)
    (hsome : ((s.after (before ++ [op])).tree.data scope).cachedLabels? = some labels) :
    labels.toList = (s.after (before ++ [op])).tree.labelsOf scope ∧
      ∀ path, (s.after (before ++ [op])).tree.PrefixPath scope path →
        (s.after (before ++ [op])).tree.Numbered scope := by
  rw [after_concat] at hsome ⊢
  exact (perform_labelStep (wellLabelled_after hw before) op).filled scope labels hnone hsome

/-- What is remembered is what counts, in right numbers, if nothing that counts has changed since a
moment when nothing was remembered. -/
theorem KeepsLabels.current (h : s.KeepsLabels ops scope) (hw : s.tree.WellLabelled)
    (hnone : (s.tree.data scope).cachedLabels? = none)
    (hsome : ((s.after ops).tree.data scope).cachedLabels? = some labels) :
    labels.toList = (s.after ops).tree.labelsOf scope ∧ (s.after ops).tree.Numbered scope := by
  obtain ⟨before, op, since, rfl, hempty, hremembers⟩ := exists_computed hw hnone hsome
  have hsplit : before ++ op :: since = (before ++ [op]) ++ since := by simp
  rw [hsplit] at h ⊢
  obtain ⟨hlabels, path, hpath⟩ := h (before ++ [op]) (List.prefix_append ..)
  obtain ⟨hlist, hnumbered⟩ :=
    labels_computed hw hempty (hremembers [] List.nil_prefix).1
  have hsince : (s.after (before ++ [op])).KeepsLabels since scope := by
    intro later hlater
    have hlater' : (before ++ [op]) ++ later <+: (before ++ [op]) ++ since :=
      (List.prefix_append_right_inj _).mpr hlater
    obtain ⟨hsame, hends⟩ := h _ hlater'
    rw [after_append] at hsame hends
    exact ⟨hsame.trans hlabels.symm, hends⟩
  rw [after_append]
  refine ⟨?_, hsince.numbered (wellLabelled_after hw _) (hnumbered path hpath)⟩
  rw [hlist, (hsince since List.prefix_rfl).1]

/-- Accumulating labels does not change which labels count. -/
theorem KeepsLabels.accumulate (h : s.KeepsLabels ops scope) (other : NodeId) :
    s.KeepsLabels (ops ++ [.accumulate other]) scope := by
  intro later hlater
  rcases List.prefix_concat_iff.mp hlater with rfl | hlater
  · obtain ⟨hlabels, path, hpath⟩ := h ops List.prefix_rfl
    rw [after_concat, perform, CheckM.leaves_onTree]
    have hstep := Tree.accumulatedLabels_relabelled other (s.after ops).tree
    exact ⟨(hstep.labelsOf scope).trans hlabels, path, hstep.prefixPath.mpr hpath⟩
  · exact h later hlater

/-- A procedure or block that remembers a list keeps the labels that count for it. -/
theorem Remembers.keepsLabels (h : s.Remembers ops scope labels)
    (hclass : s.tree.isClass scope = false) : s.KeepsLabels ops scope := by
  intro later hlater
  obtain ⟨-, hown, hclass'⟩ := h later hlater
  have hlater := hclass'.trans hclass
  refine ⟨?_, _, .ends (Tree.prefixClass?_of_isClass hlater)⟩
  rw [Tree.labelsOf_of_isClass hlater, Tree.labelsOf_of_isClass hclass, hown]

/-- **Remembered labels.** Let a tree be changed by a run of operations, and let a scope then give
back a list of labels. The list is what counted for the scope when it was computed: after the last
operation before which the scope remembered no list. The scope has remembered the list and got no
label since. If from some moment on, at which it remembered no list, the same labels have counted
for the scope and its prefix chain has ended, then the list is what counts now and each label in it
has its position from 1 as its index. For a procedure or a block that is always so. -/
theorem accumulatedLabels_current {t' : Tree} (hw : s.tree.WellLabelled)
    (hempty : (s.tree.data scope).cachedLabels? = none)
    (hrun : Tree.accumulatedLabels scope (s.after ops).tree = .ok labels t') :
    (∃ before op since, ops ++ [.accumulate scope] = before ++ op :: since ∧
      ((s.after before).tree.data scope).cachedLabels? = none ∧
      (s.after (before ++ [op])).Remembers since scope labels ∧
      labels.toList = (s.after (before ++ [op])).tree.labelsOf scope) ∧
    (∀ before since, ops = before ++ since →
      ((s.after before).tree.data scope).cachedLabels? = none →
      (s.after before).KeepsLabels since scope →
      labels.toList = t'.labelsOf scope ∧ t'.Numbered scope) ∧
    ((s.after ops).tree.isClass scope = false →
      labels.toList = t'.labelsOf scope ∧ t'.Numbered scope) := by
  have hend : (s.after (ops ++ [.accumulate scope])).tree = t' := by
    rw [after_concat, perform_accumulate hrun]
  have hsome : ((s.after (ops ++ [.accumulate scope])).tree.data scope).cachedLabels? =
      some labels := by
    rw [hend]
    exact Tree.cachedLabels?_of_accumulatedLabels hrun
  obtain ⟨before, op, since, hsplit, hnone, hremembers⟩ := exists_computed hw hempty hsome
  have hcomputed := (hremembers [] List.nil_prefix).1
  refine ⟨⟨before, op, since, hsplit, hnone, hremembers, ?_⟩, ?_, fun hclass => ?_⟩
  · exact (labels_computed hw hnone hcomputed).1
  · rintro first rest rfl hnone' hkeeps
    rw [List.append_assoc, after_append] at hsome hend
    rw [← hend]
    exact (hkeeps.accumulate scope).current (wellLabelled_after hw first) hnone' hsome
  · have hlast : (before ++ [op]) ++ since = ops ++ [.accumulate scope] := by simp [hsplit]
    rw [← hlast, after_append] at hend
    -- The scope is no class after the operation, since it is none at the end.
    have hclass₁ : (s.after (before ++ [op])).tree.isClass scope = false := by
      have hstep := (Tree.accumulatedLabels_relabelled scope (s.after ops).tree).isClass scope
      rw [leaves_of_ok hrun, ← hend, hclass] at hstep
      rw [← (hremembers since List.prefix_rfl).2.2, hstep]
    have hkeeps := hremembers.keepsLabels hclass₁
    obtain ⟨hlist, hnumbered⟩ := labels_computed hw hnone hcomputed
    rw [← hend]
    refine ⟨?_, hkeeps.numbered (wellLabelled_after hw _) ?_⟩
    · rw [hlist, (hkeeps since List.prefix_rfl).1]
    · exact hnumbered _ (.ends (Tree.prefixClass?_of_isClass hclass₁))

/-- A block with a class `A` and a subclass `B` of it, none of them with labels. -/
def unlabelledClasses : CheckState where
  tree := { nodes := #[
    ⟨1, .declaration "MAIN" none (.block { declarations := ⟨#[("A", 1), ("B", 2)]⟩ })⟩,
    ⟨2, .declaration "A" (some 0) (.classDeclaration {})⟩,
    ⟨3, .declaration "B" (some 0) (.classDeclaration
      { prefixName := some "A", prefixClass := some 1 })⟩] }

/-- The classes of this tree have no labels at all. -/
theorem wellLabelled_unlabelledClasses : unlabelledClasses.tree.WellLabelled := by
  have hown : ∀ scope, (unlabelledClasses.tree.data scope).ownLabels = [] := by
    intro scope
    by_cases hlt : scope < 3
    · have hall : ∀ scope < 3, (unlabelledClasses.tree.data scope).ownLabels = [] := by decide
      exact hall scope hlt
    · rw [Tree.data_of_size_le (Nat.le_of_not_lt hlt)]
      rfl
  refine ⟨fun scope l hl => ?_, fun scope => ?_, fun a b l hl => ?_⟩
  · rw [hown] at hl
    cases hl
  · rw [hown]
    exact List.nodup_nil
  · rw [hown] at hl
    cases hl

/-- The labels of `B` are asked for, then `A` and the block get labels. `B` gives back the list of
before, although the label of `A` counts for it first. The block gives back its labels. Where only
the block gets a label, the list of `B` is right. -/
theorem accumulatedLabels_current_unlabelledClasses :
    (∃ t', Tree.accumulatedLabels 2 (unlabelledClasses.after [.addLabel 2 "M" 4, .accumulate 2,
        .addLabel 1 "L" 5]).tree = .ok #[3] t' ∧ t'.labelsOf 2 = [4, 3] ∧
      ∃ before op since, [.addLabel 2 "M" 4, .accumulate 2, .addLabel 1 "L" 5, .accumulate 2] =
        before ++ op :: since ∧
        [3] = (unlabelledClasses.after (before ++ [op])).tree.labelsOf 2) ∧
    (∃ t', Tree.accumulatedLabels 0 (unlabelledClasses.after [.accumulate 0, .addLabel 1 "L" 5,
        .addLabel 0 "N" 6]).tree = .ok #[4] t' ∧ [4] = t'.labelsOf 0 ∧ t'.Numbered 0) ∧
    ∃ t', Tree.accumulatedLabels 2 (unlabelledClasses.after [.addLabel 2 "M" 4, .accumulate 2,
        .addLabel 0 "N" 6]).tree = .ok #[3] t' ∧ [3] = t'.labelsOf 2 ∧ t'.Numbered 2 := by
  have hw := wellLabelled_unlabelledClasses
  refine ⟨?_, ?_, ?_⟩
  · have hrun : succeedsWith (Tree.accumulatedLabels 2) (unlabelledClasses.after
        [.addLabel 2 "M" 4, .accumulate 2, .addLabel 1 "L" 5]).tree (fun labels t' =>
          labels = #[3] ∧ t'.labelsOf 2 = [4, 3]) = true := by
      decide +kernel
    obtain ⟨labels, t', hok, htest⟩ := exists_of_succeedsWith hrun
    obtain ⟨rfl, hnow⟩ := of_decide_eq_true htest
    obtain ⟨⟨before, op, since, hsplit, -, -, hthen⟩, -, -⟩ :=
      accumulatedLabels_current hw rfl hok
    exact ⟨t', hok, hnow, before, op, since, hsplit, hthen⟩
  · have hrun : succeedsWith (Tree.accumulatedLabels 0) (unlabelledClasses.after
        [.accumulate 0, .addLabel 1 "L" 5, .addLabel 0 "N" 6]).tree (fun labels _ =>
          labels = #[4]) = true := by
      decide +kernel
    obtain ⟨labels, t', hok, htest⟩ := exists_of_succeedsWith hrun
    obtain rfl := of_decide_eq_true htest
    obtain ⟨-, -, hblock⟩ := accumulatedLabels_current hw rfl hok
    exact ⟨t', hok, hblock (by decide +kernel)⟩
  · have hrun : succeedsWith (Tree.accumulatedLabels 2) (unlabelledClasses.after
        [.addLabel 2 "M" 4, .accumulate 2, .addLabel 0 "N" 6]).tree (fun labels _ =>
          labels = #[3]) = true := by
      decide +kernel
    obtain ⟨labels, t', hok, htest⟩ := exists_of_succeedsWith hrun
    obtain rfl := of_decide_eq_true htest
    obtain ⟨-, hcurrent, -⟩ := accumulatedLabels_current hw rfl hok
    refine ⟨t', hok, hcurrent [.addLabel 2 "M" 4] [.accumulate 2, .addLabel 0 "N" 6] rfl
      (by decide +kernel) fun later hlater => ?_⟩
    simp only [List.prefix_cons_iff, List.prefix_nil] at hlater
    rcases hlater with rfl | ⟨_, rfl, rfl | ⟨_, rfl, rfl⟩⟩
    all_goals
      exact ⟨by decide +kernel, [2, 1], .next (p := 1) (by decide +kernel)
        (.ends (by decide +kernel))⟩

end CheckState

end Simula
