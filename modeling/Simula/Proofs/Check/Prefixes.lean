import Simula.Proofs.Check.Frame

/-!
# A prefix behind an external declaration

A class of a block may be prefixed by a separately compiled class, which the block knows through an
external declaration. A check finds that class by its identifier and records it. The class itself is
no part of the block, so its own prefix is left as it is: the chain ends there unless the prefix of
that class had been recorded before.
-/

namespace Simula

/-- A class is a node of the tree. -/
theorem Tree.lt_of_class {t : Tree} {id : NodeId} (h : t.isClass id = true) : id < t.size :=
  lt_of_data fun hpending => by simp [isClass, class?, hpending, NodeData.class?] at h

/-- Changing the parts of a class changes no other node. -/
theorem Tree.data_update_modifyClass {t : Tree} {c id : NodeId} (f : ClassParts → ClassParts)
    (h : id ≠ c ∨ t.class? id = none) : (t.update c (·.modifyClass f)).data id = t.data id := by
  by_cases hid : id = c
  · subst hid
    have hnone : (t.data id).class? = none := h.resolve_left fun hne => hne rfl
    by_cases hlt : id < t.size
    · rw [data_update_self _ hlt]
      revert hnone
      rcases t.data id with _ | ⟨_, _, f⟩ | _ | _ | _
      case declaration => cases f <;> simp [NodeData.class?, NodeData.modifyClass]
      all_goals exact fun _ => rfl
    · have hle : t.size ≤ id := Nat.le_of_not_lt hlt
      rw [data_of_size_le hle, data_of_size_le (Nat.le_trans (by simp) hle)]
  · exact data_update_of_ne _ hid

namespace CheckState

/-- Resolving the prefix of a class changes at most the prefix class of that class. -/
theorem tree_resolvePrefix (s : CheckState) (c : NodeId) :
    (s.resolvePrefix c).tree = s.tree ∨ ∃ p, (s.resolvePrefix c).tree =
      s.tree.update c fun d => d.modifyClass (·.withPrefixClass p) := by
  simp only [resolvePrefix]
  split
  · split
    · exact .inl rfl
    · split
      · exact .inr ⟨_, rfl⟩
      · exact .inl rfl
  · exact .inl rfl

/-- Cutting a circular prefix changes at most the prefix class of the class. -/
theorem tree_cutPrefixCycle (s : CheckState) (c : NodeId) :
    (s.cutPrefixCycle c).tree = s.tree ∨ ∃ p, (s.cutPrefixCycle c).tree =
      s.tree.update c fun d => d.modifyClass (·.withPrefixClass p) := by
  simp only [cutPrefixCycle]
  split
  · exact .inr ⟨_, rfl⟩
  · exact .inl rfl

/-- Resolving the prefix of a class changes no other node. -/
theorem data_resolvePrefix (s : CheckState) {c id : NodeId}
    (h : id ≠ c ∨ s.tree.class? id = none) :
    (s.resolvePrefix c).tree.data id = s.tree.data id := by
  rcases s.tree_resolvePrefix c with htree | ⟨p, htree⟩
  · rw [htree]
  · rw [htree, Tree.data_update_modifyClass _ h]

/-- Resolving a prefix leaves the case rule. -/
theorem caseRule_resolvePrefix (s : CheckState) (c : NodeId) :
    (s.resolvePrefix c).tree.caseRule = s.tree.caseRule := by
  rcases s.tree_resolvePrefix c with htree | ⟨p, htree⟩ <;> rw [htree]
  rfl

/-- Resolving prefixes and cutting circular chains keeps what does not show the prefix class. -/
theorem withPrefixes_keeps {β : Type} {view : NodeData → β}
    (hview : ∀ p d, view (d.modifyClass (·.withPrefixClass p)) = view d) (s : CheckState)
    (module : NodeId) : s.Keeps view (s.withPrefixes module) := by
  have hreport : ∀ (s : CheckState) (d : Diagnostic),
      s.Keeps view { s with diagnostics := s.diagnostics.report d } := fun s _ => .refl s.tree
  have hprefixClass : ∀ (s : CheckState) (id : NodeId) (p : Option NodeId),
      s.Keeps view (s.update id fun d => d.modifyClass (·.withPrefixClass p)) :=
    fun s id p => .update s.tree id (hview p)
  exact Tree.Keeps.trans (foldl_follows (resolvePrefix_follows hreport hprefixClass) _ s)
    (foldl_follows (cutPrefixCycle_follows hreport hprefixClass) _ _)

end CheckState

/-- An identifier that a block declares as an external one denotes the module behind it. -/
theorem Tree.resolve_external {t : Tree} {scope external module : NodeId} {i j p : String}
    {s s' : Option NodeId} {b : Body} {k : Kind} {file : String}
    (hblock : t.data scope = .declaration i s (.block b))
    (hfind : b.declarations.find? t.caseRule p = some external)
    (hexternal : t.data external = .declaration j s' (.external k file (some module))) :
    (t.resolve scope p).declaration = some module := by
  have hlookup : t.lookupScope scope p = some (⟨external, scope, false⟩, false) := by
    have hlocal : t.lookupLocal scope p = some external := by
      simp [lookupLocal, hblock, NodeData.declarations?, NodeData.body?, Declaration.body?, hfind]
    simp [lookupScope, hblock, hlocal]
  have heffective : t.effective external = module := by
    simp [effective, hexternal]
  have hsize : t.size = t.size - 1 + 1 := by
    have hlt : scope < t.size := lt_of_data (by simp [hblock])
    exact (Nat.sub_add_cancel (Nat.lt_of_le_of_lt (Nat.zero_le _) hlt)).symm
  rw [resolve, hsize, resolveFrom, hlookup]
  simp [heffective]

/-- A class of a block is prefixed by a class without a prefix class, which the block knows through
an external declaration. -/
structure Tree.PrefixInSight (t : Tree) (block external module previous : NodeId) (p : String) :
    Prop where
  declares : ∃ i s b, t.data block = .declaration i s (.block b) ∧
    b.declarations.find? t.caseRule p = some external
  linked : ∃ i s k file,
    t.data external = .declaration i s (.external k file (some previous))
  prefixed : ∃ i parts, t.data module = .declaration i (some block) (.classDeclaration parts) ∧
    parts.prefixName = some p ∧ (parts.prefixClass = none ∨ parts.prefixClass = some previous)
  isClass : t.isClass previous = true
  root : t.prefixClass? previous = none

namespace Tree.PrefixInSight

variable {block external module previous : NodeId} {p : String}

/-- The situation outlasts changes that leave the nodes around the class. -/
theorem transfer {t t' : Tree} (h : t.PrefixInSight block external module previous p)
    (hrule : t'.caseRule = t.caseRule) (hblock : t'.data block = t.data block)
    (hexternal : t'.data external = t.data external)
    (hprevious : t'.data previous = t.data previous) {i : String} {parts : ClassParts}
    (hmodule : t'.data module = .declaration i (some block) (.classDeclaration parts))
    (hname : parts.prefixName = some p)
    (hlink : parts.prefixClass = none ∨ parts.prefixClass = some previous) :
    t'.PrefixInSight block external module previous p where
  declares := by
    rw [hrule, hblock]
    exact h.declares
  linked := by
    rw [hexternal]
    exact h.linked
  prefixed := ⟨i, parts, hmodule, hname, hlink⟩
  isClass := by
    rw [Tree.isClass, class?, hprevious]
    exact h.isClass
  root := by
    rw [prefixClass?, class?, hprevious]
    exact h.root

variable {s : CheckState}

/-- The class gets its prefix class, unless it has it. -/
theorem resolvePrefix_module (h : s.tree.PrefixInSight block external module previous p) :
    (s.resolvePrefix module).tree = s.tree ∧ s.tree.prefixClass? module = some previous ∨
    (s.resolvePrefix module).tree = s.tree.update module fun d =>
      d.modifyClass (·.withPrefixClass (some previous)) := by
  obtain ⟨i, parts, hdata, hname, hlink⟩ := h.prefixed
  have hclass : s.tree.class? module = some parts := by simp [class?, hdata, NodeData.class?]
  rcases hlink with hlink | hlink
  · right
    obtain ⟨_, _, _, hblock, hfind⟩ := h.declares
    obtain ⟨_, _, _, _, hexternal⟩ := h.linked
    have hscope : s.tree.declaredIn? module = some block := by
      simp [declaredIn?, hdata, NodeData.declaredIn?]
    simp [CheckState.resolvePrefix, hclass, hname, hlink, hscope,
      resolve_external hblock hfind hexternal, h.isClass, CheckState.update]
  · left
    simp [CheckState.resolvePrefix, prefixClass?, hclass, hlink]

/-- Resolving the prefix of any class but the prefixing one keeps the situation, and gives the class
its prefix class when it is its turn. -/
theorem resolvePrefix (h : s.tree.PrefixInSight block external module previous p) {c : NodeId}
    (hc : c ≠ previous) :
    (s.resolvePrefix c).tree.PrefixInSight block external module previous p ∧
      (c = module ∨ s.tree.prefixClass? module = some previous →
        (s.resolvePrefix c).tree.prefixClass? module = some previous) := by
  obtain ⟨i, parts, hdata, hname, hlink⟩ := h.prefixed
  have hblock : (s.resolvePrefix c).tree.data block = s.tree.data block := by
    obtain ⟨_, _, _, hb, -⟩ := h.declares
    exact s.data_resolvePrefix (.inr (by simp [class?, hb, NodeData.class?]))
  have hexternal : (s.resolvePrefix c).tree.data external = s.tree.data external := by
    obtain ⟨_, _, _, _, he⟩ := h.linked
    exact s.data_resolvePrefix (.inr (by simp [class?, he, NodeData.class?]))
  have hprevious := s.data_resolvePrefix (.inl hc.symm)
  have hrule := s.caseRule_resolvePrefix c
  by_cases hmodule : module = c
  · subst hmodule
    rcases h.resolvePrefix_module with ⟨htree, hresolved⟩ | htree
    · rw [htree]
      exact ⟨h, fun _ => hresolved⟩
    · have hdata' : (s.resolvePrefix module).tree.data module = .declaration i (some block)
          (.classDeclaration (parts.withPrefixClass (some previous))) := by
        rw [htree, data_update_self _ (lt_of_data (by simp [hdata])), hdata]
        rfl
      refine ⟨h.transfer hrule hblock hexternal hprevious hdata' hname (.inr rfl), fun _ => ?_⟩
      simp [prefixClass?, class?, hdata', NodeData.class?, ClassParts.withPrefixClass]
  · have hdata' := s.data_resolvePrefix (.inl hmodule)
    refine ⟨h.transfer hrule hblock hexternal hprevious (hdata'.trans hdata) hname hlink,
      fun hresolved => ?_⟩
    rw [prefixClass?, class?, hdata']
    exact hresolved.resolve_left (Ne.symm hmodule)

/-- Once the prefixes of some classes are resolved, the class has its prefix class if it is one of
them. -/
theorem forClasses_resolvePrefix (h : s.tree.PrefixInSight block external module previous p)
    {classes : List NodeId} (hprevious : previous ∉ classes)
    (hmodule : module ∈ classes ∨ s.tree.prefixClass? module = some previous) :
    (s.forClasses CheckState.resolvePrefix classes).tree.prefixClass? module = some previous ∧
      (s.forClasses CheckState.resolvePrefix classes).tree.prefixClass? previous = none := by
  induction classes generalizing s with
  | nil => exact ⟨hmodule.resolve_left List.not_mem_nil, h.root⟩
  | cons c classes ih =>
    rw [List.mem_cons, not_or] at hprevious
    obtain ⟨h', hresolved⟩ := h.resolvePrefix (Ne.symm hprevious.1)
    refine ih h' hprevious.2 ?_
    rcases hmodule with hmodule | hmodule
    · rcases List.mem_cons.mp hmodule with rfl | hmem
      · exact .inr (hresolved (.inl rfl))
      · exact .inl hmem
    · exact .inr (hresolved (.inr hmodule))

end Tree.PrefixInSight

/-- A node with a prefix class is in the tree. -/
theorem Tree.lt_of_prefixClass {t : Tree} {c p : NodeId} (h : t.prefixClass? c = some p) :
    c < t.size :=
  lt_of_data fun hpending => by simp [prefixClass?, class?, hpending, NodeData.class?] at h

/-- A class whose prefix has none of its own is not that prefix. -/
theorem Tree.ne_of_prefixClass {t : Tree} {module previous : NodeId}
    (hmodule : t.prefixClass? module = some previous)
    (hprevious : t.prefixClass? previous = none) : previous ≠ module := by
  rintro rfl
  rw [hprevious] at hmodule
  cases hmodule

/-- A chain of two classes is not circular, so it is not cut. -/
theorem CheckState.cutPrefixCycle_of_pair {s : CheckState} {module previous : NodeId}
    (hmodule : s.tree.prefixClass? module = some previous)
    (hprevious : s.tree.prefixClass? previous = none) (c : NodeId) :
    (s.cutPrefixCycle c).tree.prefixClass? module = some previous ∧
      (s.cutPrefixCycle c).tree.prefixClass? previous = none := by
  have hne : previous ≠ module := Tree.ne_of_prefixClass hmodule hprevious
  have hkeeps : ∀ id, id ≠ c → (s.cutPrefixCycle c).tree.prefixClass? id =
      s.tree.prefixClass? id := by
    intro id hid
    rcases s.tree_cutPrefixCycle c with htree | ⟨p, htree⟩
    · rw [htree]
    · rw [htree, Tree.prefixClass?, Tree.class?, Tree.data_update_of_ne _ hid]
      rfl
  have hsame : c = module ∨ c = previous → s.cutPrefixCycle c = s := by
    rintro (rfl | rfl)
    · simp [cutPrefixCycle, Tree.inPrefixCycle, hmodule, Tree.chainReaches, hne, hprevious]
    · simp [cutPrefixCycle, Tree.inPrefixCycle, hprevious, Tree.chainReaches]
  by_cases hc : c = module ∨ c = previous
  · rw [hsame hc]
    exact ⟨hmodule, hprevious⟩
  · rw [not_or] at hc
    rw [hkeeps module (Ne.symm hc.1), hkeeps previous (Ne.symm hc.2)]
    exact ⟨hmodule, hprevious⟩

/-- Cutting circular prefixes leaves a chain of two classes. -/
theorem CheckState.forClasses_cutPrefixCycle_of_pair {s : CheckState} {module previous : NodeId}
    (hmodule : s.tree.prefixClass? module = some previous)
    (hprevious : s.tree.prefixClass? previous = none) (classes : List NodeId) :
    (s.forClasses cutPrefixCycle classes).tree.prefixClass? module = some previous ∧
      (s.forClasses cutPrefixCycle classes).tree.prefixClass? previous = none := by
  induction classes generalizing s with
  | nil => exact ⟨hmodule, hprevious⟩
  | cons c classes ih =>
    obtain ⟨hmodule', hprevious'⟩ := cutPrefixCycle_of_pair hmodule hprevious c
    exact ih hmodule' hprevious'

/-- **A prefix behind an external declaration.** A check of a block records the prefix class of a
class of the block if it is known through an external declaration, and leaves that class, if it is
no part of the block, without a prefix class. -/
theorem CheckM.prefixClass_of_external {s : CheckState}
    {block external module previous : NodeId} {p : String}
    (h : s.tree.PrefixInSight block external module previous p)
    (hmodule : module ∈ s.tree.classesBelow block)
    (hprevious : previous ∉ s.tree.classesBelow block) :
    (leaves (check block) s).tree.prefixClass? module = some previous ∧
      (leaves (check block) s).tree.prefixClass? previous = none := by
  obtain ⟨hresolved, hroot⟩ := h.forClasses_resolvePrefix hprevious (.inl hmodule)
  obtain ⟨hcut, hcutRoot⟩ := CheckState.forClasses_cutPrefixCycle_of_pair hresolved hroot
    (s.tree.classesBelow block)
  have hkeeps := check_keeps undisturbed_prefixClass block s
  have hsize := (@CheckState.withPrefixes_keeps Unit (fun _ => ()) (fun _ _ => rfl) s block).size_le
  have hlt : ∀ id, s.tree.isClass id = true → id < (s.withPrefixes block).tree.size := fun id hid =>
    Nat.lt_of_lt_of_le (Tree.lt_of_class hid) hsize
  obtain ⟨_, _, hdata, -⟩ := h.prefixed
  have hclass : s.tree.isClass module = true := by
    simp [Tree.isClass, Tree.class?, hdata, NodeData.class?]
  exact ⟨(hkeeps.same module (hlt module hclass)).trans hcut,
    (hkeeps.same previous (hlt previous h.isClass)).trans hcutRoot⟩

/-- A scope that offers something is in the tree. -/
theorem Tree.lt_of_lookupLocal {t : Tree} {scope d : NodeId} {x : String}
    (h : t.lookupLocal scope x = some d) : scope < t.size := by
  refine lt_of_data fun hpending => ?_
  rw [lookupLocal, hpending] at h
  cases h

/-! ## Chains of two -/

section

variable {t : Tree} {module previous : NodeId} (hmodule : t.prefixClass? module = some previous)
variable (hprevious : t.prefixClass? previous = none)
include hmodule hprevious

/-- A class whose prefix has none of its own has a chain of two. -/
theorem Tree.prefixChain_of_pair : t.prefixChain module = [module, previous] := by
  have hne : previous ≠ module := ne_of_prefixClass hmodule hprevious
  have hsize : t.size = t.size - 1 + 1 :=
    (Nat.sub_add_cancel (Nat.lt_of_le_of_lt (Nat.zero_le _) (lt_of_prefixClass hmodule))).symm
  have hend : ∀ n seen, t.prefixesAbove n seen previous = [] := by
    intro n seen
    cases n with
    | zero => rfl
    | succ n => simp [prefixesAbove, hprevious]
  rw [prefixChain, hsize, prefixesAbove, hmodule]
  simp [hne, hend]

/-- Such a class has one class to be a subclass of. -/
theorem Tree.isSubclass_of_pair (d : NodeId) : t.isSubclass module d = true ↔ d = previous := by
  rw [isSubclass, prefixChain_of_pair hmodule hprevious]
  simp

/-- From inside such a class an identifier denotes what the class offers, or else what its prefix
offers, if the prefix does not hide it. -/
theorem Tree.findAttribute_of_pair {x : String} (hhidden : t.hiddenSpec? previous x = none) :
    t.findAttribute module x false =
      ((t.lookupLocal module x).map fun d => ⟨d, module, false⟩).or
        ((t.lookupLocal previous x).map fun d => ⟨d, previous, false⟩) := by
  have hsearch : ∀ steps, t.searchAttribute x (steps + 1) true false (some previous) =
      (t.lookupLocal previous x).map fun d => ⟨d, previous, false⟩ := by
    intro steps
    cases hlocal : t.lookupLocal previous x <;>
      simp [searchAttribute, hhidden, hlocal, hprevious]
  have hlt := lt_of_prefixClass hmodule
  obtain ⟨steps, hsteps⟩ := Nat.exists_eq_add_of_lt (Nat.lt_of_le_of_lt (Nat.zero_le _) hlt)
  rw [findAttribute, hsteps, Nat.zero_add]
  cases hlocal : t.lookupLocal module x with
  | some d => simp [searchAttribute, hlocal]
  | none =>
    simp only [searchAttribute, hlocal, hmodule, Bool.false_eq_true, if_false, Option.map_none,
      Option.none_or]
    cases steps with
    | succ steps => exact hsearch steps
    | zero =>
      -- In a tree of one node the prefix class is no node, so it offers nothing.
      have hnone : t.lookupLocal previous x = none := by
        refine Option.eq_none_iff_forall_ne_some.mpr fun d hd => ?_
        have hprevious_lt := lt_of_lookupLocal hd
        rw [hsteps] at hlt hprevious_lt
        exact ne_of_prefixClass hmodule hprevious
          ((Nat.lt_one_iff.mp hprevious_lt).trans (Nat.lt_one_iff.mp hlt).symm)
      rw [hnone]
      rfl

end

/-- A check runs its phases on the classes below the module. -/
theorem CheckM.check_of_classesBelow {s s' : CheckState} {module : NodeId} {classes : List NodeId}
    (hclasses : s.tree.classesBelow module = classes)
    (h : checkScope (nestingLimit s.tree.size) module
      (((s.forClasses CheckState.resolvePrefix classes).forClasses CheckState.cutPrefixCycle
        classes).forClasses CheckState.pairSpecifications classes) = .ok () s') :
    check module s = .ok () s' := by
  subst hclasses
  exact h

end Simula
