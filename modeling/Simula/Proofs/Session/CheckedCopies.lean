import Simula.Proofs.AttributeFile.RoundTrip
import Simula.Proofs.Check.EnteredScopes
import Simula.Proofs.Check.KeptLinks
import Simula.Proofs.Meaning.CopiedClasses
import Simula.Proofs.Session.Enclosing

/-!
# Checking a copied module

A module that has been read from its file is a copy of the module that was written, but for the
links to nodes that were left out. It is declared in a block with its external declarations and
checked again. If no error is reported, each class still has the copy of its prefix class. The
specifications are paired anew, along the prefixes of the copies. Where the protected specification
was not left out, no class on the way to it was either, and so the copy of the pair is found.
-/

namespace Simula

/-! ## Copied classes -/

/-- The copied parts of a class. -/
def Tree.copiedParts (t : Tree) (detached : List NodeId) (copy : NodeId → NodeId)
    (c : ClassParts) : ClassParts :=
  ClassParts.relabel detached copy
    { c with body := { c.body with declarations := c.body.declarations.named t } }

/-- A copy is a class if its original is one, with the copied parts. -/
theorem NodeData.class?_relabel (t : Tree) (detached : List NodeId) (copy : NodeId → NodeId)
    (d : NodeData) :
    ((d.named t).relabel detached copy).class? = d.class?.map (t.copiedParts detached copy) := by
  rcases d with _ | ⟨_, _, form⟩ | _ | _ | _
  case declaration => cases form <;> rfl
  all_goals rfl

/-- Neither the identifier nor the scope of a node shows in its parts as a class. -/
theorem NodeData.class?_withDeclaredIn (i : String) (s : Option NodeId) (d : NodeData) :
    ((d.withIdentifier i).withDeclaredIn s).class? = d.class? := by
  rcases d with _ | ⟨_, _, form⟩ | _ | _ | _
  case declaration => cases form <;> rfl
  all_goals rfl

/-- Neither the identifier nor the scope of a hidden specification shows in its pair. -/
theorem NodeData.protectedBy?_withDeclaredIn (i : String) (s : Option NodeId) (d : NodeData) :
    ((d.withIdentifier i).withDeclaredIn s).protectedBy? = d.protectedBy? := by
  rcases d with _ | ⟨_, _, form⟩ | _ | _ | _
  case declaration => cases form <;> rfl
  all_goals rfl

/-- The copy of a node is declared in the copy of its scope. -/
theorem NodeData.declaredIn?_relabel (t : Tree) (detached : List NodeId) (copy : NodeId → NodeId)
    (d : NodeData) :
    ((d.named t).relabel detached copy).declaredIn? = copiedLink detached copy d.declaredIn? := by
  rcases d with _ | _ | _ | _ | _ <;> rfl

/-- The copy of a hidden specification has the copy of its protected one. -/
theorem NodeData.protectedBy?_relabel (t : Tree) (detached : List NodeId) (copy : NodeId → NodeId)
    (d : NodeData) :
    ((d.named t).relabel detached copy).protectedBy? =
      copiedLink detached copy d.protectedBy? := by
  rcases d with _ | ⟨_, _, form⟩ | _ | _ | _
  case declaration => cases form <;> rfl
  all_goals rfl

namespace Tree

variable {t u : Tree} {c : NodeId} {parts : ClassParts}

/-- A node with a scope is in the tree. -/
theorem lt_of_declaredIn {id scope : NodeId} (h : t.declaredIn? id = some scope) :
    id < t.size := by
  refine lt_of_data fun hpending => ?_
  rw [declaredIn?, hpending] at h
  cases h

/-- Only a class lists hidden specifications. -/
theorem exists_of_mem_hiddenSpecs {s : NodeId} (hs : s ∈ t.hiddenSpecs c) :
    ∃ parts, t.class? c = some parts ∧ s ∈ parts.hidden := by
  rw [hiddenSpecs] at hs
  split at hs
  · next parts hclass => exact ⟨parts, hclass, Array.mem_toList_iff.mp hs⟩
  · cases hs

/-- Trees with the same offers have the same hidden specifications. -/
theorem SameOffers.hiddenSpecs (h : t.SameOffers u) (c : NodeId) :
    u.hiddenSpecs c = t.hiddenSpecs c := by
  have hlists : ∀ w : Tree, w.hiddenSpecs c = ((w.class? c).map (·.hidden.toList)).getD [] :=
    fun w => by
      rw [Tree.hiddenSpecs]
      cases w.class? c <;> rfl
  rw [hlists, hlists, h.classPart (·.hidden.toList) fun _ => rfl]

/-- A hidden specification has an identifier. -/
theorem exists_identifier_of_protectedBy? {g p : NodeId} (h : t.protectedBy? g = some p) :
    ∃ i, t.identifier? g = some i := by
  rw [protectedBy?] at h
  split at h
  · next i _ _ hdata => exact ⟨i, by rw [identifier?, hdata]; rfl⟩
  · cases h

/-- A class stores its prefix class. -/
theorem mem_links_of_prefixClass {p : NodeId} (h : t.prefixClass? c = some p) :
    p ∈ (t.data c).links := by
  obtain ⟨parts, hclass, hp⟩ := Option.bind_eq_some_iff.mp h
  rw [class?] at hclass
  generalize t.data c = d at hclass ⊢
  rcases d with _ | ⟨_, _, form⟩ | _ | _ | _ <;> try cases hclass
  cases form <;> cases hclass
  simp [NodeData.links, NodeData.kind, Declaration.kind, Kind.layout?, Payload.links, Shape.links,
    Layout.classDeclaration, hp]

/-- The specifications that a class lists are below it, where its record cannot do without them. -/
theorem mem_children_of_listed (hclass : t.class? c = some parts) {s : NodeId}
    (hs : s ∈ parts.hidden ∨ s ∈ parts.guarded) :
    s ∈ t.children c ∧ s ∈ (t.data c).mandatory := by
  rw [class?] at hclass
  rw [children]
  generalize t.data c = d at hclass ⊢
  rcases d with _ | ⟨_, _, form⟩ | _ | _ | _ <;> try cases hclass
  cases form <;> cases hclass
  rcases hs with hs | hs <;> simp [NodeData.children, NodeData.mandatory, Declaration.children, hs]

/-- Copies with the identifiers of their originals are found in their place. -/
theorem findNamed_map {copy : NodeId → NodeId} (hrule : u.caseRule = t.caseRule)
    {ids : List NodeId} (hids : ∀ id ∈ ids, u.identifier? (copy id) = t.identifier? id)
    (x : String) : u.findNamed (ids.map copy) x = (t.findNamed ids x).map copy := by
  induction ids with
  | nil => rfl
  | cons id ids ih =>
    rw [List.forall_mem_cons] at hids
    have hrest := ih hids.2
    simp only [findNamed, sameIdentifier, hrule] at hrest
    simp only [findNamed, List.map_cons, List.find?_cons, hids.1, sameIdentifier, hrule, hrest]
    split <;> rfl

/-- What is below a node behind an external declaration, or above a class there, is behind it as
well. -/
theorem mem_externalGraph {externals : List NodeId} {x : NodeId}
    (hc : c ∈ AttributeFile.externalGraph t externals)
    (hx : x ∈ t.children c ∨ t.prefixClass? c = some x) (hlt : x < t.size) :
    x ∈ AttributeFile.externalGraph t externals := by
  rw [AttributeFile.externalGraph, Graph.mem_preorder_iff] at hc ⊢
  refine hc.step (List.mem_append.mpr (hx.imp_right fun hp => ?_)) hlt
  rw [hp]
  exact List.mem_singleton_self x

end Tree

namespace AttributeFile

/-- A module has been copied behind its external declarations and is enclosed with them. -/
structure Reopened (t : Tree) (module : NodeId) (externals : List NodeId) (copy : NodeId → NodeId)
    (before after enclosed : Tree) : Prop where
  restored : Restored t module externals copy before after
  external : ∀ e ∈ externals,
    t.kind e = .externalDeclaration ∧ before.kind (copy e) = .externalDeclaration
  caseRule : after.caseRule = t.caseRule
  block : after.Enclosed enclosed (externals.map copy ++ [copy module])

namespace Reopened

variable {t : Tree} {module : NodeId} {externals : List NodeId} {copy : NodeId → NodeId}
variable {before after u : Tree} (h : Reopened t module externals copy before after u)
include h

/-- The copy of an external declaration is in front of the copied nodes. -/
theorem external_lt {e : NodeId} (he : e ∈ externals) : copy e < before.size :=
  Tree.lt_of_kind (by simp [(h.external e he).2])

/-- The copy of a node with a record is in the tree. -/
theorem copy_lt {id : NodeId} (hid : HasRecord t module externals id) : copy id < after.size := by
  obtain ⟨o, ho, rfl⟩ := hid
  exact (h.restored.copy_bounds ho).2

/-- A copied class has the copied parts of its original, and what is no class has no copy that
is one. -/
theorem class?_copy {c : NodeId} (hc : HasRecord t module externals c) :
    u.class? (copy c) = (t.class? c).map (t.copiedParts (detached t module externals) copy) := by
  have hsame : u.class? (copy c) = after.class? (copy c) :=
    (h.block.keeps NodeData.class?_withDeclaredIn).same _ (h.copy_lt hc)
  rw [hsame, Tree.class?, h.restored.data_copy hc, NodeData.class?_relabel]
  rfl

/-- A node with a scope that has a record is copied as it is, with the copy of its scope. -/
theorem data_copy {id scope : NodeId} (hid : HasRecord t module externals id)
    (hscope : t.declaredIn? id = some scope) (hrecord : HasRecord t module externals scope) :
    u.data (copy id) = ((t.data id).named t).relabel (detached t module externals) copy := by
  have hundeclared : id ∉ externals ++ [module] := fun hmem =>
    hrecord.attached (declaredIn_mem_detached hmem hscope)
  rw [List.mem_append, List.mem_singleton, not_or] at hundeclared
  obtain ⟨o, ho, rfl⟩ := hid
  obtain ⟨hlow, hhigh⟩ := h.restored.copy_bounds ho
  rw [h.block.other _ hhigh, h.restored.data_copy ⟨o, ho, rfl⟩]
  rw [List.mem_append, List.mem_singleton, not_or]
  refine ⟨fun hmem => ?_, fun heq => hundeclared.2 ?_⟩
  · obtain ⟨e, he, heq⟩ := List.mem_map.mp hmem
    exact absurd (h.external_lt he) (Nat.not_lt.mpr (heq ▸ hlow))
  · exact h.restored.copy_inj ⟨o, ho, rfl⟩ h.restored.root heq

variable (hlisted : t.ListedInScope)
include hlisted

/-- A specification that a copied class lists is copied with its identifier and with the copy of
the class for its scope. -/
theorem specification {c s : NodeId} {parts : ClassParts} (hc : HasRecord t module externals c)
    (hclass : t.class? c = some parts) (hs : s ∈ parts.hidden ∨ s ∈ parts.guarded) :
    HasRecord t module externals s ∧ u.identifier? (copy s) = t.identifier? s ∧
      u.declaredIn? (copy s) = some (copy c) := by
  have hscope := hlisted c parts hclass s hs
  obtain ⟨hchild, hmandatory⟩ := Tree.mem_children_of_listed hclass hs
  have hattached : s ∉ detached t module externals := by
    obtain ⟨o, ho, rfl⟩ := hc
    exact (h.restored.readable o ho).attached s hmandatory
  have hrecord : HasRecord t module externals s := by
    refine ((hc.linked (NodeData.children_subset_links _ hchild)).resolve_left
      hattached).resolve_left fun he => ?_
    exact hc.attached (declaredIn_mem_detached (List.mem_append_left _ he) hscope)
  have hdata := h.data_copy hrecord hscope hc
  refine ⟨hrecord, ?_, ?_⟩
  · rw [Tree.identifier?, hdata, NodeData.identifier?_relabel]
    rfl
  · have hdeclared := congrArg NodeData.declaredIn? hdata
    rw [NodeData.declaredIn?_relabel] at hdeclared
    exact hdeclared.trans ((congrArg _ hscope).trans (copiedLink_of_notMem hc.attached copy))

/-- A search for a hidden specification in a copied class gives the copy of what it gives in the
class. -/
theorem hiddenSpec?_copy {c : NodeId} (hc : HasRecord t module externals c) (x : String) :
    u.hiddenSpec? (copy c) x = (t.hiddenSpec? c x).map copy := by
  rw [Tree.hiddenSpec?, h.class?_copy hc, Tree.hiddenSpec?]
  cases hclass : t.class? c with
  | none => rfl
  | some parts =>
    have hfound := Tree.findNamed_map (h.block.caseRule.trans h.caseRule) (fun s hs =>
      (h.specification hlisted hc hclass (.inl (Array.mem_toList_iff.mp hs))).2.1) x
    simpa [Tree.copiedParts, ClassParts.relabel] using hfound

/-- A search for a protected specification in a copied class gives the copy of what it gives in the
class. -/
theorem protectedSpec?_copy {c : NodeId} (hc : HasRecord t module externals c) (x : String) :
    u.protectedSpec? (copy c) x = (t.protectedSpec? c x).map copy := by
  rw [Tree.protectedSpec?, h.class?_copy hc, Tree.protectedSpec?]
  cases hclass : t.class? c with
  | none => rfl
  | some parts =>
    have hfound := Tree.findNamed_map (h.block.caseRule.trans h.caseRule) (fun s hs =>
      (h.specification hlisted hc hclass (.inr (Array.mem_toList_iff.mp hs))).2.1) x
    simpa [Tree.copiedParts, ClassParts.relabel] using hfound

omit hlisted in
/-- A prefix class that has not been left out is copied with its class. -/
theorem prefixClass?_copy {c p : NodeId} (hc : HasRecord t module externals c)
    (hp : t.prefixClass? c = some p) (hattached : p ∉ detached t module externals) :
    u.prefixClass? (copy c) = some (copy p) := by
  obtain ⟨parts, hclass, hparts⟩ := Option.bind_eq_some_iff.mp hp
  rw [Tree.prefixClass?, h.class?_copy hc, hclass]
  exact (congrArg _ hparts).trans (copiedLink_of_notMem hattached copy)

omit hlisted in
/-- A copied class lists the copies of its hidden specifications. -/
theorem hiddenSpecs_copy {c : NodeId} (hc : HasRecord t module externals c) :
    u.hiddenSpecs (copy c) = (t.hiddenSpecs c).map copy := by
  rw [Tree.hiddenSpecs, h.class?_copy hc, Tree.hiddenSpecs]
  cases t.class? c with
  | none => rfl
  | some parts => exact Array.toList_map

omit hlisted in
/-- A protected specification that has not been left out is copied with its hidden one. -/
theorem protectedBy?_copy {g p : NodeId} (hg : HasRecord t module externals g)
    (hp : t.protectedBy? g = some p) (hattached : p ∉ detached t module externals) :
    u.protectedBy? (copy g) = some (copy p) := by
  have hsame : u.protectedBy? (copy g) = (after.data (copy g)).protectedBy? :=
    (h.block.keeps NodeData.protectedBy?_withDeclaredIn).same _ (h.copy_lt hg)
  rw [hsame, h.restored.data_copy hg, NodeData.protectedBy?_relabel]
  exact (congrArg _ hp).trans (copiedLink_of_notMem hattached copy)

omit hlisted in
/-- Below the block there are no other classes than the copied ones. -/
theorem exists_of_mem_classesBelow {c : NodeId} (hc : c ∈ u.classesBelow after.size) :
    ∃ original, HasRecord t module externals original ∧ copy original = c := by
  obtain ⟨hclass, hreaches⟩ := Tree.mem_classesBelow_iff.mp hc
  have hleaf : ∀ e ∈ externals, ∃ i s k file m,
      after.data (copy e) = .declaration i s (.external k file m) := fun e he => by
    refine exists_external ?_
    rw [Tree.kind, h.restored.grown.data_eq (h.external_lt he)]
    exact (h.external e he).2
  have hids : ∀ id ∈ externals.map copy ++ [copy module],
      before.size ≤ id ∨ after.children id = [] := by
    intro id hid
    rcases List.mem_append.mp hid with hid | hid
    · obtain ⟨e, he, rfl⟩ := List.mem_map.mp hid
      obtain ⟨_, _, _, _, _, hdata⟩ := hleaf e he
      exact .inr (by rw [Tree.children, hdata]; rfl)
    · obtain ⟨o, ho, hroot⟩ := h.restored.root
      rw [List.mem_singleton.mp hid, ← hroot]
      exact .inl (h.restored.copy_bounds ho).1
  have hclosed : ∀ id, before.size ≤ id → id < after.size → ∀ n ∈ after.children id,
      n ∈ externals.map copy ++ [copy module] ∨ (before.size ≤ n ∧ n < after.size) :=
    fun id hlow hhigh n hn =>
      (h.restored.children hlow hhigh hn).imp_left (List.mem_append_left _)
  rcases h.block.inside_of_reaches hids hclosed hreaches with rfl | hmem | ⟨hlow, hhigh⟩
  · simp [Tree.isClass, Tree.class?, h.block.block, NodeData.class?] at hclass
  · rcases List.mem_append.mp hmem with hmem | hmem
    · obtain ⟨e, he, rfl⟩ := List.mem_map.mp hmem
      obtain ⟨_, _, _, _, _, hdata⟩ := hleaf e he
      have hsame := (h.block.keeps NodeData.class?_withDeclaredIn).same _
        (Nat.lt_of_lt_of_le (h.external_lt he) h.restored.grown.size_le)
      rw [Tree.isClass, Tree.class?, hsame, hdata] at hclass
      cases hclass
    · exact ⟨module, h.restored.root, (List.mem_singleton.mp hmem).symm⟩
  · obtain ⟨o, ho, rfl⟩ := h.restored.exists_opening hlow hhigh
    exact ⟨o.node, ⟨o, ho, rfl⟩, rfl⟩

end Reopened

/-! ## Enclosing a copy -/

section

variable {t : Tree} {module : NodeId} {externals : List NodeId} {copy : NodeId → NodeId}

/-- The copies of external declarations are external declarations with their identifiers. -/
theorem external_of_addExternals {loadExternal : NodeId → Loading NodeId}
    (hload : ∀ id, Follows LoadState.Extends (loadExternal id)) {s s' : LoadState}
    (hadd : addExternals loadExternal (externals.map (storedExternal t)) s =
      .ok (externals.map copy) s') {e : NodeId} (he : e ∈ externals) :
    s'.tree.kind (copy e) = t.kind e ∧ s'.tree.identifier? (copy e) = t.identifier? e := by
  have hkinds := (view_addExternals kind_withModule hload hadd).2
  have hnames := (view_addExternals identifier?_withModule hload hadd).2
  rw [List.map_map, List.map_map, List.map_inj_left] at hkinds hnames
  exact ⟨(hkinds e he).trans (kind_storedExternal t e),
    (hnames e he).trans (identifier?_storedExternal t e)⟩

/-- Copies with the identifiers of their originals can be declared together if these can. -/
theorem declarable_copies {u : Tree} {ids : List NodeId} (hrule : u.caseRule = t.caseRule)
    (hnames : ∀ id ∈ ids, u.identifier? (copy id) = t.identifier? id) (h : t.Declarable [] ids) :
    u.Declarable [] (ids.map copy) where
  complete _ _ := List.not_mem_nil
  named := List.forall_mem_map.mpr fun id hid => hnames id hid ▸ h.named id hid
  distinct := by
    rw [List.pairwise_map]
    refine h.distinct.imp_of_mem fun {a b} ha hb hne => ?_
    simpa only [Tree.DistinctNames, Tree.sameIdentifier, hrule, hnames a ha, hnames b hb] using hne

/-- A copied module can be enclosed if its identifier differs from those of its external
declarations, which differ from each other. -/
theorem Restored.exists_reopened {before after : Tree}
    (h : Restored t module externals copy before after) (hrule : after.caseRule = t.caseRule)
    (hexternals : ∀ e ∈ externals, t.kind e = .externalDeclaration)
    (hcopies : ∀ e ∈ externals,
      before.kind (copy e) = t.kind e ∧ before.identifier? (copy e) = t.identifier? e)
    (hdeclarable : t.Declarable [] (externals ++ [module])) (s : Session) :
    ∃ u, Session.enclose ⟨copy module, externals.map copy⟩ ⟨s, after⟩ = .ok after.size ⟨s, u⟩ ∧
      Reopened t module externals copy before after u := by
  have hkinds : ∀ e ∈ externals,
      t.kind e = .externalDeclaration ∧ before.kind (copy e) = .externalDeclaration :=
    fun e he => ⟨hexternals e he, (hcopies e he).1.trans (hexternals e he)⟩
  have hnames : ∀ id ∈ externals ++ [module], after.identifier? (copy id) = t.identifier? id := by
    intro id hid
    rcases List.mem_append.mp hid with he | hid
    · have hlt : copy id < before.size := Tree.lt_of_kind (by simp [(hkinds id he).2])
      rw [Tree.identifier?, h.grown.data_eq hlt]
      exact (hcopies id he).2
    · rw [List.mem_singleton.mp hid, Tree.identifier?, h.data_copy h.root,
        NodeData.identifier?_relabel]
      rfl
  have hmap : (externals ++ [module]).map copy = externals.map copy ++ [copy module] := by simp
  obtain ⟨u, henclose, hblock⟩ := Session.exists_enclose (c := ⟨s, after⟩)
    (m := ⟨copy module, externals.map copy⟩) (hmap ▸ declarable_copies hrule hnames hdeclarable)
  exact ⟨u, henclose, h, hkinds, hrule, hblock⟩

end

/-! ## The check of a copy -/

namespace Reopened

variable {t : Tree} {module : NodeId} {externals : List NodeId} {copy : NodeId → NodeId}
variable {before after u : Tree} (h : Reopened t module externals copy before after u)
variable {ds : Diagnostics} {r : CheckState} (hcheck : CheckM.check after.size ⟨u, ds⟩ = .ok () r)
include h hcheck

/-- After a check without errors a class has the copy of its prefix class, unless that was left
out. -/
theorem prefixClass?_of_check (herrors : r.diagnostics.errorCount = 0) {c p : NodeId}
    (hc : HasRecord t module externals c) (hp : t.prefixClass? c = some p)
    (hattached : p ∉ detached t module externals) :
    ((⟨u, ds⟩ : CheckState).withPrefixes after.size).tree.prefixClass? (copy c) = some (copy p) ∧
      r.tree.prefixClass? (copy c) = some (copy p) :=
  CheckM.prefixClass?_of_errorFree hcheck herrors (h.prefixClass?_copy hc hp hattached)

/-- When specifications are paired, the classes of the module have been copied, but for those behind
external declarations. -/
theorem copiesClasses (herrors : r.diagnostics.errorCount = 0) (hlisted : t.ListedInScope)
    (hscopes : ∀ id ∈ externals ++ [module], ∀ s ∈ t.declaredIn? id, t.isClass s = false) :
    t.CopiesClasses ((⟨u, ds⟩ : CheckState).withPrefixes after.size).tree copy
      (HasRecord t module externals) (· ∈ externalGraph t externals) where
  hidden {c} hc x := by
    rw [(CheckState.withPrefixes_regrows after.size ⟨u, ds⟩).regrown.offers.hiddenSpec?,
      h.hiddenSpec?_copy hlisted hc, Option.isSome_map]
  guarded {c} hc x := by
    rw [(CheckState.withPrefixes_regrows after.size ⟨u, ds⟩).regrown.offers.protectedSpec?,
      h.protectedSpec?_copy hlisted hc]
  declarer {c x spec} hc hspec := by
    obtain ⟨parts, hclass, hfound⟩ := Option.bind_eq_some_iff.mp hspec
    have hguarded := Array.mem_toList_iff.mp (Tree.mem_of_findNamed hfound)
    obtain ⟨-, -, hscope⟩ := h.specification hlisted hc hclass (.inr hguarded)
    have hkeeps : (⟨u, ds⟩ : CheckState).Keeps NodeData.declaredIn?
        ((⟨u, ds⟩ : CheckState).withPrefixes after.size) :=
      CheckState.withPrefixes_keeps (fun _ d => NodeData.view_modifyClass d fun _ _ _ => rfl) _ _
    exact (hkeeps.same _ (Tree.lt_of_declaredIn hscope)).trans hscope
  prefixClass {c p} hc hp hclass := by
    by_cases hattached : p ∈ detached t module externals
    · refine .inl ((List.mem_append.mp hattached).resolve_left fun hscope => ?_)
      obtain ⟨id, hid, hdeclared⟩ := List.mem_filterMap.mp hscope
      exact Bool.noConfusion (hclass.symm.trans (hscopes id hid p hdeclared))
    · refine .inr ⟨?_, (h.prefixClass?_of_check hcheck herrors hc hp hattached).1⟩
      refine ((hc.linked (Tree.mem_links_of_prefixClass hp)).resolve_left
        hattached).resolve_left fun he => ?_
      obtain ⟨_, _, _, _, _, hdata⟩ := exists_external (h.external p he).1
      rw [Tree.isClass, Tree.class?, hdata] at hclass
      cases hclass

/-- After a check without errors a hidden specification has the copy of its protected one, unless
that was left out. -/
theorem protectedBy?_of_check (herrors : r.diagnostics.errorCount = 0) (hlisted : t.ListedInScope)
    (hscopes : ∀ id ∈ externals ++ [module], ∀ s ∈ t.declaredIn? id, t.isClass s = false)
    (hpairs : t.PairsRecorded) {g p : NodeId} (hg : HasRecord t module externals g)
    (hp : t.protectedBy? g = some p) (hattached : p ∉ detached t module externals) :
    r.tree.protectedBy? (copy g) = some (copy p) := by
  have hoffers := (CheckState.withPrefixes_regrows after.size ⟨u, ds⟩).regrown.offers
  refine CheckM.protectedBy?_of_check hcheck (h.protectedBy?_copy hg hp hattached)
    fun c' hc' hmem => ?_
  obtain ⟨c, hc, rfl⟩ := h.exists_of_mem_classesBelow hc'
  -- The class is the copy of one that lists the hidden specification.
  rw [hoffers.hiddenSpecs, h.hiddenSpecs_copy hc] at hmem
  obtain ⟨g', hg', heq⟩ := List.mem_map.mp hmem
  obtain ⟨parts, hclass, hlists⟩ := Tree.exists_of_mem_hiddenSpecs hg'
  obtain ⟨hrecord, hname, -⟩ := h.specification hlisted hc hclass (.inl hlists)
  obtain rfl := h.restored.copy_inj hrecord hg heq
  obtain ⟨i, hi⟩ := Tree.exists_identifier_of_protectedBy? hp
  have hfound : t.findProtected c (t.specifiedName g') = some p := by
    rw [Tree.specifiedName, hi]
    exact hpairs c parts hclass g' hlists i hi p hp
  have hsame : ((⟨u, ds⟩ : CheckState).withPrefixes after.size).tree.specifiedName (copy g') =
      t.specifiedName g' := by
    rw [Tree.specifiedName, Tree.identifier?, hoffers.read _ NodeData.identifier?_offered]
    exact congrArg (·.getD "") hname
  -- What lists the protected specification is not behind an external declaration.
  obtain ⟨d, hd⟩ := hlisted.exists_declarer_of_findProtected hfound
  have hnot : d ∉ externalGraph t externals := fun hmem => hattached <| by
    obtain ⟨parts', hclass', hguarded⟩ := Option.bind_eq_some_iff.mp hd
    have hchild := (Tree.mem_children_of_listed hclass'
      (.inr (Array.mem_toList_iff.mp (Tree.mem_of_findNamed hguarded)))).1
    have hlt : p < t.size := Tree.lt_of_declaredIn (hlisted.declaredIn_protected hd)
    exact List.mem_append_right _ (Tree.mem_externalGraph hmem (.inl hchild) hlt)
  rw [hsame]
  exact (h.copiesClasses hcheck herrors hlisted hscopes).findProtected hlisted
    (fun hc hp hclass => Tree.mem_externalGraph hc (.inr hp) (Tree.lt_of_class hclass)) hc hfound
    hd hnot

end Reopened

end AttributeFile

end Simula
