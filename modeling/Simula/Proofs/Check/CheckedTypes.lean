import Simula.Proofs.Check.CalledExpressions
import Simula.Proofs.Check.PrefixOrder
import Simula.Proofs.Check.UndefinedTypes

/-!
# Types after a check

A check types every expression that it comes to. An expression may be typed more than once and from
several scopes, and the tree changes in between, but nothing of that takes a type away without an
error. So a check that reports no error leaves a type in every expression below its module.
-/

namespace Simula

open Relation

variable {t t' t₀ : Tree} {scope a b c d e : NodeId} {x : String} {s s₁ s' : CheckState}

/-! ## Declarations with types -/

namespace Tree

/-- An attribute that has been found is offered by the class that declares it. -/
theorem lookupLocal_of_searchAttribute {n : Nat} {outside behind : Bool} {start : Option NodeId}
    {found : Attribute} (h : t.searchAttribute x n outside behind start = some found) :
    t.lookupLocal found.declarer x = some found.declaration := by
  induction n generalizing outside behind start with
  | zero => simp at h
  | succ n ih =>
    cases start with
    | none => simp at h
    | some c =>
      rw [searchAttribute] at h
      split at h
      · exact ih h
      · split at h
        · next hlocal =>
          cases h
          exact hlocal
        · exact ih h

/-- What a scope offers under an identifier, some scope declares. -/
theorem lookupLocal_of_lookupScope {found : Attribute} {connected : Bool}
    (h : t.lookupScope scope x = some (found, connected)) :
    t.lookupLocal found.declarer x = some found.declaration := by
  rw [lookupScope_eq] at h
  split at h
  · obtain ⟨_, -, h⟩ := Option.bind_eq_some_iff.mp h
    obtain ⟨found', hfound, h⟩ := Option.map_eq_some_iff.mp h
    cases h
    exact lookupLocal_of_searchAttribute hfound
  · obtain ⟨d, hd, h⟩ := Option.map_eq_some_iff.mp h
    cases h
    exact hd

/-- What an identifier means is offered by some scope, perhaps through an external declaration. -/
theorem lookupLocal_of_resolveFrom {n : Nat} {start : NodeId} {at? : Option NodeId}
    (h : (t.resolveFrom start x n at?).declaration = some d) :
    ∃ c d', t.lookupLocal c x = some d' ∧ t.effective d' = d := by
  induction n generalizing at? with
  | zero => cases at? <;> cases h
  | succ n ih =>
    cases at? with
    | none => cases h
    | some scope =>
      rw [resolveFrom] at h
      split at h
      · next hscope => exact ⟨_, _, lookupLocal_of_lookupScope hscope, Option.some.inj h⟩
      · exact ih h

/-- So is what it means as an attribute of a class. -/
theorem lookupLocal_of_resolveRemote
    (h : (t.resolveRemote scope c x).declaration = some d) :
    ∃ c d', t.lookupLocal c x = some d' ∧ t.effective d' = d := by
  rw [resolveRemote] at h
  split at h
  · next hfound => exact ⟨_, _, lookupLocal_of_searchAttribute hfound, Option.some.inj h⟩
  · cases h

/-- What a scope declares under an identifier is what the identifier denotes there. -/
theorem resolve_of_lookupLocal (h : t.lookupLocal c x = some d) :
    (t.resolve c x).declaration = some (t.effective d) := by
  have hscope : t.lookupScope c x = some (⟨d, c, false⟩, false) := by
    have hlt := lt_of_lookupLocal h
    obtain ⟨n, hn⟩ := Nat.exists_eq_add_one.mpr (Nat.zero_lt_of_lt hlt)
    rw [lookupScope]
    split
    · next hdata =>
      rw [lookupLocal, hdata] at h
      cases h
    · rw [findAttribute, hn, searchAttribute]
      simp [h]
    · rw [h]
      rfl
  exact resolve_of_lookupScope hscope

/-- Identifiers denote what scopes declare under them. -/
theorem declaresTypes_of_lookupLocal
    (hlocal : ∀ {c x d}, t.lookupLocal c x = some d →
      (t.data (t.effective d)).declaredType ≠ .undefined)
    (hconversion : ∀ b x kind ty, t.data b = .expression (.conversion x kind) ty →
      ty ≠ .undefined) : t.DeclaresTypes := by
  refine ⟨fun scope x d hd => ?_, fun scope c x d hd => ?_, hconversion⟩
  · obtain ⟨_, _, hfound, rfl⟩ := lookupLocal_of_resolveFrom hd
    exact hlocal hfound
  · obtain ⟨_, _, hfound, rfl⟩ := lookupLocal_of_resolveRemote hd
    exact hlocal hfound

/-- Whether all declarations have types does not depend on links. -/
theorem DeclaresTypes.congr (h : t.DeclaresTypes) (hoffers : t.SameOffers t')
    (hconversion : ∀ b x kind ty, t'.data b = .expression (.conversion x kind) ty →
      t.data b = .expression (.conversion x kind) ty) : t'.DeclaresTypes := by
  refine declaresTypes_of_lookupLocal (fun {c x d} hd => ?_) fun b x kind ty hdata =>
    h.conversion b x kind ty (hconversion b x kind ty hdata)
  rw [hoffers.lookupLocal] at hd
  rw [hoffers.declaredType, hoffers.effective]
  exact h.resolve c x _ (resolve_of_lookupLocal hd)

/-- The nodes that a scope lists as declarations, parameters, labels or virtual specifications. -/
def listed (t : Tree) (c : NodeId) : List NodeId :=
  let data := t.data c
  ((data.declarations?.map (·.nodes)).getD [] ++ data.parameters) ++
    ((data.labels?.map (·.own.toList)).getD [] ++ (data.class?.map (·.virtuals.toList)).getD [])

/-- What a scope declares under an identifier it lists. -/
theorem mem_listed_of_lookupLocal (h : t.lookupLocal c x = some d) : d ∈ t.listed c := by
  have hnamed : ∀ {ids}, t.findNamed ids x = some d → d ∈ ids := List.mem_of_find?_eq_some
  rw [lookupLocal] at h
  simp only [Option.orElse_eq_orElse, Option.orElse_eq_or, Option.or_eq_some_iff,
    Option.bind_eq_some_iff] at h
  simp only [listed, List.mem_append]
  rcases h with ⟨l, hl, hfind⟩ | ⟨-, hfind | ⟨-, ⟨l, hl, hfind⟩ | ⟨-, parts, hparts, hfind⟩⟩⟩
  · obtain ⟨entry, hentry, rfl⟩ := Option.map_eq_some_iff.mp hfind
    refine .inl (.inl ?_)
    rw [hl]
    exact List.mem_map_of_mem (Array.mem_toList_iff.mpr (Array.mem_of_find?_eq_some hentry))
  · exact .inl (.inr (hnamed hfind))
  · exact .inr (.inl (by rw [hl]; exact hnamed hfind))
  · exact .inr (.inr (by rw [hparts]; exact hnamed hfind))

/-- It is enough that all nodes that scopes list have types. -/
theorem declaresTypes_of_listed
    (hlisted : ∀ c < t.size, ∀ d ∈ t.listed c, (t.data (t.effective d)).declaredType ≠ .undefined)
    (hconversion : ∀ b < t.size, (t.data b).converted?.isSome → t.typeAt b ≠ .undefined) :
    t.DeclaresTypes := by
  refine declaresTypes_of_lookupLocal (fun hd => ?_) fun b x kind ty hdata => ?_
  · exact hlisted _ (lt_of_lookupLocal hd) _ (mem_listed_of_lookupLocal hd)
  · have htype := hconversion b (lt_of_data (by simp [hdata])) (by rw [hdata]; rfl)
    rwa [typeAt, hdata] at htype

end Tree

/-! ## Steps that leave expressions alone -/

/-- The form and the type of an expression. -/
def NodeData.expression? : NodeData → Option (Expression × Ty)
  | expression form ty => some (form, ty)
  | _ => none

/-- The parts of an expression tell the whole node. -/
theorem NodeData.expression?_eq_some {data : NodeData} {form : Expression} {ty : Ty} :
    data.expression? = some (form, ty) ↔ data = .expression form ty := by
  cases data <;> simp [expression?]

/-- The type of an expression is one of its parts. -/
theorem NodeData.expressionType?_eq (data : NodeData) :
    data.expressionType? = data.expression?.map (·.2) := by
  cases data <;> rfl

namespace CheckState

/-- The step changes no expression, and no scope offers anything else after it. -/
structure LeavesExpressions (s s' : CheckState) : Prop where
  offers : s.tree.SameOffers s'.tree
  expressions : ∀ b, (s'.tree.data b).expression? = (s.tree.data b).expression?

namespace LeavesExpressions

/-- Doing nothing leaves the expressions. -/
theorem refl (s : CheckState) : s.LeavesExpressions s := ⟨.refl s.tree, fun _ => rfl⟩

/-- Steps that leave the expressions do so one after the other. -/
theorem trans (h : s.LeavesExpressions s₁) (h' : s₁.LeavesExpressions s') :
    s.LeavesExpressions s' :=
  ⟨h.offers.trans h'.offers, fun b => (h'.expressions b).trans (h.expressions b)⟩

instance : Std.Refl LeavesExpressions := ⟨refl⟩

instance : Trans LeavesExpressions LeavesExpressions LeavesExpressions := ⟨trans⟩

/-- A report leaves the expressions. -/
theorem report (s : CheckState) (d : Diagnostic) :
    s.LeavesExpressions { s with diagnostics := s.diagnostics.report d } :=
  ⟨.refl s.tree, fun _ => rfl⟩

/-- A change of one node leaves the expressions if it shows neither in them nor in what nodes
offer. -/
theorem update (s : CheckState) (id : NodeId) {f : NodeData → NodeData}
    (hseen : ∀ data, (f data).seen = data.seen)
    (hf : ∀ data, (f data).expression? = data.expression?) :
    s.LeavesExpressions (s.update id f) :=
  ⟨.update s.tree id fun data => congrArg Prod.fst (hseen data), Tree.view_update s.tree id hf⟩

/-- Giving a connection its class leaves the expressions. -/
theorem withConnectedClass (s : CheckState) (id : NodeId) (c : Option NodeId) (scope : NodeId) :
    s.LeavesExpressions (s.update id (CheckM.withConnectedClass c scope)) :=
  .update s id (undisturbed_seen.connectedClass c scope) fun data =>
    NodeData.view_withConnectedClass data fun _ _ => rfl

/-- Giving a node its scope leaves the expressions. -/
theorem withScope (s : CheckState) (id scope : NodeId) :
    s.LeavesExpressions (s.update id (CheckM.withScope scope)) :=
  .update s id (undisturbed_seen.scope scope) fun data =>
    NodeData.view_withScope data (fun _ _ _ => rfl) fun _ => rfl

/-- Numbering a label leaves the expressions. -/
theorem withLabelIndex (s : CheckState) (id : NodeId) (index : Nat) :
    s.LeavesExpressions (s.update id (Tree.withLabelIndex index)) :=
  .update s id (undisturbed_seen.labelIndex index) fun data =>
    NodeData.view_withLabelIndex data fun _ _ _ => rfl

/-- Computing something of labels leaves the expressions. -/
theorem withLabels (s : CheckState) (id : NodeId) (f : LabelList → LabelList)
    (hf : ∀ l, (f l).own = l.own) : s.LeavesExpressions
      (s.update id fun data => data.modifyBody fun b => { b with labels := f b.labels }) :=
  .update s id (undisturbed_seen.labels f hf) fun data => by cases data <;> rfl

/-- Preparing the classes of a module leaves the expressions. -/
theorem prepareClasses (s : CheckState) (module : NodeId) :
    s.LeavesExpressions (s.prepareClasses module) := by
  have hprefix : ∀ (s : CheckState) (id : NodeId) (p : Option NodeId),
      s.LeavesExpressions (s.update id fun data => data.modifyClass (·.withPrefixClass p)) :=
    fun s id p => .update s id (NodeData.seen_withPrefixClass p) fun data =>
      NodeData.view_modifyClass data fun _ _ _ => rfl
  have hprotected : ∀ (s : CheckState) (id p : NodeId),
      s.LeavesExpressions (s.update id (withProtectedBy p)) :=
    fun s id p => .update s id (undisturbed_seen.protectedBy p) fun data =>
      NodeData.view_withProtectedBy data fun _ _ _ => rfl
  have hhidden : ∀ (s : CheckState) (id h : NodeId),
      s.LeavesExpressions (s.update id (withHiddenBy h)) :=
    fun s id h => .update s id (undisturbed_seen.hiddenBy h) fun data =>
      NodeData.view_withHiddenBy data fun _ _ _ => rfl
  exact ((foldl_follows (resolvePrefix_follows report hprefix) _ s).trans
    (foldl_follows (cutPrefixCycle_follows report hprefix) _ _)).trans
    (foldl_follows (pairSpecifications_follows report hprotected hhidden) _ _)

variable (h : s.LeavesExpressions s')
include h

/-- The same nodes are expressions, with the same forms and types. -/
theorem data_eq {form : Expression} {ty : Ty} :
    s'.tree.data b = .expression form ty ↔ s.tree.data b = .expression form ty := by
  rw [← NodeData.expression?_eq_some, ← NodeData.expression?_eq_some, h.expressions]

/-- Nodes have the same types. -/
theorem typeAt (b : NodeId) : s'.tree.typeAt b = s.tree.typeAt b := by
  rw [Tree.typeAt, Tree.typeAt, NodeData.expressionType?_eq, NodeData.expressionType?_eq,
    h.expressions]

/-- If all declared quantities had types, they have them still. -/
theorem declaresTypes (htypes : s.tree.DeclaresTypes) : s'.tree.DeclaresTypes :=
  htypes.congr h.offers fun _ _ _ _ => h.data_eq.mp

end LeavesExpressions

end CheckState

/-! ## Checks without errors -/

/-- With more reports there are no fewer errors. -/
theorem CheckState.ReportsMore.errorCount_le (h : s.ReportsMore s') :
    s.diagnostics.errorCount ≤ s'.diagnostics.errorCount := by
  rw [Diagnostics.errorCount, Diagnostics.errorCount, ← Array.countP_toList, ← Array.countP_toList]
  exact h.sublist.countP_le

/-- The expressions that a check of the first tree comes to have types in the second. -/
def Tree.TypedBelow (t₀ t : Tree) (call : Call) : Prop :=
  ∀ e, ReflTransGen t₀.Calls call (.expression e) → t.typeAt e ≠ .undefined

/-- What a step of a check that makes some calls does to types. If it reports no error, all
expressions that the calls lead to have types behind it, and so have those that had types before. -/
structure TypesCalls (t₀ : Tree) (calls : List Call) (s s' : CheckState) : Prop where
  refitted : t₀.Refitted s'.tree
  reports : s.ReportsMore s'
  types : (∀ call ∈ calls, t₀.NamesExpressions call) → s.tree.DeclaresTypes →
    s'.tree.DeclaresTypes ∧ (s'.diagnostics.errorCount = s.diagnostics.errorCount →
      (∀ b, s.tree.typeAt b ≠ .undefined → s'.tree.typeAt b ≠ .undefined) ∧
        ∀ call ∈ calls, t₀.TypedBelow s'.tree call)

namespace TypesCalls

variable {calls calls' : List Call}

/-- Calls of one step and then of another are calls of both. -/
theorem append (h : TypesCalls t₀ calls s s₁) (h' : TypesCalls t₀ calls' s₁ s') :
    TypesCalls t₀ (calls ++ calls') s s' := by
  refine ⟨h'.refitted, h.reports.trans h'.reports, fun hnames htypes => ?_⟩
  obtain ⟨hnames, hnames'⟩ := List.forall_mem_append.mp hnames
  obtain ⟨htypes, hfirst⟩ := h.types hnames htypes
  obtain ⟨htypes, hsecond⟩ := h'.types hnames' htypes
  refine ⟨htypes, fun herrors => ?_⟩
  have hle := h.reports.errorCount_le
  have hle' := h'.reports.errorCount_le
  obtain ⟨hkeeps, htyped⟩ := hfirst (by omega)
  obtain ⟨hkeeps', htyped'⟩ := hsecond (by omega)
  refine ⟨fun b hb => hkeeps' b (hkeeps b hb), List.forall_mem_append.mpr ⟨?_, htyped'⟩⟩
  exact fun call hcall e he => hkeeps' e (htyped call hcall e he)

/-- A step that leaves expressions alone makes no calls. -/
theorem of_leavesExpressions {α : Type} {x : CheckM α} {a : α}
    (hperforms : CheckM.Performs t₀ (fun _ _ => True) [] x s)
    (hleaves : Follows CheckState.LeavesExpressions x) (hreports : Follows CheckState.ReportsMore x)
    (hrun : x s = .ok a s') : TypesCalls t₀ [] s s' := by
  have hleaves := hleaves.of_ok hrun
  refine ⟨(hperforms.ok hrun).1.refitted, hreports.of_ok hrun, fun _ htypes => ?_⟩
  exact ⟨hleaves.declaresTypes htypes, fun _ => ⟨fun b hb => hleaves.typeAt b ▸ hb, by simp⟩⟩

/-- What a scope or statement leads to is what its calls lead to. -/
theorem of_calls {call : Call} (h : TypesCalls t₀ (t₀.calls call) s s')
    (hcall : ∀ e, call ≠ .expression e) : TypesCalls t₀ [call] s s' := by
  refine ⟨h.refitted, h.reports, fun hnames htypes => ?_⟩
  have hnames := List.forall_mem_singleton.mp hnames
  obtain ⟨htypes, hsteps⟩ := h.types (fun call' hcall' => hnames.of_calls hcall') htypes
  refine ⟨htypes, fun herrors => ?_⟩
  obtain ⟨hkeeps, htyped⟩ := hsteps herrors
  refine ⟨hkeeps, List.forall_mem_singleton.mpr fun e he => ?_⟩
  rcases ReflTransGen.cases_head he with rfl | ⟨call', hcall', he⟩
  · exact absurd rfl (hcall e)
  · exact htyped call' hcall' e he

end TypesCalls

/-- Preparing the classes of a module loses no report. -/
theorem CheckState.prepareClasses_reportsMore (s : CheckState) (module : NodeId) :
    s.ReportsMore (s.prepareClasses module) :=
  ((s.forClasses_resolvePrefix_reportsMore _).trans
    (forClasses_cutPrefixCycle_reportsMore _ _)).trans
    (foldl_follows (pairSpecifications_follows ReportsMore.report (fun _ _ _ => List.prefix_rfl)
      fun _ _ _ => List.prefix_rfl) _ _)

/-- A conversion has a type. -/
theorem Tree.DeclaresTypes.typeAt_conversion (h : t.DeclaresTypes) {kind : ConversionKind}
    (hb : t.nesting b = .expression (.conversion c kind)) : t.typeAt b ≠ .undefined := by
  obtain ⟨ty, hdata⟩ := data_of_nesting_expression hb
  rw [typeAt, hdata]
  exact h.conversion b c kind ty hdata

/-- A node with a type is in the tree. -/
theorem Tree.lt_of_typeAt_ne (h : t.typeAt b ≠ .undefined) : b < t.size :=
  lt_of_data fun hpending => h (by rw [typeAt, hpending]; rfl)

/-- Typing an expression, when it succeeds, is such a step. -/
theorem CheckM.typeExpr_typesCalls {within : NodeId → Prop} (hregion : t₀.Region within)
    (he : within e) (h : t₀.Refitted s.tree) {depth : Nat} {ty : Ty}
    (hrun : typeExpr depth scope e s = .ok ty s') : TypesCalls t₀ [.expression e] s s' := by
  refine ⟨?_, ?_, fun hnames htypes => ?_⟩
  · exact ((preserves hregion depth).expression he h (.bare (hregion.lt he)) hrun).refitted
  · exact (typeExpr_follows typingFrame_reportsMore depth scope e).of_ok hrun
  have hnames := List.forall_mem_singleton.mp hnames
  have hbuilt := h.builtOfExpressions hregion he hnames
  have hacyclic := acyclicBelow_of_typeExpr (h.region hregion he hnames) hrun
  -- The depth was enough, so a greater one gives the same.
  obtain ⟨s₁, hrun₁, hannotates⟩ := typeExpr_annotates hacyclic scope
    (Nat.le_max_right depth (nestingLimit s.tree.size))
  rw [typeExpr_of_le (Nat.le_max_left _ _) hrun] at hrun₁
  cases hrun₁
  refine ⟨hannotates.declaresTypes htypes hacyclic, fun herrors => ⟨fun b hb => ?_, ?_⟩⟩
  · by_cases hreached : s.tree.Reaches e b
    · exact hannotates.typed htypes hacyclic hbuilt herrors hreached
    · rwa [Tree.typeAt_congr (hannotates.others b (Tree.lt_of_typeAt_ne hb) hreached)]
  · refine List.forall_mem_singleton.mpr fun b hb => ?_
    obtain ⟨_, ⟨⟩, hreached⟩ := Tree.reaches_of_calls hb
    exact hannotates.typed htypes hacyclic hbuilt herrors (h.reaches hregion he hreached)

namespace CheckM

variable {within : NodeId → Prop}

/-- Whatever a check is put together from, a run of it without errors gives types to all that its
calls lead to. -/
theorem callRules_typesCalls (t₀ : Tree) :
    CallRules t₀ fun _ calls x s => ∀ a s', x s = .ok a s' → TypesCalls t₀ calls s s' where
  bind hx hf b s' hrun := by
    obtain ⟨a, s₁, ha, hb⟩ := bind_eq_ok.mp hrun
    have hfirst := hx a s₁ ha
    exact hfirst.append (hf hfirst.refitted b s' hb)
  tree hf a s' hrun := hf a s' hrun
  onlyReports h hx _ _ :=
    .of_leavesExpressions (.of_onlyReports h hx) (hx.follows .report) (hx.follows .report)
  connectedClass id c scope h _ _ :=
    .of_leavesExpressions (.of_update h id (NodeData.nesting_withConnectedClass c scope))
      (update_follows fun s => .withConnectedClass s id c scope)
      (update_follows fun _ => List.prefix_rfl)
  scope id scope h _ _ :=
    .of_leavesExpressions (.of_update h id (NodeData.nesting_withScope scope))
      (update_follows fun s => .withScope s id scope) (update_follows fun _ => List.prefix_rfl)
  finishLabels scope h _ _ :=
    .of_leavesExpressions (finishLabels_performs h)
      (finishLabels_follows .withLabelIndex .withLabels scope)
      (checkFrame_reportsMore.scopeFrame.finishLabels scope)
  throw _ _ _ hrun := by cases hrun

/-- All checks to a given depth that succeed are such steps. -/
theorem judgesCalls_typesCalls (hregion : t₀.Region within) (depth : Nat) :
    JudgesCalls t₀ (fun _ calls x s => ∀ a s', x s = .ok a s' → TypesCalls t₀ calls s s')
      within depth := by
  induction depth with
  | zero => exact ⟨fun _ _ _ _ => nofun, fun _ _ _ _ => nofun, fun _ _ _ _ => nofun⟩
  | succ depth ih =>
    have hrules := callRules_typesCalls t₀
    refine ⟨fun hid h _ s' hrun => ?_, fun hid h _ s' hrun => ?_, fun he h ty s' hrun => ?_⟩
    · exact (hrules.checkScope ih hregion h hid () s' hrun).of_calls nofun
    · exact (hrules.checkStatement ih hregion h hid () s' hrun).of_calls nofun
    · exact typeExpr_typesCalls hregion he h hrun

/-- A check that reports no error leaves a type in all expressions below the module, those that were
there before and those that it has put in. -/
theorem check_types {module : NodeId} (hregion : s.tree.Region within) (hmodule : within module)
    (htypes : s.tree.DeclaresTypes) (hnames : s.tree.NamesExpressions (.scope module))
    (hrun : check module s = .ok () s')
    (herrors : s'.diagnostics.errorCount = s.diagnostics.errorCount) :
    s.tree.TypedBelow s'.tree (.scope module) ∧ s'.tree.TypedBelow s'.tree (.scope module) := by
  have hnesting := s.nesting_prepareClasses module
  have hleaves := CheckState.LeavesExpressions.prepareClasses s module
  have hregion' := hregion.congr (s.size_prepareClasses module) hnesting
  have hcalls : (s.prepareClasses module).tree.Calls = s.tree.Calls := by
    funext a b
    rw [Tree.Calls, Tree.Calls, Tree.calls_congr hnesting]
  have hnames' : (s.prepareClasses module).tree.NamesExpressions (.scope module) := by
    intro e he
    rw [NodeData.expressionType?_eq, hleaves.expressions, ← NodeData.expressionType?_eq]
    exact hnames e (hcalls ▸ he)
  have hchecked := (judgesCalls_typesCalls hregion' _).scope hmodule (.refl _) () s' hrun
  obtain ⟨hdeclares, hsteps⟩ :=
    hchecked.types (List.forall_mem_singleton.mpr hnames') (hleaves.declaresTypes htypes)
  have hle := (s.prepareClasses_reportsMore module).errorCount_le
  have hle' := hchecked.reports.errorCount_le
  have htyped := List.forall_mem_singleton.mp (hsteps (by omega)).2
  refine ⟨fun e he => htyped e (hcalls ▸ he), fun e he => ?_⟩
  have hroot : within (Call.scope module).node := hmodule
  rcases hchecked.refitted.wraps_of_calls hregion' hroot he with ⟨hne, -⟩ | ⟨z, _, ⟨⟩, hz, hw⟩
  · exact absurd rfl (hne e)
  · cases hw with
    | bare => exact htyped e hz
    | conversion _ _ hconversion _ => exact hdeclares.typeAt_conversion hconversion

/-- **An undefined type is never silent.** Take a tree in which all that identifiers can denote has
a type, and all conversions. An expression below which nothing is below itself can be typed from
every scope. If a node of the expression has no type behind that, it is one that was there before.
Typing this node alone gives no type either and reports an error, and all reports on it stand
together, in the same order, among those on the whole expression. So a check of a module that
succeeds without an error leaves types in all expressions below the module, whether they were there
before or are conversions that it has put in. -/
theorem undefined_explained (htypes : s.tree.DeclaresTypes) :
    (∀ scope e depth, s.tree.AcyclicBelow e → s.tree.BuiltOfExpressions e →
      nestingLimit s.tree.size ≤ depth →
      ∃ ty ds s₁, typeExpr depth scope e s = .ok ty s₁ ∧
        s₁.diagnostics = ds.foldl Diagnostics.report s.diagnostics ∧
        ∀ b, s₁.tree.Reaches e b → s₁.tree.typeAt b = .undefined → s.tree.Reaches e b ∧
          ∃ ds' s', typeExpr depth scope b s = .ok .undefined s' ∧
            s'.diagnostics = ds'.foldl Diagnostics.report s.diagnostics ∧ ds' <:+: ds ∧
            ∃ d ∈ ds', d.isError = true) ∧
    ∀ within module s', s.tree.Region within → within module →
      s.tree.NamesExpressions (.scope module) → check module s = .ok () s' →
      s'.diagnostics.errorCount = s.diagnostics.errorCount →
      s.tree.TypedBelow s'.tree (.scope module) ∧ s'.tree.TypedBelow s'.tree (.scope module) := by
  refine ⟨fun scope e depth he hbuilt hdepth => ?_, fun within module s' hregion hmodule hnames =>
    check_types hregion hmodule htypes hnames⟩
  obtain ⟨s₁, hrun, hannotates⟩ := typeExpr_annotates he scope hdepth
  refine ⟨_, _, s₁, hrun, hannotates.reports, fun b hb hundefined => ?_⟩
  have hregion := hbuilt.region he.lt_size
  have hrefitted := ((preserves hregion depth).expression .refl (.refl s.tree)
    (.bare (he.lt_size e .refl)) hrun).refitted
  obtain ⟨z, hz, hw⟩ := hrefitted.wraps_of_reaches hregion .refl hb
  cases hw with
  | conversion _ _ hconversion _ =>
    have hdeclares := hannotates.declaresTypes htypes he
    exact absurd hundefined (hdeclares.typeAt_conversion hconversion)
  | bare =>
    obtain ⟨s', hrun', hannotates'⟩ := typeExpr_annotates (he.of_reaches hz) scope hdepth
    have htype := (hannotates.finished b hz).type
    rw [hundefined] at htype
    exact ⟨hz, _, s', htype ▸ hrun', hannotates'.reports, Tree.reportsIn_of_reaches he scope hz,
      hannotates.exists_error htypes he hbuilt hz hundefined⟩

end CheckM

/-- A block with a real `R`, an integer `I` and the statement `R := I + 1`, and a sum `Y + 1` for
which nothing is declared. -/
def declaredSum : CheckState where
  tree := { nodes := #[
    ⟨1, .declaration "MAIN" none
      (.block { declarations := ⟨#[("R", 1), ("I", 2)]⟩, statements := #[8] })⟩,
    ⟨2, .declaration "R" (some 0) (.simpleVariable .real none)⟩,
    ⟨2, .declaration "I" (some 0) (.simpleVariable .integer none)⟩,
    ⟨3, .expression (.nameUse "R" []) .undefined⟩,
    ⟨3, .expression (.nameUse "I" []) .undefined⟩,
    ⟨3, .expression (.constant (.integer 1)) .undefined⟩,
    ⟨3, .expression (.binary .add 4 5) .undefined⟩,
    ⟨3, .expression (.assignment .value 3 6) .undefined⟩,
    ⟨3, .statement (.standalone 7)⟩,
    ⟨4, .expression (.nameUse "Y" []) .undefined⟩,
    ⟨4, .expression (.binary .add 9 5) .undefined⟩] }

/-- What a check of the block comes to. -/
def declaredSumCalls : List Call :=
  [.scope 0, .statement 8, .expression 7, .expression 3, .expression 6, .expression 4,
    .expression 5]

/-- The sum with the undeclared variable gets no type, and an error is reported on it. The check of
the block reports no error and leaves types in everything. -/
theorem CheckM.undefined_explained_declaredSum :
    (∃ (ds : List Diagnostic) (s₁ : CheckState),
      typeExpr 36 0 10 declaredSum = .ok .undefined s₁ ∧
      s₁.diagnostics = ds.foldl Diagnostics.report {} ∧ ∃ d ∈ ds, d.isError = true) ∧
    ∃ s', check 0 declaredSum = .ok () s' ∧ s'.diagnostics.errorCount = 0 ∧
      s'.tree.typeAt 6 ≠ .undefined ∧ s'.tree.TypedBelow s'.tree (.scope 0) := by
  have htypes : declaredSum.tree.DeclaresTypes :=
    Tree.declaresTypes_of_listed (by decide +kernel) (by decide +kernel)
  obtain ⟨hexpression, hcheck⟩ := undefined_explained htypes
  constructor
  · obtain ⟨ty, ds, s₁, hrun, -, hreports⟩ := hexpression 0 10 36
      (Tree.acyclicBelow_of_lt (by decide +kernel) (by decide))
      (Tree.builtOfExpressions_of_below (by decide +kernel) rfl) (by decide)
    have htest : succeedsWith (typeExpr 36 0 10) declaredSum (fun _ s₁ =>
        s₁.tree.typeAt 10 = .undefined) = true := by
      decide +kernel
    obtain ⟨_, _, hrun', htest⟩ := exists_of_succeedsWith htest
    rw [hrun] at hrun'
    cases hrun'
    obtain ⟨-, ds', s', hrun', hreports', -, herror⟩ :=
      hreports 10 .refl (of_decide_eq_true htest)
    exact ⟨ds', s', hrun', hreports', herror⟩
  · have hclasses : declaredSum.tree.classesBelow 0 = [] := by
      rw [Tree.classesBelow, Graph.preorder_of_within 20 rfl]
      rfl
    have htest : succeedsWith (checkScope 36 0) declaredSum (fun _ s' =>
        s'.diagnostics.errorCount = 0) = true := by
      decide +kernel
    obtain ⟨_, s', hscope, htest⟩ := exists_of_succeedsWith htest
    have hrun : check 0 declaredSum = .ok () s' := check_of_classesBelow hclasses hscope
    have hnodes : ∀ id < 9, ∀ n ∈ (declaredSum.tree.nesting id).nodes, n < 9 := by decide +kernel
    have hregion : declaredSum.tree.Region (· < 9) :=
      ⟨fun hid => Nat.lt_trans hid (by decide), fun hid => hnodes _ hid⟩
    have hclosed : ∀ call ∈ declaredSumCalls, ∀ call' ∈ declaredSum.tree.calls call,
        call' ∈ declaredSumCalls := by
      decide +kernel
    have hcalls : ∀ {call}, ReflTransGen declaredSum.tree.Calls (.scope 0) call →
        call ∈ declaredSumCalls := by
      intro call hcall
      induction hcall with
      | refl => decide
      | tail _ hstep ih => exact hclosed _ ih _ hstep
    have hnames : declaredSum.tree.NamesExpressions (.scope 0) := by
      intro e he
      have hmem := hcalls he
      simp only [declaredSumCalls, List.mem_cons, List.not_mem_nil, or_false, false_or,
        reduceCtorEq, Call.expression.injEq] at hmem
      rcases hmem with rfl | rfl | rfl | rfl | rfl <;> rfl
    obtain ⟨hbefore, hafter⟩ := hcheck (· < 9) 0 s' hregion (by decide) hnames hrun
      (of_decide_eq_true htest)
    refine ⟨s', hrun, of_decide_eq_true htest, hbefore 6 ?_, hafter⟩
    have hstatement : .statement 8 ∈ declaredSum.tree.calls (.scope 0) := by decide +kernel
    have hassignment : .expression 7 ∈ declaredSum.tree.calls (.statement 8) := by decide +kernel
    have hsum : .expression 6 ∈ declaredSum.tree.calls (.expression 7) := by decide +kernel
    exact ((ReflTransGen.single hstatement).tail hassignment).tail hsum

end Simula
