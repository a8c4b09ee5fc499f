import Simula.Proofs.Check.CallRules
import Simula.Proofs.Check.Depth

/-!
# The way down

What a check does with a node to some depth is a sequence of the calls that the tree gives for it,
each one level less deep, with steps between them that neither run out nor change the nesting. This
is proved once for each part in which a node is met. It follows that a check that succeeds has gone
through everything that its node leads to, and that a check that runs out has followed a chain of
calls as long as the depth allows.
-/

namespace Simula

/-- A run of conversions leads from one expression to another. -/
def Tree.Converts (t : Tree) : NodeId → NodeId → Prop :=
  Relation.ReflTransGen fun a b => ∃ kind, t.nesting a = .expression (.conversion b kind)

namespace CheckM

variable {α β : Type}

/-- The two ways in which the outcome of an action tells something about the nesting. -/
inductive Outcome
  | succeeds
  | runsOut

/-- An action ends in one of these ways. -/
def Outcome.Of (x : CheckM α) (s : CheckState) : Outcome → Prop
  | succeeds => ∃ a s', x s = .ok a s'
  | runsOut => RunsOut x s

/-- The check of a tree, at a state that it may be in, types an expression or one under its
conversions with this outcome. -/
def TypedBare (t₀ : Tree) (depth : Nat) (o : Outcome) (e : NodeId) : Prop :=
  ∃ z, t₀.Converts e z ∧ z < t₀.size ∧
    ∃ scope s, t₀.Refitted s.tree ∧ o.Of (typeExpr depth scope z) s

/-- The check of a tree, at a state that it may be in, meets a node with this outcome. An expression
may be met through conversions that the check has put around it. -/
def Meets (t₀ : Tree) (depth : Nat) (o : Outcome) : Call → Prop
  | .scope id => ∃ s, t₀.Refitted s.tree ∧ o.Of (checkScope depth id) s
  | .statement id => ∃ scope s, t₀.Refitted s.tree ∧ o.Of (checkStatement depth scope id) s
  | .expression e => ∃ z, t₀.Converts e z ∧ ∃ scope id s, t₀.Refitted s.tree ∧
      s.tree.Wraps t₀.size z id ∧ o.Of (typeExpr depth scope id) s

/-- An expression that is typed is met. -/
theorem TypedBare.meets {t₀ : Tree} {depth : Nat} {o : Outcome} {e : NodeId}
    (h : TypedBare t₀ depth o e) : Meets t₀ depth o (.expression e) := by
  obtain ⟨z, hz, hlt, scope, s, hs, ho⟩ := h
  exact ⟨z, hz, scope, z, s, hs, .bare hlt, ho⟩

/-- What an action does is to make some calls, with the outcomes that `M` gives for each. -/
structure Performs (t₀ : Tree) (M : Outcome → Call → Prop) (calls : List Call) (x : CheckM α)
    (s : CheckState) : Prop where
  ok : ∀ {a s'}, x s = .ok a s' → t₀.Refits s.tree s'.tree ∧ ∀ c ∈ calls, M .succeeds c
  out : RunsOut x s → ∃ c ∈ calls, M .runsOut c

namespace Performs

variable {t₀ : Tree} {M : Outcome → Call → Prop} {s : CheckState} {x : CheckM α}
variable {f : α → CheckM β} {cs ds : List Call}

/-- Actions that follow each other make the calls of both. -/
theorem bind (hx : Performs t₀ M cs x s)
    (hf : ∀ {a s'}, x s = .ok a s' → t₀.Refits s.tree s'.tree → Performs t₀ M ds (f a) s') :
    Performs t₀ M (cs ++ ds) (x >>= f) s where
  ok h := by
    obtain ⟨a, s₁, ha, hb⟩ := bind_eq_ok.mp h
    obtain ⟨hrefits, hcs⟩ := hx.ok ha
    obtain ⟨hrefits', hds⟩ := (hf ha hrefits).ok hb
    exact ⟨hrefits.trans hrefits', List.forall_mem_append.mpr ⟨hcs, hds⟩⟩
  out h := by
    rcases h.of_bind with h | ⟨a, s₁, ha, h⟩
    · obtain ⟨c, hc, hmeets⟩ := hx.out h
      exact ⟨c, List.mem_append_left _ hc, hmeets⟩
    · obtain ⟨c, hc, hmeets⟩ := (hf ha (hx.ok ha).1).out h
      exact ⟨c, List.mem_append_right _ hc, hmeets⟩

/-- What is known of each call may be weakened. -/
theorem mono {M' : Outcome → Call → Prop} (hx : Performs t₀ M cs x s)
    (hM : ∀ o, ∀ c ∈ cs, M o c → M' o c) : Performs t₀ M' cs x s where
  ok h := ⟨(hx.ok h).1, fun c hc => hM _ c hc ((hx.ok h).2 c hc)⟩
  out h := by
    obtain ⟨c, hc, hmeets⟩ := hx.out h
    exact ⟨c, hc, hM _ c hc hmeets⟩

/-- Looking at the tree changes nothing. -/
theorem tree {f : Tree → CheckM β} (hf : Performs t₀ M cs (f s.tree) s) :
    Performs t₀ M cs (CheckM.tree >>= f) s :=
  ⟨hf.ok, hf.out⟩

/-- A step that succeeds and does not change the nesting makes no calls. -/
theorem of_ok (h : t₀.Refitted s.tree) {a : α} {s' : CheckState} (hx : x s = .ok a s')
    (hkeeps : s.tree.Keeps NodeData.nesting s'.tree) : Performs t₀ M [] x s where
  ok h' := by
    rw [hx] at h'
    cases h'
    exact ⟨h.refits_of_keeps hkeeps, nofun⟩
  out h' := by
    obtain ⟨id, s', h'⟩ := h'
    rw [hx] at h'
    cases h'

/-- A step that only reports makes no calls. -/
theorem of_onlyReports (h : t₀.Refitted s.tree) (hx : OnlyReports x) :
    Performs t₀ M [] x s := by
  obtain ⟨a, d, hrun⟩ := hx s
  exact of_ok h hrun (.refl s.tree)

/-- A change that does not show in the nesting makes no calls. -/
theorem of_update (h : t₀.Refitted s.tree) (id : NodeId) {f : NodeData → NodeData}
    (hf : ∀ d, (f d).nesting = d.nesting) : Performs t₀ M [] (update id f) s :=
  of_ok h rfl (.update s.tree id hf)

/-- A mistake in the tree ends a check without running out. -/
theorem of_throw {e : Error} (he : ∀ id, e ≠ .internal (.endlessNesting id)) :
    Performs t₀ M cs (throw e : CheckM α) s where
  ok h := by cases h
  out h := by
    obtain ⟨id, s', h⟩ := h
    cases h
    exact absurd rfl (he id)

/-- Steps that make no calls may follow. -/
theorem andThen (hx : Performs t₀ M cs x s)
    (hf : ∀ {a s'}, t₀.Refits s.tree s'.tree → Performs t₀ M [] (f a) s') :
    Performs t₀ M cs (x >>= f) s :=
  List.append_nil cs ▸ hx.bind fun _ hrefits => hf hrefits

end Performs

/-! ## Expressions -/

/-- Checks to a given depth lead from each state that a check may be in to another one. -/
structure Preserves (t₀ : Tree) (within : NodeId → Prop) (depth : Nat) : Prop where
  scope : ∀ {id s s'}, within id → t₀.Refitted s.tree → checkScope depth id s = .ok () s' →
    t₀.Refits s.tree s'.tree
  statement : ∀ {scope id s s'}, within id → t₀.Refitted s.tree →
    checkStatement depth scope id s = .ok () s' → t₀.Refits s.tree s'.tree
  expression : ∀ {scope e id s ty s'}, within e → t₀.Refitted s.tree →
    s.tree.Wraps t₀.size e id → typeExpr depth scope id s = .ok ty s' → t₀.Refits s.tree s'.tree

section

variable {t₀ : Tree} {within : NodeId → Prop} {depth : Nat} {s : CheckState}

section

variable {M : Outcome → Call → Prop} (h : t₀.Refitted s.tree)
include h

/-- Inserting a conversion makes no calls. -/
theorem insertConversion_performs {assignment lhs rhs value : NodeId} {op : AssignOp}
    (hid : assignment < t₀.size)
    (ha : t₀.nesting assignment = .expression (.assignment op lhs rhs))
    (hw : s.tree.Wraps t₀.size rhs value) (kind : ConversionKind) (target : Ty) (line : Nat) :
    Performs t₀ M [] (insertConversion assignment value kind target line) s where
  ok hrun := by
    cases hrun
    exact ⟨h.refits_insertion hid ha hw line kind target, nofun⟩
  out hout := by
    obtain ⟨id, s', hrun⟩ := hout
    cases hrun

/-- Checking an assignment whose sides have their types makes no calls. -/
theorem assignmentType_performs {assignment lhs rhs value : NodeId} {op : AssignOp}
    (hid : assignment < t₀.size)
    (ha : t₀.nesting assignment = .expression (.assignment op lhs rhs))
    (hw : s.tree.Wraps t₀.size rhs value) (op' : AssignOp) (target ty : Ty) (scope : NodeId)
    (line : Nat) :
    Performs t₀ M [] (assignmentType assignment op' value target ty scope line) s := by
  unfold assignmentType
  dsimp only
  split
  · exact .of_onlyReports h (.pure _)
  refine (Performs.of_onlyReports h (conversionIn_settled _ _ _).onlyReports).bind
    fun {conversion _} _ hrefits => ?_
  have h' := hrefits.refitted
  cases conversion with
  | directAssignable => exact .of_onlyReports h' (.pure _)
  | convertValue | convertRef =>
    exact (insertConversion_performs h' hid ha (hrefits.wraps hw) _ _ _).andThen fun r =>
      .of_onlyReports r.refitted (.pure _)
  | illegal =>
    cases op' <;> exact .of_onlyReports h' (.bind (.report _ _) fun _ => .pure _)

end

variable (hregion : t₀.Region within)

section

include hregion

/-- A run of conversions does not leave a region. -/
theorem within_of_converts {e z : NodeId} (he : within e) (h : t₀.Converts e z) : within z := by
  induction h with
  | refl => exact he
  | tail _ hstep ih =>
    obtain ⟨kind, hnesting⟩ := hstep
    exact hregion.closed ih _ (by rw [hnesting]; exact List.mem_singleton_self _)

/-- Under the conversions of the tree itself there is an expression that they lead to. -/
theorem converts_underConversionsWithin {t : Tree} (h : t₀.Refitted t) (steps : Nat) {e : NodeId}
    (he : within e) : t₀.Converts e (underConversionsWithin t steps e) := by
  induction steps generalizing e with
  | zero => exact .refl
  | succ steps ih =>
    rw [underConversionsWithin]
    split
    · rename_i x kind ty hdata
      have hnesting : t.nesting e = .expression (.conversion x kind) := by
        rw [Tree.nesting, hdata]
        rfl
      have hold : t₀.nesting e = .expression (.conversion x kind) := by
        rw [h.nesting_eq (hregion.lt he) (by simp [hnesting]), hnesting]
      have hx : within x := hregion.closed he _ (by rw [hold]; exact List.mem_singleton_self _)
      exact (Relation.ReflTransGen.single ⟨kind, hold⟩).trans (ih hx)
    · exact .refl

/-- Under the conversions that a check has put in there is the expression itself, or one under the
conversions of the tree. -/
theorem converts_underConversionsWithin_of_wraps {t : Tree} (h : t₀.Refitted t) {e id : NodeId}
    (he : within e) (hw : t.Wraps t₀.size e id) {steps : Nat} (hsteps : id ≤ steps) :
    t₀.Converts e (underConversionsWithin t steps id) := by
  induction hw generalizing steps with
  | bare => exact converts_underConversionsWithin hregion h steps he
  | conversion _ hlt hnesting _ ih =>
    have hlt' := Nat.lt_of_lt_of_le hlt hsteps
    cases steps with
    | zero => exact absurd hlt' (Nat.not_lt_zero _)
    | succ steps =>
      obtain ⟨ty, hdata⟩ := Tree.data_of_nesting_expression hnesting
      rw [underConversionsWithin, hdata]
      exact ih (Nat.le_of_lt_succ hlt')

end

variable (hpreserves : Preserves t₀ within depth)
include hpreserves

/-- Typing an expression in its conversions is a call for the expression. -/
theorem typeWrapped_performs {scope e id : NodeId} (h : t₀.Refitted s.tree) (he : within e)
    (hw : s.tree.Wraps t₀.size e id) :
    Performs t₀ (Meets t₀ depth) [.expression e] (typeExpr depth scope id) s where
  ok hrun := ⟨hpreserves.expression he h hw hrun, List.forall_mem_singleton.mpr
    ⟨e, .refl, scope, id, s, h, hw, _, _, hrun⟩⟩
  out hout := ⟨_, List.mem_singleton_self _, e, .refl, scope, id, s, h, hw, hout⟩

include hregion

/-- Typing an expression is a call for it. -/
theorem typeBare_performs {scope e : NodeId} (h : t₀.Refitted s.tree) (he : within e) :
    Performs t₀ (Meets t₀ depth) [.expression e] (typeExpr depth scope e) s :=
  typeWrapped_performs hpreserves h he (.bare (hregion.lt he))

/-- An expression under the conversions around another is typed for that one. -/
theorem typeUnder_performs {scope e z : NodeId} (h : t₀.Refitted s.tree) (he : within e)
    (hz : t₀.Converts e z) :
    Performs t₀ (fun o _ => TypedBare t₀ depth o e) [.expression e] (typeExpr depth scope z) s :=
  have hwithin := within_of_converts hregion he hz
  have hlt := hregion.lt hwithin
  { ok := fun hrun => ⟨hpreserves.expression hwithin h (.bare hlt) hrun,
      fun _ _ => ⟨z, hz, hlt, scope, s, h, _, _, hrun⟩⟩
    out := fun hout => ⟨_, List.mem_singleton_self _, z, hz, hlt, scope, s, h, hout⟩ }

/-- Typing expressions makes a call for each. -/
theorem typeAll_performs {scope : NodeId} {ids : List NodeId} (h : t₀.Refitted s.tree)
    (hids : ∀ e ∈ ids, within e) :
    Performs t₀ (Meets t₀ depth) (ids.map .expression) (typeAll (typeExpr depth scope) ids) s := by
  induction ids generalizing s with
  | nil => exact .of_onlyReports h (.pure ())
  | cons e ids ih =>
    obtain ⟨he, hids⟩ := List.forall_mem_cons.mp hids
    have hfirst : Performs t₀ (Meets t₀ depth) [.expression e]
        (discard (typeExpr depth scope e)) s :=
      (typeBare_performs hregion hpreserves h he).andThen fun r =>
        .of_onlyReports r.refitted (.pure ())
    exact hfirst.bind fun _ hrefits => ih hrefits.refitted hids

/-- The type of an expression is found by typing the expressions below it. -/
theorem formType_performs {scope id : NodeId} {form₀ form : Expression} (h : t₀.Refitted s.tree)
    (hid : within id) (hform₀ : t₀.nesting id = .expression form₀)
    (hform : s.tree.Refit t₀.size (.expression form₀) (.expression form)) (line : Nat)
    (stored : Ty) :
    Performs t₀ (Meets t₀ depth) (form₀.children.map .expression)
      (formType (typeExpr depth scope) scope id line stored form) s := by
  have hchildren : ∀ e ∈ form₀.children, within e := by
    have hclosed := hregion.closed hid
    rw [hform₀] at hclosed
    exact hclosed
  have htype : ∀ {s : CheckState} {e}, e ∈ form₀.children → t₀.Refitted s.tree →
      Performs t₀ (Meets t₀ depth) [.expression e] (typeExpr depth scope e) s := fun he h =>
    typeBare_performs hregion hpreserves h (hchildren _ he)
  have hassigned : ∀ {op lhs rhs value}, form₀ = .assignment op lhs rhs →
      s.tree.Wraps t₀.size rhs value →
      Performs t₀ (Meets t₀ depth) [.expression lhs, .expression rhs]
        (formType (typeExpr depth scope) scope id line stored (.assignment op lhs value)) s := by
    rintro op lhs rhs value rfl hw
    refine (htype List.mem_cons_self h).bind fun _ hrefits => ?_
    refine (typeWrapped_performs hpreserves hrefits.refitted (hchildren rhs (by
      simp [Expression.children])) (hrefits.wraps hw)).andThen fun hrefits' => ?_
    exact assignmentType_performs hrefits'.refitted (hregion.lt hid) hform₀
      (hrefits'.wraps (hrefits.wraps hw)) _ _ _ _ _
  cases hform with
  | assigned hw => exact hassigned rfl hw
  | same =>
    cases form₀ with
    | constant value => exact .of_onlyReports h (.pure _)
    | nameUse identifier arguments =>
      exact (typeAll_performs hregion hpreserves h hchildren).andThen fun r =>
        .of_onlyReports r.refitted (nameType_settled _ _ _).onlyReports
    | binary op lhs rhs =>
      refine (htype List.mem_cons_self h).bind fun _ hrefits => ?_
      exact (htype (by simp [Expression.children]) hrefits.refitted).andThen fun r =>
        .of_onlyReports r.refitted (binaryType_settled _ _ _ _ _).onlyReports
    | unary op operand =>
      exact (htype List.mem_cons_self h).andThen fun r =>
        .of_onlyReports r.refitted (unaryType_settled _ _ _).onlyReports
    | assignment op lhs rhs =>
      exact hassigned rfl (.bare (hregion.lt (hchildren rhs (by simp [Expression.children]))))
    | generator className arguments =>
      exact (typeAll_performs hregion hpreserves h hchildren).andThen fun r =>
        .of_onlyReports r.refitted (classType_settled _ _ _).onlyReports
    | remote object attr arguments =>
      refine (htype List.mem_cons_self h).bind fun _ hrefits => ?_
      exact (typeAll_performs hregion hpreserves hrefits.refitted
        (List.forall_mem_cons.mp hchildren).2).andThen fun r =>
          .of_onlyReports r.refitted (remoteType_settled _ _ _ _).onlyReports
    | qualified object className =>
      exact (htype List.mem_cons_self h).andThen fun r => .of_onlyReports r.refitted
        (.bind (classType_settled _ _ _).onlyReports fun _ =>
          .bind (checkReferenceTest_settled _ _ _ _ _).onlyReports fun _ => .pure _)
    | relation op object className =>
      exact (htype List.mem_cons_self h).andThen fun r => .of_onlyReports r.refitted
        (.bind (classType_settled _ _ _).onlyReports fun _ =>
          .bind (checkReferenceTest_settled _ _ _ _ _).onlyReports fun _ => .pure _)
    | conversion e kind =>
      have he : within e := hchildren e List.mem_cons_self
      have hunder := converts_underConversionsWithin hregion h s.tree.size he
      have hbelow : Performs t₀ (Meets t₀ depth) [.expression e]
          (typeExpr depth scope (underConversions s.tree e)) s :=
        (typeUnder_performs hregion hpreserves h he hunder).mono fun o c hc hbare =>
          List.mem_singleton.mp hc ▸ hbare.meets
      exact .tree ((hbelow.andThen fun r => .of_onlyReports r.refitted (.pure _)).andThen
        fun r => .of_onlyReports r.refitted (.pure _))

/-- A node of the tree is typed by typing what its nesting names. -/
theorem typeExpr_performs {scope id : NodeId} (h : t₀.Refitted s.tree) (hid : within id) :
    Performs t₀ (Meets t₀ depth) (t₀.calls (.expression id)) (typeExpr (depth + 1) scope id) s := by
  have hold := h.old id (hregion.lt hid)
  refine .tree ?_
  rw [Tree.calls]
  by_cases hform : ∃ form, s.tree.nesting id = .expression form
  · obtain ⟨form, hform⟩ := hform
    obtain ⟨stored, hdata⟩ := Tree.data_of_nesting_expression hform
    rw [hform] at hold
    obtain ⟨form₀, hform₀⟩ := hold.exists_expression
    rw [hform₀] at hold ⊢
    rw [hdata]
    refine (formType_performs hregion hpreserves h hid hform₀ hold _ _).andThen fun r => ?_
    exact (Performs.of_update r.refitted id (NodeData.nesting_withExpressionType _)).andThen
      fun r => .of_onlyReports r.refitted (.pure _)
  · have hne : ∀ form, s.tree.nesting id ≠ .expression form := fun form hn => hform ⟨form, hn⟩
    rw [h.nesting_eq (hregion.lt hid) fun _ _ _ => hne _]
    split
    · exact absurd ‹_› (hne _)
    · split
      · exact absurd (by rw [Tree.nesting, ‹s.tree.data id = _›]; rfl) (hne _)
      · exact .of_onlyReports h (.pure _)

/-- A conversion that the check has put in is typed by typing what it stands around. -/
theorem typeConversion_performs {scope e id : NodeId} (h : t₀.Refitted s.tree) (he : within e)
    (hw : s.tree.Wraps t₀.size e id) (hid : t₀.size ≤ id) :
    Performs t₀ (fun o _ => TypedBare t₀ depth o e) [.expression e]
      (typeExpr (depth + 1) scope id) s := by
  cases hw with
  | bare hlt => exact absurd hlt (Nat.not_lt.mpr hid)
  | @conversion _ x kind _ hlt hnesting hx =>
    have hsize : x ≤ s.tree.size :=
      Nat.le_of_lt (Nat.lt_trans hlt (Tree.lt_of_nesting_expression hnesting))
    have hunder := converts_underConversionsWithin_of_wraps hregion h he hx hsize
    obtain ⟨ty, hdata⟩ := Tree.data_of_nesting_expression hnesting
    refine .tree ?_
    rw [hdata]
    have hform : Performs t₀ (fun o _ => TypedBare t₀ depth o e) [.expression e]
        (formType (typeExpr depth scope) scope id (s.tree.line id) ty (.conversion x kind)) s :=
      .tree (((typeUnder_performs hregion hpreserves h he hunder).andThen fun r =>
        .of_onlyReports r.refitted (.pure _)).andThen fun r =>
          .of_onlyReports r.refitted (.pure _))
    refine hform.andThen fun r => ?_
    exact (Performs.of_update r.refitted id (NodeData.nesting_withExpressionType _)).andThen
      fun r => .of_onlyReports r.refitted (.pure _)

/-! ## Scopes and statements -/

omit hregion hpreserves in
/-- Collecting the labels of some scopes fails only at one that has no label list. -/
theorem mapM_ownLabels_eq_error {t : Tree} {owners : List NodeId} {e : Error}
    (h : owners.mapM t.ownLabels = .error e) : ∃ kind, e = .internal (.noLabelList kind) := by
  induction owners with
  | nil => cases h
  | cons owner owners ih =>
    rw [List.mapM_cons] at h
    cases howner : t.ownLabels owner with
    | error e' =>
      rw [howner] at h
      cases h
      rw [Tree.ownLabels] at howner
      split at howner <;> cases howner
      exact ⟨_, rfl⟩
    | ok labels =>
      rw [howner] at h
      cases hrest : owners.mapM t.ownLabels with
      | error e' =>
        rw [hrest] at h
        cases h
        exact ih hrest
      | ok lists =>
        rw [hrest] at h
        cases h

omit hregion hpreserves in
/-- Numbering labels never runs out. -/
theorem not_endless_of_accumulatedLabels {scope : NodeId} {t t' : Tree} {e : Error}
    (h : Tree.accumulatedLabels scope t = .error e t') (id : NodeId) :
    e ≠ .internal (.endlessNesting id) := by
  simp only [Tree.accumulatedLabels] at h
  split at h
  · cases h
  split at h
  · rename_i e' howners
    cases h
    obtain ⟨kind, rfl⟩ := mapM_ownLabels_eq_error howners
    rintro ⟨⟩
  · split at h <;> cases h
    rintro ⟨⟩

omit hregion hpreserves in
/-- Finishing the labels of a scope does not run out. -/
theorem RunsOut.not_finishLabels (scope : NodeId) (s : CheckState) :
    ¬ RunsOut (finishLabels scope) s := by
  intro h
  rcases h.of_bind with ⟨_, _, h⟩ | ⟨t, s₁, ht, h⟩
  · cases h
  cases ht
  split at h
  · rcases h.of_bind with h | ⟨_, s₂, _, _, _, h⟩
    · rcases RunsOut.of_bind h with ⟨id, s', h⟩ | ⟨_, s₂, _, _, _, h⟩
      · obtain ⟨t, d⟩ := s
        simp only [onTree] at h
        split at h <;> cases h
        exact not_endless_of_accumulatedLabels ‹_› id rfl
      · cases h
    · cases h
  · obtain ⟨_, _, h⟩ := h
    cases h

omit hregion hpreserves in
/-- Finishing the labels of a scope makes no calls. -/
theorem finishLabels_performs {M : Outcome → Call → Prop} {scope : NodeId}
    (h : t₀.Refitted s.tree) : Performs t₀ M [] (finishLabels scope) s where
  ok hrun := by
    have hkeeps : Follows (CheckState.Keeps NodeData.nesting) (finishLabels scope) :=
      finishLabels_follows
        (fun s id index => .update s.tree id (NodeData.nesting_withLabelIndex index))
        (fun s id f _ => .update s.tree id (NodeData.nesting_modifyLabels f)) scope
    exact ⟨h.refits_of_keeps (hkeeps.of_ok hrun), nofun⟩
  out hout := by
    refine absurd hout (RunsOut.not_finishLabels scope s)

omit hregion hpreserves in
/-- Whatever a check is put together from makes the calls of its parts. -/
theorem callRules_performs (t₀ : Tree) (M : Outcome → Call → Prop) :
    CallRules t₀ fun _ => Performs t₀ M where
  bind hx hf := hx.bind fun _ hrefits => hf hrefits.refitted
  tree hf := .tree hf
  onlyReports h hx := .of_onlyReports h hx
  connectedClass id c scope h := .of_update h id (NodeData.nesting_withConnectedClass c scope)
  scope id scope h := .of_update h id (NodeData.nesting_withScope scope)
  finishLabels _ h := finishLabels_performs h
  throw he := .of_throw he

/-- Each call is met to the depth that is left for it. -/
theorem judgesCalls_performs :
    JudgesCalls t₀ (fun _ => Performs t₀ (Meets t₀ depth)) within depth where
  scope hid h := {
    ok := fun hrun => ⟨hpreserves.scope hid h hrun,
      List.forall_mem_singleton.mpr ⟨_, h, _, _, hrun⟩⟩
    out := fun hout => ⟨_, List.mem_singleton_self _, _, h, hout⟩ }
  statement {scope _ _} hid h := {
    ok := fun hrun => ⟨hpreserves.statement hid h hrun,
      List.forall_mem_singleton.mpr ⟨scope, _, h, _, _, hrun⟩⟩
    out := fun hout => ⟨_, List.mem_singleton_self _, scope, _, h, hout⟩ }
  expression he h := typeBare_performs hregion hpreserves h he

/-- The check of a scope makes the calls that are told for the scope. -/
theorem checkScope_performs {id : NodeId} (h : t₀.Refitted s.tree) (hid : within id) :
    Performs t₀ (Meets t₀ depth) (t₀.calls (.scope id)) (checkScope (depth + 1) id) s :=
  (callRules_performs t₀ (Meets t₀ depth)).checkScope (judgesCalls_performs hregion hpreserves)
    hregion h hid

/-- The check of a statement makes the calls that are told for the statement. -/
theorem checkStatement_performs {scope id : NodeId} (h : t₀.Refitted s.tree) (hid : within id) :
    Performs t₀ (Meets t₀ depth) (t₀.calls (.statement id))
      (checkStatement (depth + 1) scope id) s :=
  (callRules_performs t₀ (Meets t₀ depth)).checkStatement (judgesCalls_performs hregion hpreserves)
    hregion h hid

end

end CheckM

end Simula
