import Simula.Check
import Simula.Proofs.Effects

/-!
# Steps of a check that only report

Most of what a check does at one node is to look things up and to report mistakes. Such a step
always succeeds. It leaves the tree as it is and the reports made before. What it gives and reports
depends on what identifiers mean in the tree, and not on the expressions that are there.
-/

namespace Simula

/-- A report is never lost in those before it. -/
theorem Diagnostics.report_ne (ds : Diagnostics) (d : Diagnostic) : ds.report d ≠ ds :=
  fun h => by simpa [report] using congrArg (·.entries.size) h

/-! ## What steps look up -/

/-- Identifiers mean the same in both trees, and what they denote is of the same type. -/
structure Tree.SameView (t t' : Tree) : Prop where
  resolve : ∀ scope x, t'.resolve scope x = t.resolve scope x
  resolveRemote : ∀ scope c x, t'.resolveRemote scope c x = t.resolveRemote scope c x
  declaredType : ∀ d, (t'.data d).declaredType = (t.data d).declaredType
  isClass : ∀ c, t'.isClass c = t.isClass c
  className : ∀ c, t.isClass c = true → t'.identifier? c = t.identifier? c
  prefixChain : ∀ c, t'.prefixChain c = t.prefixChain c
  protectedSpec : ∀ c x, t'.protectedSpec? c x = t.protectedSpec? c x
  insideSubclass : ∀ scope c, CheckM.insideSubclass t' scope c = CheckM.insideSubclass t scope c

namespace Tree.SameView

variable {t t₁ t₂ t' : Tree}

/-- A tree looks like itself. -/
theorem refl (t : Tree) : t.SameView t :=
  ⟨fun _ _ => rfl, fun _ _ _ => rfl, fun _ => rfl, fun _ => rfl, fun _ _ => rfl, fun _ => rfl,
    fun _ _ => rfl, fun _ _ => rfl⟩

/-- A view that two steps leave alone stays the same over both. -/
theorem trans (h : t.SameView t₁) (h' : t₁.SameView t₂) : t.SameView t₂ where
  resolve scope x := (h'.resolve scope x).trans (h.resolve scope x)
  resolveRemote scope c x := (h'.resolveRemote scope c x).trans (h.resolveRemote scope c x)
  declaredType d := (h'.declaredType d).trans (h.declaredType d)
  isClass c := (h'.isClass c).trans (h.isClass c)
  className c hc := (h'.className c ((h.isClass c).trans hc)).trans (h.className c hc)
  prefixChain c := (h'.prefixChain c).trans (h.prefixChain c)
  protectedSpec c x := (h'.protectedSpec c x).trans (h.protectedSpec c x)
  insideSubclass scope c := (h'.insideSubclass scope c).trans (h.insideSubclass scope c)

variable (h : t.SameView t')
include h

/-- Classes are found in the same place. -/
theorem lookupClass (scope : NodeId) (x : String) :
    t'.lookupClass scope x = t.lookupClass scope x := by
  rw [Tree.lookupClass, Tree.lookupClass, h.resolve, funext h.isClass]

/-- The classes that a scope sees are the same. -/
theorem classView (scope : NodeId) : t'.classView scope = t.classView scope :=
  classView_congr (h.lookupClass scope) h.prefixChain

/-- The same attributes are protected. -/
theorem isProtected (c declarer : NodeId) (x : String) :
    t'.isProtected c declarer x = t.isProtected c declarer x := by
  simp only [Tree.isProtected, h.prefixChain, h.protectedSpec]

end Tree.SameView

namespace CheckM

variable {α β : Type}

/-- From every state whose tree gives identifiers the meaning that they have in `t`, the action
gives the value and makes the reports, and does nothing else. -/
def Settles (x : CheckM α) (t : Tree) (a : α) (ds : List Diagnostic) : Prop :=
  ∀ s : CheckState, t.SameView s.tree →
    x s = .ok a { s with diagnostics := ds.foldl Diagnostics.report s.diagnostics }

/-- What the action gives and reports depends on the meaning of identifiers only. -/
def Settled (x : CheckM α) : Prop := ∀ t, ∃ a ds, Settles x t a ds

namespace Settled

/-- What does nothing is settled. -/
theorem pure (a : α) : Settled (Pure.pure a : CheckM α) := fun _ => ⟨a, [], fun _ _ => rfl⟩

/-- A report is settled. -/
theorem report (line : Nat) (f : Finding) : Settled (CheckM.report line f) :=
  fun _ => ⟨(), [f.onLine line], fun _ _ => rfl⟩

/-- Settled actions can be done one after the other. -/
theorem bind {x : CheckM α} {f : α → CheckM β} (hx : Settled x) (hf : ∀ a, Settled (f a)) :
    Settled (x >>= f) := by
  intro t
  obtain ⟨a, ds, ha⟩ := hx t
  obtain ⟨b, ds', hb⟩ := hf a t
  refine ⟨b, ds ++ ds', fun s hs => ?_⟩
  rw [List.foldl_append]
  exact (bind_of_ok (ha s hs)).trans (hb { s with diagnostics := _ } hs)

/-- An action that starts with a look at the tree is settled if it is so for each tree and is the
same for trees with the same view. -/
theorem tree {f : Tree → CheckM β} (hsame : ∀ t t', t.SameView t' → f t' = f t)
    (hf : ∀ t, Settled (f t)) : Settled (CheckM.tree >>= f) := by
  intro t
  obtain ⟨b, ds, hb⟩ := hf t t
  refine ⟨b, ds, fun s hs => ?_⟩
  rw [bind_of_ok (show CheckM.tree s = .ok s.tree s from rfl), hsame t s.tree hs, hb s hs]

/-- A report that may be left out before something that is settled. -/
theorem reportUnless (c : Prop) [Decidable c] (line : Nat) (f : Finding) {k : Unit → CheckM α}
    (hk : ∀ u, Settled (k u)) : Settled (if c then k () else CheckM.report line f >>= k) := by
  split
  · exact hk ()
  · exact (report line f).bind hk

end Settled

/-! ## One lemma for each step -/

/-- Finding a conversion is settled. -/
theorem conversionIn_settled (scope : NodeId) (source target : Ty) :
    Settled (conversionIn scope source target) :=
  .tree (fun t t' h => by rw [h.classView]) fun _ => .pure _

/-- Requiring a value that can be assigned is settled. -/
theorem requireAssignable_settled (source target : Ty) (scope : NodeId) (line : Nat) :
    Settled (requireAssignable source target scope line) := by
  unfold requireAssignable
  split
  · exact .pure _
  · refine .bind (conversionIn_settled _ _ _) fun _ => ?_
    split
    · exact .report _ _
    · exact .pure _

/-- Finding the class of a reference is settled. -/
theorem classType_settled (identifier : String) (scope : NodeId) (line : Nat) :
    Settled (classType identifier scope line) := by
  refine .tree (fun t t' h => ?_) fun t => ?_
  · rw [h.lookupClass]
    cases hc : t.lookupClass scope identifier with
    | none => rfl
    | some c =>
      have hclass : t.isClass c = true := (Option.filter_eq_some_iff.mp hc).2
      simp only [h.className c hclass]
  · split
    · exact .pure _
    · exact .bind (.report _ _) fun _ => .pure _

/-- Typing a name is settled. -/
theorem nameType_settled (identifier : String) (scope : NodeId) (line : Nat) :
    Settled (nameType identifier scope line) := by
  refine .tree (fun t t' h => ?_) fun t => ?_
  · rw [h.resolve]
    simp only [h.declaredType]
  · split
    · exact .pure _
    · exact .bind (.report _ _) fun _ => .pure _

/-- Requiring one type on both sides is settled. -/
theorem requireBoth_settled (expected lhs rhs : Ty) (line : Nat) :
    Settled (requireBoth expected lhs rhs line) := by
  unfold requireBoth
  split
  · exact .pure _
  · exact .report _ _

/-- Typing an arithmetic operation is settled. -/
theorem arithmeticType_settled (op : BinaryOp) (lhs rhs : Ty) (scope : NodeId) (line : Nat) :
    Settled (arithmeticType op lhs rhs scope line) := by
  unfold arithmeticType
  split
  · exact .tree (fun t t' h => by rw [h.classView]) fun _ => .pure _
  · exact .bind (.report _ _) fun _ => .pure _

/-- Asking for a common type is settled. -/
theorem haveCommonType_settled (scope : NodeId) (lhs rhs : Ty) :
    Settled (haveCommonType scope lhs rhs) :=
  .tree (fun t t' h => by rw [h.classView]) fun _ => .pure _

/-- Typing a binary operation is settled. -/
theorem binaryType_settled (op : BinaryOp) (lhs rhs : Ty) (scope : NodeId) (line : Nat) :
    Settled (binaryType op lhs rhs scope line) := by
  unfold binaryType
  split
  · exact .pure _
  cases op with
  | intDiv | and | or | imp | eqv | concat =>
    exact .bind (requireBoth_settled _ _ _ _) fun _ => .pure _
  | add | sub | mul | div | exp => exact arithmeticType_settled _ _ _ _ _
  | _ =>
    refine .bind (haveCommonType_settled _ _ _) fun _ => ?_
    exact .reportUnless _ _ _ fun _ => .pure _

/-- Typing a unary operation is settled. -/
theorem unaryType_settled (op : UnaryOp) (operand : Ty) (line : Nat) :
    Settled (unaryType op operand line) := by
  cases op with
  | not => exact .reportUnless _ _ _ fun _ => .pure _
  | _ =>
    simp only [unaryType]
    split
    · exact .pure _
    · exact .bind (.report _ _) fun _ => .pure _

/-- Typing a remote access is settled. -/
theorem remoteType_settled (object : Ty) (attr : String) (scope : NodeId) (line : Nat) :
    Settled (remoteType object attr scope line) := by
  unfold remoteType
  split
  · exact .pure _
  · refine .tree (fun t t' h => ?_) fun t => ?_
    · simp only [h.lookupClass, h.resolveRemote, h.isProtected, h.insideSubclass, h.declaredType]
    · split
      · exact .bind (.report _ _) fun _ => .pure _
      · dsimp only
        split
        · split
          · exact .bind (.report _ _) fun _ => .pure _
          · exact .pure _
        · exact .bind (.report _ _) fun _ => .pure _
  · exact .bind (.report _ _) fun _ => .pure _

/-- Checking a reference test is settled. -/
theorem checkReferenceTest_settled (test : ReferenceTest) (object target : Ty)
    (scope : NodeId) (line : Nat) :
    Settled (checkReferenceTest test object target scope line) := by
  unfold checkReferenceTest
  split
  · exact .pure _
  · refine .bind (conversionIn_settled _ _ _) fun _ => ?_
    split
    · exact .report _ _
    · exact .pure _

/-- Finding the class of a connection is settled. -/
theorem connectedClass_settled (whenClass : Option String) (objectType : Ty) (scope : NodeId)
    (line : Nat) : Settled (connectedClass whenClass objectType scope line) := by
  refine .tree (fun t t' h => by simp only [h.lookupClass]) fun t => ?_
  split
  · dsimp only
    split
    · exact .bind (.report _ _) fun _ => .pure _
    · exact .pure _
  · exact .pure _
  · exact .pure _
  · exact .pure _
  · exact .bind (.report _ _) fun _ => .pure _

/-! ## Steps that only report -/

/-- The action succeeds and does nothing but report. -/
def OnlyReports (x : CheckM α) : Prop :=
  ∀ s, ∃ (a : α) (ds : List Diagnostic),
    x s = .ok a { s with diagnostics := ds.foldl Diagnostics.report s.diagnostics }

/-- A settled action leaves nothing but reports. -/
theorem Settled.onlyReports {x : CheckM α} (h : Settled x) : OnlyReports x := by
  intro s
  obtain ⟨a, ds, hx⟩ := h s.tree
  exact ⟨a, ds, hx s (.refl s.tree)⟩

namespace OnlyReports

/-- What does nothing leaves no reports. -/
theorem pure (a : α) : OnlyReports (Pure.pure a : CheckM α) := (Settled.pure a).onlyReports

/-- A report leaves nothing else. -/
theorem report (line : Nat) (f : Finding) : OnlyReports (CheckM.report line f) :=
  (Settled.report line f).onlyReports

/-- Reading the tree leaves no reports. -/
theorem tree : OnlyReports CheckM.tree := fun s => ⟨s.tree, [], rfl⟩

/-- Actions that leave only reports can be done one after the other. -/
theorem bind {x : CheckM α} {f : α → CheckM β} (hx : OnlyReports x)
    (hf : ∀ a, OnlyReports (f a)) : OnlyReports (x >>= f) := by
  intro s
  obtain ⟨a, ds, ha⟩ := hx s
  obtain ⟨b, ds', hb⟩ := hf a { s with diagnostics := ds.foldl Diagnostics.report s.diagnostics }
  refine ⟨b, ds ++ ds', (bind_of_ok ha).trans ?_⟩
  rw [hb, List.foldl_append]

end OnlyReports

end CheckM

end Simula
