import Simula.Proofs.Check.Descent
import Simula.Proofs.Labels.Cache

/-!
# Numbers on which scopes agree

The labels of a class are numbered together with those of its prefix classes, and they are the same
nodes for all its subclasses. Whoever is asked for labels writes numbers into them. In a tree whose
prefix chains end, each number that is written is the one that all scopes expect, so that scopes can
be asked in any order and as often as one likes. Which lists can be numbered at all does not depend
on the order either, and a list that cannot be numbered leaves everything as it is.
-/

namespace Simula.Tree

variable {t t' : Tree} {scope : NodeId}

/-! ## Lists that can be numbered -/

/-- All scopes whose labels count for a scope have a label list. -/
def HasLabelLists (t : Tree) (scope : NodeId) : Prop :=
  ∀ owner ∈ t.prefixChain scope, (t.data owner).labels?.isSome

/-- The labels that count for a scope can be numbered: there are lists of them, and there are not
too many. -/
def Numberable (t : Tree) (scope : NodeId) : Prop :=
  t.HasLabelLists scope ∧ (t.labelsOf scope).length ≤ maxLabels

instance (t : Tree) (scope : NodeId) : Decidable (t.HasLabelLists scope) :=
  List.decidableBAll ..

instance (t : Tree) (scope : NodeId) : Decidable (t.Numberable scope) :=
  instDecidableAnd

/-- Scopes that have lists of labels tell their own labels. -/
theorem mapM_ownLabels_of_isSome {owners : List NodeId}
    (h : ∀ owner ∈ owners, (t.data owner).labels?.isSome) :
    owners.mapM t.ownLabels = .ok (owners.map fun owner => (t.data owner).ownLabels) := by
  induction owners with
  | nil => rfl
  | cons owner owners ih =>
    obtain ⟨hfirst, hrest⟩ := List.forall_mem_cons.mp h
    obtain ⟨l, hl⟩ := Option.isSome_iff_exists.mp hfirst
    have hown : t.ownLabels owner = .ok (t.data owner).ownLabels := by
      rw [ownLabels, NodeData.ownLabels, hl]
      rfl
    rw [List.mapM_cons, hown, ih hrest]
    rfl

/-- A scope that remembers nothing is asked for labels with three outcomes, of which two leave the
tree as it is. -/
theorem accumulatedLabels_of_none (hnone : (t.data scope).cachedLabels? = none) :
    (t.Numberable scope ∧
      accumulatedLabels scope t = .ok (t.labelsOf scope).toArray (t.accumulated scope)) ∨
    (t.HasLabelLists scope ∧ maxLabels < (t.labelsOf scope).length ∧
      accumulatedLabels scope t = .error (.range (t.labelsOf scope).length) t) ∨
    (¬ t.HasLabelLists scope ∧
      ∃ kind, accumulatedLabels scope t = .error (.internal (.noLabelList kind)) t) := by
  rw [NodeData.cachedLabels?] at hnone
  have howners : ∀ owner, owner ∈ t.labelOwners scope ↔ owner ∈ t.prefixChain scope := by
    intro owner
    rw [labelOwners_eq, List.mem_reverse]
  simp only [accumulatedLabels, hnone]
  cases hlists : (t.labelOwners scope).mapM t.ownLabels with
  | error e =>
    obtain ⟨kind, rfl⟩ := CheckM.mapM_ownLabels_eq_error hlists
    refine .inr (.inr ⟨fun hhas => ?_, kind, rfl⟩)
    have hlisted := mapM_ownLabels_of_isSome fun owner howner =>
      hhas owner ((howners owner).mp howner)
    rw [hlisted] at hlists
    cases hlists
  | ok lists =>
    obtain ⟨hall, hflatten⟩ := flatten_of_mapM_ownLabels hlists
    have hhas : t.HasLabelLists scope := fun owner howner => hall owner ((howners owner).mpr howner)
    dsimp only
    rw [show lists.flatten = t.labelsOf scope from hflatten]
    by_cases hmany : maxLabels < (t.labelsOf scope).length
    · rw [if_pos hmany]
      exact .inr (.inl ⟨hhas, hmany, rfl⟩)
    · rw [if_neg hmany]
      exact .inl ⟨⟨hhas, Nat.le_of_not_lt hmany⟩, rfl⟩

/-! ## Asking scopes one after the other -/

/-- The tree after some scopes have been asked for their labels, whether they could tell them or
not. -/
def asked (t : Tree) (scopes : List NodeId) : Tree :=
  scopes.foldl (fun t scope => leaves (accumulatedLabels scope) t) t

/-- Scopes can be asked in two parts. -/
theorem asked_append (t : Tree) (scopes scopes' : List NodeId) :
    t.asked (scopes ++ scopes') = (t.asked scopes).asked scopes' :=
  List.foldl_append ..

/-- The second tree comes from the first, in which nothing is remembered, by asking scopes. What is
remembered in it could be numbered in the first. -/
structure Agrees (t t' : Tree) : Prop extends t.Relabelled t' where
  fresh : ∀ scope, (t.data scope).cachedLabels? = none
  hasLabels : ∀ id, (t'.data id).labels?.isSome = (t.data id).labels?.isSome
  numberable : ∀ scope labels, (t'.data scope).cachedLabels? = some labels → t.Numberable scope

namespace Agrees

/-- A tree in which nothing is remembered agrees with itself. -/
theorem refl (hfresh : ∀ scope, (t.data scope).cachedLabels? = none) : t.Agrees t where
  toRelabelled := .refl t
  fresh := hfresh
  hasLabels _ := rfl
  numberable scope labels hsome := by
    rw [hfresh] at hsome
    cases hsome

variable (h : t.Agrees t')
include h

/-- The same scopes have lists of labels. -/
theorem hasLabelLists (scope : NodeId) : t'.HasLabelLists scope ↔ t.HasLabelLists scope := by
  simp only [HasLabelLists, prefixChain_of_prefixClass h.prefixClass? h.size_le, h.hasLabels]

/-- The labels of the same scopes can be numbered. -/
theorem numberable_iff (scope : NodeId) : t'.Numberable scope ↔ t.Numberable scope := by
  rw [Numberable, Numberable, h.hasLabelLists, h.labelsOf]

/-- Numbering labels takes no list of labels away and gives none. -/
theorem hasLabels_accumulated (scope id : NodeId) :
    ((t'.accumulated scope).data id).labels?.isSome = (t.data id).labels?.isSome := by
  have hremembering : ∀ labels d, (remembering labels d).labels?.isSome = d.labels?.isSome := by
    rintro labels (_ | ⟨_, _, form⟩ | _ | _ | _)
    case declaration => cases form <;> rfl
    all_goals rfl
  rw [accumulated, @view_update Bool (·.labels?.isSome) _ _ _ (hremembering _),
    @view_numberLabels Bool (·.labels?.isSome) isSome_labels?_withLabelIndex]
  exact h.hasLabels id

/-- One more scope is asked. -/
theorem step (scope : NodeId) : t.Agrees (leaves (accumulatedLabels scope) t') := by
  have hrelabelled := h.toRelabelled.trans (accumulatedLabels_relabelled scope t')
  rcases accumulatedLabels_cases scope t' with ⟨labels, -, hok⟩ | ⟨hnone, -⟩
  · rw [leaves_of_ok hok]
    exact h
  rcases accumulatedLabels_of_none hnone with ⟨hnumberable, hok⟩ | ⟨-, -, herror⟩ | ⟨-, _, herror⟩
  · rw [leaves_of_ok hok] at hrelabelled ⊢
    refine ⟨hrelabelled, h.fresh, h.hasLabels_accumulated scope, fun other labels hsome => ?_⟩
    by_cases hother : other = scope
    · exact hother ▸ (h.numberable_iff scope).mp hnumberable
    · rw [cachedLabels?_accumulated_of_ne hother] at hsome
      exact h.numberable other labels hsome
  all_goals
    rw [leaves_of_error herror]
    exact h

/-- A tree agrees however many scopes have been asked. -/
theorem asked (scopes : List NodeId) : t.Agrees (t'.asked scopes) := by
  induction scopes generalizing t' with
  | nil => exact h
  | cons scope scopes ih => exact ih (h.step scope)

/-- A scope is answered as if it were asked first. -/
theorem accumulatedLabels_outcomes (hw : t.WellLabelled) (scope : NodeId) :
    (t.Numberable scope ∧
      ∃ t₁, accumulatedLabels scope t' = .ok (t.labelsOf scope).toArray t₁) ∨
    (t.HasLabelLists scope ∧ maxLabels < (t.labelsOf scope).length ∧
      accumulatedLabels scope t' = .error (.range (t.labelsOf scope).length) t') ∨
    (¬ t.HasLabelLists scope ∧
      ∃ kind, accumulatedLabels scope t' = .error (.internal (.noLabelList kind)) t') := by
  rcases accumulatedLabels_cases scope t' with ⟨labels, hsome, hok⟩ | ⟨hnone, -⟩
  · have hlist : labels.toList = t.labelsOf scope :=
      (h.filled hw scope labels (h.fresh scope) hsome).1.trans (h.labelsOf scope)
    exact .inl ⟨h.numberable scope labels hsome, t', by rw [hok, ← hlist]⟩
  · rw [← h.numberable_iff, ← h.hasLabelLists, ← h.labelsOf]
    rcases accumulatedLabels_of_none hnone with ⟨hnumberable, hok⟩ | hmany | hmissing
    · exact .inl ⟨hnumberable, _, hok⟩
    · exact .inr (.inl hmany)
    · exact .inr (.inr hmissing)

/-- Every label that a scope remembers has its position in what is remembered. -/
theorem labelIndex?_of_cachedLabels? (hacyclic : t.AcyclicPrefixes) (hw : t.WellLabelled)
    {labels : Array NodeId} (hsome : (t'.data scope).cachedLabels? = some labels) {i : Nat}
    {l : NodeId} (hl : labels[i]? = some l) : (t'.data l).labelIndex? = some (i + 1) := by
  obtain ⟨hlist, hnumbered⟩ := h.filled hw scope labels (h.fresh scope) hsome
  obtain ⟨path, hpath⟩ := hacyclic.exists_prefixPath scope
  refine hnumbered path (h.prefixPath.mpr hpath) i l ?_
  rw [← hlist, Array.getElem?_toList, hl]

end Agrees

/-- **Scopes agree on the numbers of labels.** Scopes are asked for their labels in any order, in a
tree without prefix cycles in which nothing is remembered yet. Whatever a scope has told stays
remembered, and its labels have their positions in it as numbers, whoever has been asked since. The
next scope tells what it would have told first, or it fails and changes nothing; with too many
labels it fails always. -/
theorem numbers_agree (hacyclic : t.AcyclicPrefixes) (hw : t.WellLabelled)
    (hfresh : ∀ scope, (t.data scope).cachedLabels? = none) (scopes : List NodeId) :
    (∀ before scope after labels t₁, scopes = before ++ scope :: after →
      accumulatedLabels scope (t.asked before) = .ok labels t₁ →
      ((t.asked scopes).data scope).cachedLabels? = some labels ∧
      labels.toList = t.labelsOf scope ∧ labels.size ≤ maxLabels ∧
      ∀ i l, labels[i]? = some l → ((t.asked scopes).data l).labelIndex? = some (i + 1)) ∧
    (∀ scope labels, (∃ t₁, accumulatedLabels scope (t.asked scopes) = .ok labels t₁) ↔
      t.Numberable scope ∧ labels = (t.labelsOf scope).toArray) ∧
    (∀ scope, t.HasLabelLists scope → maxLabels < (t.labelsOf scope).length →
      accumulatedLabels scope (t.asked scopes) =
        .error (.range (t.labelsOf scope).length) (t.asked scopes)) ∧
    ∀ scope e t₁, accumulatedLabels scope (t.asked scopes) = .error e t₁ → t₁ = t.asked scopes := by
  have hagrees : ∀ scopes, t.Agrees (t.asked scopes) := (Agrees.refl hfresh).asked
  refine ⟨fun before scope after labels t₁ hsplit hok => ?_, fun scope labels => ?_,
    fun scope hhas hmany => ?_, fun scope e t₁ herror => ?_⟩
  · have hnow : ((t.asked scopes).data scope).cachedLabels? = some labels := by
      subst hsplit
      have hlater : t.asked (before ++ scope :: after) = t₁.asked after := by
        rw [asked_append, asked, List.foldl_cons, leaves_of_ok hok, ← asked]
      have hrelabelled : t₁.Relabelled (t₁.asked after) :=
        foldl_follows (fun t scope => accumulatedLabels_relabelled scope t) after t₁
      rw [hlater]
      exact hrelabelled.kept scope labels (cachedLabels?_of_accumulatedLabels hok)
    obtain ⟨hlist, -⟩ := (hagrees scopes).filled hw scope labels (hfresh scope) hnow
    rw [(hagrees scopes).labelsOf] at hlist
    refine ⟨hnow, hlist, ?_, fun i l => ?_⟩
    · rw [← Array.length_toList, hlist]
      exact ((hagrees scopes).numberable scope labels hnow).2
    · exact (hagrees scopes).labelIndex?_of_cachedLabels? hacyclic hw hnow
  · constructor
    · rintro ⟨t₁, hok⟩
      rcases (hagrees scopes).accumulatedLabels_outcomes hw scope with ⟨hnumberable, _, hok'⟩ |
        ⟨-, -, herror⟩ | ⟨-, _, herror⟩
      · rw [hok'] at hok
        cases hok
        exact ⟨hnumberable, rfl⟩
      all_goals
        rw [herror] at hok
        cases hok
    · rintro ⟨⟨hhas, hfew⟩, rfl⟩
      rcases (hagrees scopes).accumulatedLabels_outcomes hw scope with ⟨-, hok⟩ | ⟨-, hmany, -⟩ |
        ⟨hmissing, -⟩
      · exact hok
      · exact absurd hfew (Nat.not_le_of_lt hmany)
      · exact absurd hhas hmissing
  · rcases (hagrees scopes).accumulatedLabels_outcomes hw scope with ⟨⟨-, hfew⟩, -⟩ |
      ⟨-, -, herror⟩ | ⟨hmissing, -⟩
    · exact absurd hfew (Nat.not_le_of_lt hmany)
    · exact herror
    · exact absurd hhas hmissing
  · rcases (hagrees scopes).accumulatedLabels_outcomes hw scope with ⟨-, _, hok⟩ |
      ⟨-, -, herror'⟩ | ⟨-, _, herror'⟩
    · rw [hok] at herror
      cases herror
    all_goals
      rw [herror'] at herror
      cases herror
      rfl

/-- A block with the classes `A`, `B` and `C`. `A` is the prefix of both others, and each has a
label of its own. -/
def labelledClasses : Tree := { nodes := #[
  ⟨1, .declaration "MAIN" none (.block { declarations := ⟨#[("A", 1), ("B", 2), ("C", 3)]⟩ })⟩,
  ⟨2, .declaration "A" (some 0) (.classDeclaration
    { body := { declarations := ⟨#[("L", 4)]⟩, labels := { own := #[4] } } })⟩,
  ⟨3, .declaration "B" (some 0) (.classDeclaration
    { prefixClass := some 1
      body := { declarations := ⟨#[("M", 5)]⟩, labels := { own := #[5] } } })⟩,
  ⟨4, .declaration "C" (some 0) (.classDeclaration
    { prefixClass := some 1
      body := { declarations := ⟨#[("N", 6)]⟩, labels := { own := #[6] } } })⟩,
  ⟨5, .declaration "L" (some 1) (.label 0)⟩,
  ⟨6, .declaration "M" (some 2) (.label 0)⟩,
  ⟨7, .declaration "N" (some 3) (.label 0)⟩] }

/-- Labels are nodes of their own if this holds of the lists of all nodes. -/
theorem wellLabelled_of_lt (hlabel : ∀ scope < t.size, ∀ l ∈ (t.data scope).ownLabels,
      (t.data l).labelIndex?.isSome)
    (hnodup : ∀ scope < t.size, (t.data scope).ownLabels.Nodup)
    (howner : ∀ a < t.size, ∀ b < t.size, ∀ l ∈ (t.data a).ownLabels,
      l ∈ (t.data b).ownLabels → a = b) : t.WellLabelled := by
  have hlt : ∀ {scope l}, l ∈ (t.data scope).ownLabels → scope < t.size := by
    intro scope l hl
    refine lt_of_data fun hpending => ?_
    rw [hpending] at hl
    cases hl
  refine ⟨fun scope l hl => hlabel scope (hlt hl) l hl, fun scope => ?_,
    fun a b l ha hb => howner a (hlt ha) b (hlt hb) l ha hb⟩
  by_cases hscope : scope < t.size
  · exact hnodup scope hscope
  · rw [data_of_size_le (Nat.le_of_not_lt hscope)]
    exact List.nodup_nil

/-- `C` is asked first, then its prefix class, then the other subclass. The label of `A` is the
first for all of them, and both subclasses have their own label as the second. A label is no scope
and is asked for its labels in vain. -/
theorem numbers_agree_labelledClasses :
    (∃ t₁, accumulatedLabels 3 labelledClasses = .ok #[4, 6] t₁) ∧
    ((labelledClasses.asked [3, 1, 2]).data 3).cachedLabels? = some #[4, 6] ∧
    ((labelledClasses.asked [3, 1, 2]).data 4).labelIndex? = some 1 ∧
    ((labelledClasses.asked [3, 1, 2]).data 6).labelIndex? = some 2 ∧
    (∃ t₁, accumulatedLabels 2 (labelledClasses.asked [3, 1, 2]) = .ok #[4, 5] t₁) ∧
    ∀ labels t₁, accumulatedLabels 4 (labelledClasses.asked [3, 1, 2]) ≠ .ok labels t₁ := by
  have hfresh : ∀ scope, (labelledClasses.data scope).cachedLabels? = none := by
    intro scope
    by_cases hscope : scope < labelledClasses.size
    · exact (show ∀ scope < labelledClasses.size,
        (labelledClasses.data scope).cachedLabels? = none by decide) scope hscope
    · rw [data_of_size_le (Nat.le_of_not_lt hscope)]
      rfl
  have hacyclic : labelledClasses.AcyclicPrefixes := acyclicPrefixes_of_lt (by decide)
  have hw : labelledClasses.WellLabelled :=
    wellLabelled_of_lt (by decide) (by decide) (by decide)
  obtain ⟨-, htells, -, -⟩ := numbers_agree hacyclic hw hfresh []
  obtain ⟨hstay, hnext, -, -⟩ := numbers_agree hacyclic hw hfresh [3, 1, 2]
  have hfirst : ∃ t₁, accumulatedLabels 3 labelledClasses = .ok #[4, 6] t₁ :=
    (htells 3 #[4, 6]).mpr ⟨by decide +kernel, by decide +kernel⟩
  obtain ⟨t₁, hok⟩ := hfirst
  obtain ⟨hcached, -, -, hindex⟩ := hstay [] 3 [1, 2] #[4, 6] t₁ rfl hok
  refine ⟨⟨t₁, hok⟩, hcached, hindex 0 4 rfl, hindex 1 6 rfl, (hnext 2 #[4, 5]).mpr
    ⟨by decide +kernel, by decide +kernel⟩, fun labels t₁ hvain => ?_⟩
  have hhas := ((hnext 4 labels).mp ⟨t₁, hvain⟩).1.1 4 List.mem_cons_self
  cases hhas

end Simula.Tree
