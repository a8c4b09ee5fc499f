import Simula.Proofs.Meaning.PrefixPaths
import Simula.Tree.Labels

/-!
# Numbers of labels

The labels that count for a scope are its own and those of its prefix classes, outermost first. So
the labels of a prefix class come first among those of every class below it, and a label has the
same position in all lists in which it stands, provided that prefix chains come to an end. That is
why the numbering of one scope leaves the numbers of another as they are.
-/

namespace Simula

namespace NodeData

/-- The labels of a scope alone. -/
def ownLabels (d : NodeData) : List NodeId := (d.labels?.map (·.own.toList)).getD []

/-- The accumulated list that a scope remembers. -/
def cachedLabels? (d : NodeData) : Option (Array NodeId) := d.labels?.bind (·.accumulated)

/-- The index of a label. -/
def labelIndex? : NodeData → Option Nat
  | declaration _ _ (.label index) => some index
  | _ => none

end NodeData

namespace Tree

variable {t t' : Tree}

/-! ## The labels that count for a scope -/

/-- The labels that count for a scope, outermost prefix first. -/
def labelsOf (t : Tree) (scope : NodeId) : List NodeId :=
  (t.labelOwners scope).flatMap fun owner => (t.data owner).ownLabels

/-- What is no class has no prefix class. -/
theorem prefixClass?_of_isClass {c : NodeId} (h : t.isClass c = false) :
    t.prefixClass? c = none := by
  rw [isClass, Option.isSome_eq_false_iff, Option.isNone_iff_eq_none] at h
  rw [prefixClass?, h]
  rfl

/-- The labels of a scope that is no class are its own. -/
theorem labelOwners_of_isClass {scope : NodeId} (h : t.isClass scope = false) :
    t.labelOwners scope = [scope] := by
  rw [labelOwners, h]
  rfl

/-- For a procedure or block no other labels count than its own. -/
theorem labelsOf_of_isClass {scope : NodeId} (h : t.isClass scope = false) :
    t.labelsOf scope = (t.data scope).ownLabels := by
  rw [labelsOf, labelOwners_of_isClass h, List.flatMap_singleton]

/-- The scopes that count are those on the prefix chain, which for a procedure or block is the scope
alone. -/
theorem labelOwners_eq (t : Tree) (scope : NodeId) :
    t.labelOwners scope = (t.prefixChain scope).reverse := by
  cases h : t.isClass scope with
  | true => rw [labelOwners, if_pos h]
  | false =>
    rw [labelOwners_of_isClass h,
      (PrefixPath.ends (prefixClass?_of_isClass h)).prefixChain_eq, List.reverse_singleton]

/-- A label counts for a scope if a class of its prefix chain owns it. -/
theorem mem_labelsOf {scope l : NodeId} :
    l ∈ t.labelsOf scope ↔ ∃ owner ∈ t.prefixChain scope, l ∈ (t.data owner).ownLabels := by
  simp [labelsOf, labelOwners_eq]

/-- The labels of a class on a prefix chain come first among those of the class below. -/
theorem labelsOf_isPrefix {c d : NodeId} {path : List NodeId} (h : t.PrefixPath c path)
    (hd : d ∈ t.prefixChain c) : t.labelsOf d <+: t.labelsOf c := by
  rw [h.prefixChain_eq] at hd
  obtain ⟨rest, hrest, hsuffix⟩ := h.exists_suffix hd
  rw [labelsOf, labelsOf, labelOwners_eq, labelOwners_eq, h.prefixChain_eq, hrest.prefixChain_eq]
  obtain ⟨front, hfront⟩ := List.reverse_prefix.mpr hsuffix
  rw [← hfront, List.flatMap_append]
  exact List.prefix_append ..

/-- Labels are nodes of their own: each stands in the list of one scope, and there once. -/
structure WellLabelled (t : Tree) : Prop where
  isLabel : ∀ scope, ∀ l ∈ (t.data scope).ownLabels, (t.data l).labelIndex?.isSome
  nodup : ∀ scope, (t.data scope).ownLabels.Nodup
  owner : ∀ a b l, l ∈ (t.data a).ownLabels → l ∈ (t.data b).ownLabels → a = b

/-- The labels that count for a scope have their positions from 1 as indexes. -/
def Numbered (t : Tree) (scope : NodeId) : Prop :=
  ∀ i l, (t.labelsOf scope)[i]? = some l → (t.data l).labelIndex? = some (i + 1)

namespace WellLabelled

variable (h : t.WellLabelled) {scope other : NodeId} {path : List NodeId}
include h

/-- In a tree with the same lists labels are nodes of their own, too, if they are still labels. -/
theorem congr {t' : Tree} (hown : ∀ id, (t'.data id).ownLabels = (t.data id).ownLabels)
    (hlabel : ∀ l, (t.data l).labelIndex?.isSome → (t'.data l).labelIndex?.isSome) :
    t'.WellLabelled where
  isLabel scope l hl := hlabel l (h.isLabel scope l (hown scope ▸ hl))
  nodup scope := hown scope ▸ h.nodup scope
  owner a b l ha hb := h.owner a b l (hown a ▸ ha) (hown b ▸ hb)

/-- What counts as a label of a scope is a label. -/
theorem isSome_labelIndex? {l : NodeId} (hl : l ∈ t.labelsOf scope) :
    (t.data l).labelIndex?.isSome := by
  obtain ⟨owner, -, hmem⟩ := mem_labelsOf.mp hl
  exact h.isLabel owner l hmem

/-- No label counts twice for a scope. -/
theorem nodup_labelsOf (scope : NodeId) : (t.labelsOf scope).Nodup := by
  rw [labelsOf, labelOwners_eq, List.nodup_flatMap]
  refine ⟨fun owner _ => h.nodup owner, ?_⟩
  refine List.Pairwise.imp ?_ (List.nodup_reverse.mpr (t.nodup_prefixChain scope))
  intro a b hne l ha hb
  exact hne (h.owner a b l ha hb)

/-- A label has the same position wherever it counts. -/
theorem position_eq (hpath : t.PrefixPath scope path) {i j : Nat} {l : NodeId}
    (hi : (t.labelsOf scope)[i]? = some l) (hj : (t.labelsOf other)[j]? = some l) : i = j := by
  obtain ⟨a, ha, hla⟩ := mem_labelsOf.mp (List.mem_of_getElem? hi)
  obtain ⟨b, hb, hlb⟩ := mem_labelsOf.mp (List.mem_of_getElem? hj)
  obtain rfl := h.owner a b l hla hlb
  -- Both chains pass the owner of the label and end as the chain of the owner does.
  obtain ⟨rest, hrest, -⟩ := hpath.exists_suffix (hpath.prefixChain_eq ▸ ha)
  obtain ⟨path', hpath'⟩ := exists_prefixPath_of_mem hb hrest
  have hmem : l ∈ t.labelsOf a := mem_labelsOf.mpr ⟨a, List.mem_cons_self, hla⟩
  obtain ⟨k, hk⟩ := List.mem_iff_getElem?.mp hmem
  have hposition : ∀ c n, t.labelsOf a <+: t.labelsOf c → (t.labelsOf c)[n]? = some l → n = k := by
    intro c n hfirst hn
    obtain ⟨hklt, hkeq⟩ := List.getElem?_eq_some_iff.mp hk
    have hkc : (t.labelsOf c)[k]? = some l := by
      rw [List.prefix_iff_getElem?.mp hfirst k hklt, hkeq]
    obtain ⟨hnlt, -⟩ := List.getElem?_eq_some_iff.mp hn
    exact (List.getElem?_inj hnlt (h.nodup_labelsOf c)).mp (hn.trans hkc.symm)
  rw [hposition scope i (labelsOf_isPrefix hpath ha) hi,
    hposition other j (labelsOf_isPrefix hpath' hb) hj]

end WellLabelled

/-! ## Giving numbers -/

/-- Numbering labels adds no node. -/
@[simp] theorem size_numberLabels (index : Nat) (labels : List NodeId) (t : Tree) :
    (numberLabels index labels t).size = t.size := by
  induction labels generalizing index t with
  | nil => rfl
  | cons label labels ih => rw [numberLabels, ih, size_update]

/-- Numbering shows in nothing but indexes of labels. -/
theorem view_numberLabels {β : Type} {view : NodeData → β}
    (hview : ∀ index d, view (withLabelIndex index d) = view d) (index : Nat)
    (labels : List NodeId) (t : Tree) (id : NodeId) :
    view ((numberLabels index labels t).data id) = view (t.data id) := by
  induction labels generalizing index t with
  | nil => rfl
  | cons label labels ih => rw [numberLabels, ih, view_update t label (hview index)]

/-- Nodes that are not in the list keep their index. -/
theorem labelIndex?_numberLabels_of_notMem {labels : List NodeId} {id : NodeId}
    (hid : id ∉ labels) (index : Nat) (t : Tree) :
    ((numberLabels index labels t).data id).labelIndex? = (t.data id).labelIndex? := by
  induction labels generalizing index t with
  | nil => rfl
  | cons label labels ih =>
    rw [List.mem_cons, not_or] at hid
    rw [numberLabels, ih hid.2, data_update_of_ne _ hid.1]

/-- A label gets its number. -/
theorem labelIndex?_withLabelIndex {d : NodeData} (h : d.labelIndex?.isSome) (index : Nat) :
    (withLabelIndex index d).labelIndex? = some index := by
  revert h
  rcases d with _ | ⟨_, _, form⟩ | _ | _ | _
  case declaration => cases form <;> first | exact fun _ => rfl | exact nofun
  all_goals exact nofun

/-- The labels in a list get the numbers of their positions. -/
theorem labelIndex?_numberLabels {labels : List NodeId} (hnodup : labels.Nodup)
    (hlabels : ∀ l ∈ labels, (t.data l).labelIndex?.isSome) (index : Nat) {i : Nat} {l : NodeId}
    (hl : labels[i]? = some l) :
    ((numberLabels index labels t).data l).labelIndex? = some (index + i) := by
  induction labels generalizing index i t with
  | nil => cases hl
  | cons label labels ih =>
    obtain ⟨hfresh, hnodup⟩ := List.nodup_cons.mp hnodup
    have hlabel : (t.data label).labelIndex?.isSome := hlabels label List.mem_cons_self
    rw [numberLabels]
    cases i with
    | zero =>
      obtain rfl : label = l := Option.some.inj hl
      have hlt : label < t.size := lt_of_data fun hpending => by
        rw [hpending] at hlabel
        cases hlabel
      rw [labelIndex?_numberLabels_of_notMem hfresh, data_update_self _ hlt,
        labelIndex?_withLabelIndex hlabel]
      rfl
    | succ i =>
      rw [ih hnodup (fun m hm => ?_) (index + 1) hl, Nat.add_right_comm, Nat.add_assoc]
      have hne : m ≠ label := fun heq => hfresh (heq ▸ hm)
      rw [data_update_of_ne _ hne]
      exact hlabels m (List.mem_cons_of_mem _ hm)

/-- A scope that tells its own labels has them. -/
theorem ownLabels_eq_ok {owner : NodeId} {labels : List NodeId}
    (h : t.ownLabels owner = .ok labels) :
    (t.data owner).labels?.isSome ∧ labels = (t.data owner).ownLabels := by
  rw [ownLabels] at h
  rw [NodeData.ownLabels]
  cases hlabels : (t.data owner).labels? with
  | none => simp [hlabels] at h
  | some l =>
    rw [hlabels] at h
    exact ⟨rfl, (Except.ok.inj h).symm⟩

/-- The lists of several scopes one after the other. -/
theorem flatten_of_mapM_ownLabels {owners : List NodeId} {lists : List (List NodeId)}
    (h : owners.mapM t.ownLabels = .ok lists) :
    (∀ owner ∈ owners, (t.data owner).labels?.isSome) ∧
      lists.flatten = owners.flatMap fun owner => (t.data owner).ownLabels := by
  induction owners generalizing lists with
  | nil =>
    cases h
    simp
  | cons owner owners ih =>
    rw [List.mapM_cons] at h
    cases hfirst : t.ownLabels owner with
    | error e => rw [hfirst] at h; cases h
    | ok labels =>
      cases hrest : owners.mapM t.ownLabels with
      | error e => rw [hfirst, hrest] at h; cases h
      | ok rest =>
        rw [hfirst, hrest] at h
        cases h
        obtain ⟨hhas, heq⟩ := ownLabels_eq_ok hfirst
        obtain ⟨hall, hflatten⟩ := ih hrest
        refine ⟨List.forall_mem_cons.mpr ⟨hhas, hall⟩, ?_⟩
        rw [List.flatten_cons, List.flatMap_cons, hflatten, heq]

/-- A scope that remembers an accumulated list. -/
def remembering (labels : Array NodeId) (d : NodeData) : NodeData :=
  d.modifyBody fun b => { b with labels := { b.labels with accumulated := some labels } }

/-- Accumulating gives back what is remembered, or numbers and remembers the labels that count now;
or it fails and leaves the tree as it is. -/
theorem accumulatedLabels_cases (scope : NodeId) (t : Tree) :
    (∃ labels, (t.data scope).cachedLabels? = some labels ∧
      accumulatedLabels scope t = .ok labels t) ∨
    (t.data scope).cachedLabels? = none ∧
      ((∃ e, accumulatedLabels scope t = .error e t) ∨
        (t.data scope).labels?.isSome ∧
        accumulatedLabels scope t = .ok (t.labelsOf scope).toArray
          ((numberLabels 1 (t.labelsOf scope) t).update scope
            (remembering (t.labelsOf scope).toArray))) := by
  simp only [accumulatedLabels, NodeData.cachedLabels?]
  cases (t.data scope).labels?.bind (·.accumulated) with
  | some labels => exact .inl ⟨labels, rfl, rfl⟩
  | none =>
    right
    refine ⟨rfl, ?_⟩
    dsimp only
    cases hlists : (t.labelOwners scope).mapM t.ownLabels with
    | error e => exact .inl ⟨e, rfl⟩
    | ok lists =>
      dsimp only
      obtain ⟨hall, hflatten⟩ := flatten_of_mapM_ownLabels hlists
      split
      · exact .inl ⟨_, rfl⟩
      · right
        rw [hflatten]
        refine ⟨hall scope ?_, rfl⟩
        rw [labelOwners_eq, List.mem_reverse]
        exact List.mem_cons_self

end Tree

end Simula
