import Simula.Proofs.Check.Reports
import Simula.Proofs.Meaning.Links

/-!
# Trees with the same view

What a check looks up is the same in two trees if one comes from the other by typing expressions,
and also if an expression that no scope lists among its parts gets another name. In the first case
the tree may have grown, and what has to be shown is that the room for further steps makes no
difference where the classes around a scope are looked for.
-/

namespace Simula

namespace Tree

variable {t t' : Tree}

/-! ## Trees that have grown -/

/-- No class is around no scope. -/
@[simp] theorem enclosingClassFrom_none (t : Tree) (n : Nat) :
    t.enclosingClassFrom n none = none := by
  cases n <;> rfl

/-- Looking for the innermost class around a scope is a walk along scopes. -/
theorem walks_enclosingClassFrom (t : Tree) :
    Graph.Walks t.declaredIn? (fun a => t.isClass a = true)
      (fun n (_ : Unit) a => t.enclosingClassFrom n (some a)) (fun _ a => some a)
      (fun _ _ => ()) none where
  zero _ _ := rfl
  stops n _ a ha := by rw [enclosingClassFrom, if_pos ha]
  ends n _ a ha hnext := by rw [enclosingClassFrom, if_neg ha, hnext, enclosingClassFrom_none]
  goes n _ a b ha hnext := by rw [enclosingClassFrom, if_neg ha, hnext]

/-- The enclosing class depends on which nodes are classes and on their scopes. -/
theorem enclosingClassFrom_congr (hclass : t'.isClass = t.isClass)
    (hdeclaredIn : t'.declaredIn? = t.declaredIn?) (n : Nat) (a : Option NodeId) :
    t'.enclosingClassFrom n a = t.enclosingClassFrom n a := by
  induction n generalizing a with
  | zero => cases a <;> rfl
  | succ n ih =>
    cases a with
    | none => rfl
    | some a => rw [enclosingClassFrom, enclosingClassFrom, hclass, hdeclaredIn, ih]

/-- No scope is inside no subclass. -/
@[simp] theorem insideSubclassFrom_none (t : Tree) (c : NodeId) (n : Nat) :
    CheckM.insideSubclassFrom t c n none = false := by
  cases n <;> rfl

/-- Looking for a subclass around a scope is a walk along the classes around it. -/
theorem walks_insideSubclassFrom (t : Tree) (c : NodeId) :
    Graph.Walks (fun d => (t.declaredIn? d).bind t.enclosingClass)
      (fun d => (t.prefixChain d).contains c = true)
      (fun n (_ : Unit) d => CheckM.insideSubclassFrom t c n (some d)) (fun _ _ => true)
      (fun _ _ => ()) false where
  zero _ _ := rfl
  stops n _ d hd := by rw [CheckM.insideSubclassFrom, hd, Bool.true_or]
  ends n _ d hd hnext := by
    rw [CheckM.insideSubclassFrom, (Bool.not_eq_true _).mp hd, hnext,
      insideSubclassFrom_none, Bool.false_or]
  goes n _ d b hd hnext := by
    rw [CheckM.insideSubclassFrom, (Bool.not_eq_true _).mp hd, hnext, Bool.false_or]

/-- Whether a scope is inside a subclass depends on prefix chains and scopes. -/
theorem insideSubclassFrom_congr (hchain : t'.prefixChain = t.prefixChain)
    (hdeclaredIn : t'.declaredIn? = t.declaredIn?)
    (henclosing : t'.enclosingClass = t.enclosingClass) (c : NodeId) (n : Nat)
    (d : Option NodeId) :
    CheckM.insideSubclassFrom t' c n d = CheckM.insideSubclassFrom t c n d := by
  induction n generalizing d with
  | zero => cases d <;> rfl
  | succ n ih =>
    cases d with
    | none => rfl
    | some d =>
      rw [CheckM.insideSubclassFrom, CheckM.insideSubclassFrom, hchain, hdeclaredIn, henclosing, ih]

namespace SameScopes

variable (h : t.SameScopes t')
include h

/-- Scopes are in the same classes. -/
theorem enclosingClass (scope : NodeId) : t'.enclosingClass scope = t.enclosingClass scope := by
  rw [Tree.enclosingClass, Tree.enclosingClass,
    enclosingClassFrom_congr (funext h.offers.isClass) (funext h.declaredIn)]
  refine t.walks_enclosingClassFrom.eq_of_length_le (x := ()) (fun a ha => ?_) (fun a b hb => ?_)
    (Nat.le_trans t.length_places_le h.size_le) t.length_places_le
  · exact mem_places (NodeData.isPlace_of_class ha)
  · exact mem_places (NodeData.isPlace_of_declaredIn hb)

/-- Scopes are inside subclasses of the same classes. -/
theorem insideSubclass (scope c : NodeId) :
    CheckM.insideSubclass t' scope c = CheckM.insideSubclass t scope c := by
  have henclosing : t'.enclosingClass = t.enclosingClass := funext h.enclosingClass
  rw [CheckM.insideSubclass, CheckM.insideSubclass, henclosing,
    insideSubclassFrom_congr (funext h.prefixChain) (funext h.declaredIn) henclosing]
  rcases Nat.eq_or_lt_of_le h.size_le with hsize | hlt
  · rw [hsize]
  cases t.enclosingClass scope with
  | none => simp
  | some d =>
    -- The walk stops at the class itself even if that is none, so one place must be spared.
    obtain ⟨id, hid⟩ := h.expression hlt
    have hspare : (c :: t.places).length ≤ t.size := length_places_lt hid
    refine (t.walks_insideSubclassFrom c).eq_of_length_le (x := ()) (fun a ha => ?_)
      (fun a b hb => ?_) (Nat.le_trans hspare h.size_le) hspare
    · by_cases hac : a = c
      · exact hac ▸ List.mem_cons_self
      · refine List.mem_cons_of_mem _ (mem_places ?_)
        cases hp : t.prefixClass? a with
        | some p => exact isPlace_of_prefixClass hp
        | none =>
          rw [Tree.prefixChain, prefixesAbove_of_none hp] at ha
          simp [Ne.symm hac] at ha
    · obtain ⟨b', hb', -⟩ := Option.bind_eq_some_iff.mp hb
      exact List.mem_cons_of_mem _ (mem_places (NodeData.isPlace_of_declaredIn hb'))

end SameScopes

/-- Trees with the same links have the same view. -/
theorem SameLinks.sameView (h : t.SameLinks t') : t.SameView t' where
  resolve := h.resolve
  resolveRemote scope c x := by
    rw [resolveRemote, resolveRemote,
      h.findAttribute_eq (h.sameSearch h.goesOnBehind? true c), funext h.offers.effective]
  declaredType := h.offers.declaredType
  isClass := h.offers.isClass
  className c _ := h.offers.read _ NodeData.identifier?_offered c
  prefixChain := h.prefixChain
  protectedSpec := h.offers.protectedSpec?
  insideSubclass := h.insideSubclass

/-! ## Trees of which the same is read -/

/-- Every node of the second tree tells the same as in the first, to lookups and of what it
declares. -/
structure SameReads (t t' : Tree) : Prop extends t.SameAnswers t' where
  className : ∀ c, t.isClass c = true → t'.identifier? c = t.identifier? c
  declaredType : ∀ d, (t'.data d).declaredType = (t.data d).declaredType

namespace SameReads

variable (h : t.SameReads t')
include h

/-- Scopes are inside subclasses of the same classes. -/
theorem insideSubclass (scope c : NodeId) :
    CheckM.insideSubclass t' scope c = CheckM.insideSubclass t scope c := by
  have henclosing : t'.enclosingClass = t.enclosingClass := by
    funext a
    rw [enclosingClass, enclosingClass, h.size, enclosingClassFrom_congr h.isClass h.declaredIn]
  rw [CheckM.insideSubclass, CheckM.insideSubclass, henclosing, h.size,
    insideSubclassFrom_congr (funext h.prefixChain) h.declaredIn henclosing]

/-- Trees of which the same is read have the same view. -/
theorem sameView : t.SameView t' where
  resolve := h.resolve
  resolveRemote := h.resolveRemote
  declaredType := h.declaredType
  isClass := congrFun h.isClass
  className := h.className
  prefixChain := h.prefixChain
  protectedSpec c x := by rw [h.protectedSpec]
  insideSubclass := h.insideSubclass

end SameReads

end Tree

/-! ## Other names -/

namespace NodeData

/-- The use of another name; other nodes stay as they are. -/
def withName (identifier : String) : NodeData → NodeData
  | expression (.nameUse _ arguments) ty => expression (.nameUse identifier arguments) ty
  | d => d

/-- Only the use of a name is changed by another name, and only in its name. -/
theorem withName_eq (y : String) (d : NodeData) :
    d.withName y = d ∨ ∃ x arguments ty, d = expression (.nameUse x arguments) ty ∧
      d.withName y = expression (.nameUse y arguments) ty := by
  rcases d with _ | _ | _ | _ | ⟨form, ty⟩
  case expression =>
    cases form with
    | nameUse x arguments => exact .inr ⟨x, arguments, ty, rfl, rfl⟩
    | _ => exact .inl rfl
  all_goals exact .inl rfl

/-- What is not told by the names that are used is told of a node with another name. -/
theorem read_withName {β : Type} {f : NodeData → β}
    (hf : ∀ x y arguments ty, f (expression (.nameUse x arguments) ty) =
      f (expression (.nameUse y arguments) ty)) (y : String) (d : NodeData) :
    f (d.withName y) = f d := by
  rcases d.withName_eq y with hsame | ⟨x, arguments, ty, hold, hnew⟩
  · rw [hsame]
  · rw [hnew, hold]
    exact hf ..

/-- The nodes among which a lookup in a scope or class compares the identifiers of the nodes
themselves: parameters, labels and specifications. -/
def listed (d : NodeData) : List NodeId :=
  d.parameters ++ (d.labels?.map (·.own)).elim [] Array.toList ++
    (d.class?.map (·.virtuals)).elim [] Array.toList ++
    (d.class?.map (·.hidden)).elim [] Array.toList ++
    (d.class?.map (·.guarded)).elim [] Array.toList

end NodeData

namespace Tree

/-- No scope lists the node among its parameters, labels or specifications. -/
def Unlisted (t : Tree) (l : NodeId) : Prop := ∀ id < t.size, l ∉ (t.data id).listed

instance (t : Tree) (l : NodeId) : Decidable (t.Unlisted l) :=
  inferInstanceAs (Decidable (∀ id < t.size, l ∉ (t.data id).listed))

/-- A node that is not listed is listed nowhere, not even outside the tree. -/
theorem Unlisted.notMem {t : Tree} {l : NodeId} (h : t.Unlisted l) (id : NodeId) :
    l ∉ (t.data id).listed := by
  by_cases hid : id < t.size
  · exact h id hid
  · rw [data_of_size_le (Nat.le_of_not_lt hid)]
    exact List.not_mem_nil

section

variable {t : Tree} {l : NodeId}

/-- A list without the node has the same first node with an identifier under another name of it. -/
theorem findNamed_withName {ids : List NodeId} (hl : l ∉ ids) (x y : String) :
    (t.update l (·.withName y)).findNamed ids x = t.findNamed ids x := by
  induction ids with
  | nil => rfl
  | cons id ids ih =>
    obtain ⟨hne, hl⟩ := not_or.mp (mt List.mem_cons.mpr hl)
    have hrest := ih hl
    rw [findNamed, findNamed] at hrest ⊢
    rw [List.find?_cons, List.find?_cons, hrest, identifier?, identifier?,
      data_update_of_ne _ (Ne.symm hne)]
    rfl

/-- The same holds of a list that may be absent. -/
theorem findNamed?_withName {ids : Option (Array NodeId)} (hl : l ∉ ids.elim [] Array.toList)
    (x y : String) : ids.bind (fun ids => (t.update l (·.withName y)).findNamed ids.toList x) =
      ids.bind fun ids => t.findNamed ids.toList x := by
  cases ids with
  | none => rfl
  | some ids => exact findNamed_withName hl x y

/-- What does not show names reads the same under another name. -/
theorem read_update_withName {β : Type} {f : NodeData → β}
    (hf : ∀ x y arguments ty, f (.expression (.nameUse x arguments) ty) =
      f (.expression (.nameUse y arguments) ty)) (y : String) (id : NodeId) :
    f ((t.update l (·.withName y)).data id) = f (t.data id) :=
  view_update t l (NodeData.read_withName hf y) id

/-- Classes stay the same under another name. -/
theorem class?_withName (y : String) : (t.update l (·.withName y)).class? = t.class? :=
  funext (read_update_withName (f := (·.class?)) (fun _ _ _ _ => rfl) y)

/-- Another name for a node that no scope lists changes nothing for lookups. -/
theorem Unlisted.sameReads (h : t.Unlisted l) (y : String) :
    t.SameReads (t.update l (·.withName y)) := by
  have hnot := fun id => h.notMem id
  simp only [NodeData.listed, List.mem_append, not_or] at hnot
  exact {
    size := size_update ..
    lookupLocal := by
      funext scope x
      obtain ⟨⟨⟨⟨hparameters, hlabels⟩, hvirtuals⟩, -⟩, -⟩ := hnot scope
      rw [lookupLocal_eq, lookupLocal_eq,
        read_update_withName (f := (·.declarations?)) fun _ _ _ _ => rfl,
        read_update_withName (f := (·.parameters)) fun _ _ _ _ => rfl,
        read_update_withName (f := fun d => d.labels?.map (·.own)) fun _ _ _ _ => rfl,
        class?_withName, findNamed_withName hparameters, findNamed?_withName hlabels]
      rw [← class?] at hvirtuals
      rw [findNamed?_withName hvirtuals]
      rfl
    hiddenSpec := by
      funext c x
      rw [hiddenSpec?_eq, hiddenSpec?_eq, class?_withName]
      exact findNamed?_withName (hnot c).1.2 x y
    protectedSpec := by
      funext c x
      rw [protectedSpec?_eq, protectedSpec?_eq, class?_withName]
      exact findNamed?_withName (hnot c).2 x y
    prefixClass := by
      funext c
      rw [prefixClass?, prefixClass?, class?_withName]
    protectedBy := funext (read_update_withName (f := (·.protectedBy?)) (fun _ _ _ _ => rfl) y)
    declaredIn := funext (read_update_withName (f := (·.declaredIn?)) (fun _ _ _ _ => rfl) y)
    searched := funext fun scope =>
      read_update_withName (f := (·.searchedClass? scope)) (fun _ _ _ _ => rfl) y scope
    connection := read_update_withName (fun _ _ _ _ => rfl) y
    effective := by
      funext id
      rw [effective_eq, effective_eq,
        read_update_withName (f := (·.loadedModule?)) fun _ _ _ _ => rfl]
    isClass := by
      funext c
      rw [isClass, isClass, class?_withName]
    className := by
      intro c hc
      obtain ⟨parts, hparts⟩ := Option.isSome_iff_exists.mp hc
      have hsame := read_update_withName (t := t) (l := l)
        (f := fun d => d.class?.bind fun _ => d.identifier?) (fun _ _ _ _ => rfl) y c
      change ((t.update l (·.withName y)).class? c).bind _ = (t.class? c).bind _ at hsame
      rwa [class?_withName, hparts] at hsame
    declaredType := read_update_withName (fun _ _ _ _ => rfl) y }

end

end Tree

end Simula
