import Simula.Proofs.Meaning.Lookups

/-!
# Lookups along the same links

A tree may get further expressions and keep all its links. Then nothing changes for lookups: every
prefix chain stays, every identifier means the same. What has to be shown is that the room which the
new nodes give to the steps of a lookup makes no difference. Prefix chains stop before a class comes
again, so they need no more steps than there are places. The search for a protected specification
asks again where it meets a hidden one, but it too finds nothing more once it has a step for every
place.

Nothing changes either where every node of a tree answers lookups as before, or where an identifier
is looked up in another spelling.
-/

namespace Simula.Tree

variable {t t' : Tree} {x : String}

/-! ## Enough steps for protected specifications -/

/-- Above no class there is nothing to find. -/
@[simp] theorem protectedAbove_none (t : Tree) (x : String) (n : Nat) :
    t.protectedAbove x n none = none := by
  cases n <;> rfl

/-- A further step takes nothing away. -/
theorem protectedAbove_succ {n : Nat} {c : Option NodeId} {spec : NodeId}
    (h : t.protectedAbove x n c = some spec) : t.protectedAbove x (n + 1) c = some spec := by
  induction n generalizing c spec with
  | zero => cases c <;> cases h
  | succ n ih =>
    cases c with
    | none => cases h
    | some c =>
      rw [protectedAbove] at h ⊢
      split
      · next hhidden =>
        rw [if_pos hhidden] at h
        cases hfirst : t.protectedSpec? c x <|> t.protectedAbove x n (t.prefixClass? c) with
        | none => rw [hfirst] at h; cases h
        | some first =>
          have hfirst' : (t.protectedSpec? c x <|>
              t.protectedAbove x (n + 1) (t.prefixClass? c)) = some first := by
            cases hown : t.protectedSpec? c x with
            | some own => rw [hown] at hfirst; exact hfirst
            | none => rw [hown] at hfirst; exact ih hfirst
          rw [hfirst] at h
          rw [hfirst']
          exact ih h
      · next hhidden =>
        rw [if_neg hhidden] at h
        cases hown : t.protectedSpec? c x with
        | some own => rw [hown] at h; exact h
        | none => rw [hown] at h; exact ih h

/-- A class that protects something is a place. -/
theorem isPlace_of_protectedSpec {c spec : NodeId} (h : t.protectedSpec? c x = some spec) :
    (t.data c).isPlace = true := by
  obtain ⟨parts, hparts, -⟩ := Option.bind_eq_some_iff.mp h
  rw [class?] at hparts
  refine NodeData.isPlace_of_class ?_
  rw [hparts]
  rfl

/-- A search finds something only from a place. -/
theorem isPlace_of_protectedAbove {n : Nat} {c spec : NodeId}
    (h : t.protectedAbove x n (some c) = some spec) : (t.data c).isPlace = true := by
  cases n with
  | zero => cases h
  | succ n =>
    cases hhidden : t.hiddenSpec? c x with
    | some hidden => exact isPlace_of_hiddenSpec hhidden
    | none =>
      cases hown : t.protectedSpec? c x with
      | some own => exact isPlace_of_protectedSpec hown
      | none =>
        simp only [protectedAbove, hhidden, hown, Option.isSome_none, Bool.false_eq_true,
          if_false] at h
        cases hlink : t.prefixClass? c with
        | some p => exact isPlace_of_prefixClass hlink
        | none => simp [hlink] at h

/-- With one step more a search finds no less; where it finds no more, further steps do not help. -/
theorem deepens_protectedAbove (t : Tree) (x : String) :
    Graph.Deepens fun n c => t.protectedAbove x n (some c) where
  zero _ := rfl
  more _ _ _ h := protectedAbove_succ h
  step n h := by
    have hsame : t.protectedAbove x n = t.protectedAbove x (n + 1) := by
      funext c
      cases c with
      | none => simp
      | some c => exact congrFun h c
    funext c
    rw [protectedAbove, protectedAbove, hsame]

/-- The search for a protected specification needs no more steps than there are places. -/
theorem protectedAbove_eq {m n : Nat} (hm : t.places.length ≤ m) (hn : t.places.length ≤ n)
    (c : Option NodeId) : t.protectedAbove x m c = t.protectedAbove x n c := by
  cases c with
  | none => simp
  | some c =>
    have hall := (t.deepens_protectedAbove x).eq_of_length_le
      (fun _ _ _ h => mem_places (isPlace_of_protectedAbove h)) hm hn
    exact congrFun hall c

/-! ## Enough steps for prefix chains -/

/-- The places that a prefix chain has not come to yet. -/
def unseen (t : Tree) (seen : List NodeId) : List NodeId := t.places.filter (· ∉ seen)

/-- Each class that is seen for the first time leaves fewer to see. -/
theorem length_unseen_cons {seen : List NodeId} {p : NodeId} (hp : (t.data p).isPlace = true)
    (hseen : p ∉ seen) : (t.unseen (p :: seen)).length < (t.unseen seen).length := by
  have hfilter : t.unseen (p :: seen) = (t.unseen seen).filter (· ≠ p) := by
    rw [unseen, unseen, List.filter_filter]
    refine List.filter_congr fun c _ => ?_
    simp
  rw [hfilter]
  refine List.length_filter_lt_length_iff_exists.mpr ⟨p, ?_, by simp⟩
  exact List.mem_filter.mpr ⟨mem_places hp, by simpa using hseen⟩

/-- A class without a prefix class has no prefixes. -/
theorem prefixesAbove_of_none {c : NodeId} (h : t.prefixClass? c = none) (n : Nat)
    (seen : List NodeId) : t.prefixesAbove n seen c = [] := by
  cases n with
  | zero => rfl
  | succ n => simp only [prefixesAbove, h]

/-- The classes above one need no more steps than there are places left. -/
theorem prefixesAbove_eq {m n : Nat} {seen : List NodeId} (c : NodeId)
    (hm : (t.unseen seen).length < m) (hn : (t.unseen seen).length < n) :
    t.prefixesAbove m seen c = t.prefixesAbove n seen c := by
  induction m generalizing n seen c with
  | zero => cases hm
  | succ m ih =>
    obtain ⟨n, rfl⟩ := Nat.exists_eq_succ_of_ne_zero (Nat.ne_zero_of_lt hn)
    rw [prefixesAbove, prefixesAbove]
    cases hp : t.prefixClass? c with
    | none => rfl
    | some p =>
      dsimp only
      split
      · rfl
      · next hseen =>
        congr 1
        cases habove : t.prefixClass? p with
        | none => rw [prefixesAbove_of_none habove, prefixesAbove_of_none habove]
        | some q =>
          have hless := length_unseen_cons (isPlace_of_prefixClass habove) hseen
          exact ih p (by omega) (by omega)

/-- A prefix chain needs no more steps than there are places. -/
theorem prefixChain_eq {n : Nat} (hn : t.places.length ≤ n) (c : NodeId) :
    t.prefixChain c = c :: t.prefixesAbove n [c] c := by
  rw [prefixChain]
  congr 1
  cases hp : t.prefixClass? c with
  | none => rw [prefixesAbove_of_none hp, prefixesAbove_of_none hp]
  | some p =>
    have hless := length_unseen_cons (isPlace_of_prefixClass hp) (List.not_mem_nil (a := c))
    have hall : (t.unseen []).length = t.places.length := by simp [unseen]
    have hsize := t.length_places_le
    exact prefixesAbove_eq c (by omega) (by omega)

/-- Where the prefix classes are the same, the prefix chains are, even if the tree has grown. -/
theorem prefixChain_of_prefixClass (hprefixClass : ∀ id, t'.prefixClass? id = t.prefixClass? id)
    (hsize : t.size ≤ t'.size) (c : NodeId) : t'.prefixChain c = t.prefixChain c := by
  have habove : ∀ n seen d, t'.prefixesAbove n seen d = t.prefixesAbove n seen d := by
    intro n
    induction n with
    | zero => exact fun _ _ => rfl
    | succ n ih =>
      intro seen d
      simp only [prefixesAbove, hprefixClass, ih]
  rw [prefixChain, habove, ← prefixChain_eq (Nat.le_trans t.length_places_le hsize)]

/-! ## The same scopes -/

/-- The second tree offers the same as the first, and its classes and scopes hang together in the
same way. It may have further nodes, but then the first has an expression. -/
structure SameScopes (t t' : Tree) : Prop extends t.Regrown t' where
  prefixClass : ∀ id, t'.prefixClass? id = t.prefixClass? id
  declaredIn : ∀ id, t'.declaredIn? id = t.declaredIn? id
  searched : ∀ id, t'.searchedClass? id = t.searchedClass? id

namespace SameScopes

variable (h : t.SameScopes t')
include h

/-- Every class has the same prefix chain. -/
theorem prefixChain (c : NodeId) : t'.prefixChain c = t.prefixChain c :=
  prefixChain_of_prefixClass h.prefixClass h.size_le c

/-- The protected specification that belongs to a hidden one is the same. -/
theorem findProtected (c : NodeId) : t'.findProtected c x = t.findProtected c x := by
  rw [Tree.findProtected, Tree.findProtected, h.offers.protectedSpec?, h.prefixClass,
    h.offers.protectedAbove h.prefixClass fun spec _ => h.declaredIn spec]
  rw [protectedAbove_eq (Nat.le_trans t.length_places_le h.size_le) t.length_places_le]

section

variable (hbehind : ∀ outside c, t'.goesOnBehind? x outside c = t.goesOnBehind? x outside c)
include hbehind

/-- Where hidden identifiers lead behind the same classes, every search goes the same way. -/
theorem sameSearch (outside : Bool) (c : NodeId) : SameSearch t t' x outside c :=
  fun o d _ => ⟨hbehind o d, fun q _ => h.prefixClass q⟩

/-- Then every lookup goes the same way. -/
theorem sameLookup (start : NodeId) : SameLookup t t' x start where
  searched a _ := h.searched a
  search _ o c _ _ := h.sameSearch hbehind o c
  outward a _ _ := h.declaredIn a

end

end SameScopes

/-! ## The same links -/

/-- The second tree offers the same as the first and has the same links. It may have further nodes,
but then the first has an expression. -/
structure SameLinks (t t' : Tree) : Prop extends t.SameScopes t' where
  protectedBy : ∀ id, t'.protectedBy? id = t.protectedBy? id

namespace SameLinks

variable (h : t.SameLinks t')
include h

/-- The search goes on behind the same class. -/
theorem goesOnBehind? (outside : Bool) (c : NodeId) :
    t'.goesOnBehind? x outside c = t.goesOnBehind? x outside c := by
  have hdeclaredIn : t'.declaredIn? = t.declaredIn? := funext h.declaredIn
  simp only [Tree.goesOnBehind?, h.offers.hiddenSpec?, h.offers.lookupLocal, protectedDeclarer,
    h.protectedBy, h.findProtected, hdeclaredIn]

/-- Every identifier means the same. -/
theorem resolve (scope : NodeId) (x : String) : t'.resolve scope x = t.resolve scope x :=
  h.resolve_eq (h.sameLookup h.goesOnBehind? scope)

/-- A class is found in the same place. -/
theorem lookupClass (scope : NodeId) (x : String) :
    t'.lookupClass scope x = t.lookupClass scope x := by
  have hclass : t'.isClass = t.isClass := funext h.offers.isClass
  rw [Tree.lookupClass, Tree.lookupClass, h.resolve, hclass]

/-- The classes seen from a scope are the same. -/
theorem classView (scope : NodeId) : t'.classView scope = t.classView scope :=
  classView_congr (h.lookupClass scope) h.prefixChain

end SameLinks

/-! ## The same answers -/

/-- Every node of the second tree answers lookups as in the first. -/
structure SameAnswers (t t' : Tree) : Prop where
  size : t'.size = t.size
  lookupLocal : t'.lookupLocal = t.lookupLocal
  hiddenSpec : t'.hiddenSpec? = t.hiddenSpec?
  protectedSpec : t'.protectedSpec? = t.protectedSpec?
  prefixClass : t'.prefixClass? = t.prefixClass?
  protectedBy : t'.protectedBy? = t.protectedBy?
  declaredIn : t'.declaredIn? = t.declaredIn?
  searched : t'.searchedClass? = t.searchedClass?
  connection : ∀ id, (t'.data id).isConnection = (t.data id).isConnection
  effective : t'.effective = t.effective
  isClass : t'.isClass = t.isClass

namespace SameAnswers

variable (h : t.SameAnswers t')
include h

/-- The protected specification that belongs to a hidden one is the same. -/
theorem findProtected : t'.findProtected = t.findProtected := by
  have habove : ∀ x n c, t'.protectedAbove x n c = t.protectedAbove x n c := by
    intro x n
    induction n with
    | zero => intro c; cases c <;> rfl
    | succ n ih =>
      intro c
      cases c with
      | none => rfl
      | some c =>
        simp only [protectedAbove, h.hiddenSpec, h.protectedSpec, h.prefixClass, h.declaredIn, ih]
  funext c x
  rw [Tree.findProtected, Tree.findProtected, h.protectedSpec, h.prefixClass, h.size, habove]

/-- So is the class that owns it. -/
theorem protectedDeclarer : t'.protectedDeclarer = t.protectedDeclarer := by
  funext c hidden x
  rw [Tree.protectedDeclarer, Tree.protectedDeclarer, h.protectedBy, h.findProtected, h.declaredIn]

/-- A search for an attribute gives the same. -/
theorem findAttribute : t'.findAttribute = t.findAttribute := by
  have hsearch : ∀ x n outside behind c,
      t'.searchAttribute x n outside behind c = t.searchAttribute x n outside behind c := by
    intro x n
    induction n with
    | zero => simp
    | succ n ih =>
      intro outside behind c
      cases c with
      | none => rfl
      | some c =>
        simp only [searchAttribute, h.hiddenSpec, h.lookupLocal, h.prefixClass,
          h.protectedDeclarer, ih]
  funext c x remote
  rw [Tree.findAttribute, Tree.findAttribute, h.size, hsearch]

/-- An identifier means the same in each scope. -/
theorem resolve (scope : NodeId) (x : String) : t'.resolve scope x = t.resolve scope x := by
  have hscope : ∀ a, t'.lookupScope a x = t.lookupScope a x := fun a => by
    rw [lookupScope_eq, lookupScope_eq, h.connection, h.isClass, h.searched, h.findAttribute,
      h.lookupLocal]
  have hsteps : ∀ n a, t'.resolveFrom scope x n a = t.resolveFrom scope x n a := by
    intro n
    induction n with
    | zero => intro a; cases a <;> rfl
    | succ n ih =>
      intro a
      cases a with
      | none => rfl
      | some a => simp only [resolveFrom, hscope, h.effective, h.declaredIn, ih]
  rw [Tree.resolve, Tree.resolve, h.size, hsteps]

/-- An attribute of a class means the same from each scope. -/
theorem resolveRemote (scope c : NodeId) (x : String) :
    t'.resolveRemote scope c x = t.resolveRemote scope c x := by
  rw [Tree.resolveRemote, Tree.resolveRemote, h.findAttribute, h.effective]

/-- Classes have the same prefix chains. -/
theorem prefixChain (c : NodeId) : t'.prefixChain c = t.prefixChain c :=
  prefixChain_of_prefixClass (congrFun h.prefixClass) (Nat.le_of_eq h.size.symm) c

/-- A class is found in the same place. -/
theorem lookupClass (scope : NodeId) (x : String) :
    t'.lookupClass scope x = t.lookupClass scope x := by
  rw [Tree.lookupClass, Tree.lookupClass, h.resolve, h.isClass]

/-- The classes seen from a scope are the same. -/
theorem classView (scope : NodeId) : t'.classView scope = t.classView scope :=
  classView_congr (h.lookupClass scope) h.prefixChain

end SameAnswers

/-! ## Spellings of one identifier -/

section

variable {y : String} (h : t.sameIdentifier x y = true)
include h

/-- Both spellings are compared with the same outcome. -/
theorem sameIdentifier_congr (i : String) : t.sameIdentifier i x = t.sameIdentifier i y := by
  have hxy := (CaseRule.same_iff ..).mp h
  rw [sameIdentifier, sameIdentifier, CaseRule.same, CaseRule.same, hxy]

/-- Both are found in the same place of a list. -/
theorem findNamed_congr (ids : List NodeId) : t.findNamed ids x = t.findNamed ids y := by
  simp only [findNamed, sameIdentifier_congr h]

/-- A scope offers the same under both. -/
theorem lookupLocal_congr (scope : NodeId) : t.lookupLocal scope x = t.lookupLocal scope y := by
  have hfind : ∀ l : DeclarationList, l.find? t.caseRule x = l.find? t.caseRule y := fun l => by
    have hsame : ∀ i, t.caseRule.same i x = t.caseRule.same i y := sameIdentifier_congr h
    simp only [DeclarationList.find?, hsame]
  simp only [lookupLocal, hfind, findNamed_congr h]

/-- A class hides both or none. -/
theorem hiddenSpec?_congr (c : NodeId) : t.hiddenSpec? c x = t.hiddenSpec? c y := by
  simp only [hiddenSpec?, findNamed_congr h]

/-- A class protects both or none. -/
theorem protectedSpec?_congr (c : NodeId) : t.protectedSpec? c x = t.protectedSpec? c y := by
  simp only [protectedSpec?, findNamed_congr h]

/-- The search for a protected specification gives the same for both. -/
theorem protectedAbove_congr (n : Nat) (c : Option NodeId) :
    t.protectedAbove x n c = t.protectedAbove y n c := by
  induction n generalizing c with
  | zero => cases c <;> rfl
  | succ n ih =>
    cases c with
    | none => rfl
    | some c =>
      rw [protectedAbove, protectedAbove, hiddenSpec?_congr h, protectedSpec?_congr h]
      simp only [ih]

/-- The same protected specification belongs to both. -/
theorem findProtected_congr (c : NodeId) : t.findProtected c x = t.findProtected c y := by
  rw [findProtected, findProtected, protectedSpec?_congr h, protectedAbove_congr h]

/-- The search for an attribute gives the same for both. -/
theorem searchAttribute_congr (n : Nat) (outside behind : Bool) (c : Option NodeId) :
    t.searchAttribute x n outside behind c = t.searchAttribute y n outside behind c := by
  induction n generalizing outside behind c with
  | zero => simp
  | succ n ih =>
    cases c with
    | none => rfl
    | some c =>
      simp only [searchAttribute, protectedDeclarer, hiddenSpec?_congr h, findProtected_congr h,
        lookupLocal_congr h, ih]

/-- The same attribute is found under both. -/
theorem findAttribute_congr (c : NodeId) (remote : Bool) :
    t.findAttribute c x remote = t.findAttribute c y remote :=
  searchAttribute_congr h ..

/-- Spellings of one identifier mean the same. -/
theorem resolve_congr (scope : NodeId) : t.resolve scope x = t.resolve scope y := by
  have hscope : ∀ a, t.lookupScope a x = t.lookupScope a y := fun a => by
    simp only [lookupScope, findAttribute_congr h, lookupLocal_congr h]
  have hfrom : ∀ n a, t.resolveFrom scope x n a = t.resolveFrom scope y n a := by
    intro n
    induction n with
    | zero => intro a; cases a <;> rfl
    | succ n ih =>
      intro a
      cases a with
      | none => rfl
      | some a => simp only [resolveFrom, hscope, ih]
  exact hfrom t.size (some scope)

/-- Both mean the same attribute of a class. -/
theorem resolveRemote_congr (scope c : NodeId) :
    t.resolveRemote scope c x = t.resolveRemote scope c y := by
  rw [resolveRemote, resolveRemote, findAttribute_congr h]

/-- Both mean the same class. -/
theorem lookupClass_congr (scope : NodeId) : t.lookupClass scope x = t.lookupClass scope y := by
  rw [lookupClass, lookupClass, resolve_congr h]

end

end Simula.Tree
