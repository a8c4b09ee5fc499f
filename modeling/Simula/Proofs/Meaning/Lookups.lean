import Simula.Proofs.Graph.Walks
import Simula.Proofs.Meaning.Offers

/-!
# The way of a lookup

A lookup passes scopes from the inside out, and in a class or a connection block it searches a
class and its prefixes. What it finds depends on nothing but the links on this way: where two trees
offer the same and the links on the way are the same, an identifier means the same. The bound on
its steps makes no difference, even where one of the trees has got further expressions.
-/

namespace Simula.Tree

/-! ## Searching a class -/

/-- The class behind which the search for an attribute goes on: the one that protects a hidden
identifier, or the class itself if it does not offer the identifier. -/
def goesOnBehind? (t : Tree) (x : String) (outside : Bool) (c : NodeId) : Option NodeId :=
  match if outside then t.hiddenSpec? c x else none with
  | some hidden => some ((t.protectedDeclarer c hidden x).getD c)
  | none => if (t.lookupLocal c x).isSome then none else some c

section

variable {t : Tree} {x : String} {outside : Bool} {c q : NodeId}

/-- A search that does not go on has found what the class offers. -/
theorem searchAttribute_of_stops (h : t.goesOnBehind? x outside c = none) (n : Nat)
    (behind : Bool) : t.searchAttribute x (n + 1) outside behind (some c) =
      (t.lookupLocal c x).map fun d => ⟨d, c, behind⟩ := by
  rw [goesOnBehind?] at h
  rw [searchAttribute]
  cases hhidden : if outside then t.hiddenSpec? c x else none with
  | some hidden => simp [hhidden] at h
  | none =>
    rw [hhidden] at h
    cases hlocal : t.lookupLocal c x <;> simp [hlocal] at h ⊢

/-- A search that goes on has found a hidden specification, or nothing at all. -/
theorem searchAttribute_of_goesOn (h : t.goesOnBehind? x outside c = some q) (n : Nat)
    (behind : Bool) : t.searchAttribute x (n + 1) outside behind (some c) =
      t.searchAttribute x n true (behind || outside && (t.hiddenSpec? c x).isSome)
        (t.prefixClass? q) := by
  rw [goesOnBehind?] at h
  rw [searchAttribute]
  cases outside with
  | false => cases hlocal : t.lookupLocal c x <;> simp_all
  | true =>
    cases hhidden : t.hiddenSpec? c x with
    | some hidden => simp_all
    | none => cases hlocal : t.lookupLocal c x <;> simp_all

end

/-- No class has no attributes. -/
@[simp] theorem searchAttribute_none (t : Tree) (x : String) (n : Nat) (outside behind : Bool) :
    t.searchAttribute x n outside behind none = none := by
  cases n <;> rfl

/-- Without steps nothing is found. -/
@[simp] theorem searchAttribute_zero (t : Tree) (x : String) (outside behind : Bool)
    (c : Option NodeId) : t.searchAttribute x 0 outside behind c = none := by
  cases c <;> rfl

/-- The classes that the search for an attribute passes from a class on, and whether it comes to
them from outside. -/
inductive Searches (t : Tree) (x : String) (outside : Bool) (c : NodeId) : Bool → NodeId → Prop
  | start : Searches t x outside c outside c
  | next {o : Bool} {d q p : NodeId} (hd : Searches t x outside c o d)
      (hq : t.goesOnBehind? x o d = some q) (hp : t.prefixClass? q = some p) :
      Searches t x outside c true p

/-- From a class that it passes a search passes no other classes. -/
theorem Searches.trans {t : Tree} {x : String} {o₁ o₂ o₃ : Bool} {c d e : NodeId}
    (h : t.Searches x o₁ c o₂ d) (h' : t.Searches x o₂ d o₃ e) : t.Searches x o₁ c o₃ e := by
  induction h' with
  | start => exact h
  | next _ hq hp ih => exact .next ih hq hp

/-- The search for an attribute goes the same way in the first tree as in the second. -/
def SameSearch (t t' : Tree) (x : String) (outside : Bool) (c : NodeId) : Prop :=
  ∀ o d, t'.Searches x outside c o d → t'.goesOnBehind? x o d = t.goesOnBehind? x o d ∧
    ∀ q, t'.goesOnBehind? x o d = some q → t'.prefixClass? q = t.prefixClass? q

variable {t t' : Tree} {x : String}

/-- A search that goes the same way does so from the next class on. -/
theorem SameSearch.next {outside : Bool} {c q p : NodeId} (h : SameSearch t t' x outside c)
    (hq : t'.goesOnBehind? x outside c = some q) (hp : t'.prefixClass? q = some p) :
    SameSearch t t' x true p :=
  fun o d hd => h o d ((Searches.start.next hq hp).trans hd)

/-- A search that goes the same way finds the same. -/
theorem SameSearch.searchAttribute_eq {outside : Bool} {c : NodeId}
    (h : SameSearch t t' x outside c) (hoffers : t.SameOffers t') (n : Nat) (behind : Bool) :
    t'.searchAttribute x n outside behind (some c) =
      t.searchAttribute x n outside behind (some c) := by
  induction n generalizing outside c behind with
  | zero => simp
  | succ n ih =>
    obtain ⟨hbehind, hprefixClass⟩ := h outside c .start
    cases hq : t'.goesOnBehind? x outside c with
    | none =>
      rw [searchAttribute_of_stops hq, searchAttribute_of_stops (hbehind ▸ hq),
        hoffers.lookupLocal]
    | some q =>
      rw [searchAttribute_of_goesOn hq, searchAttribute_of_goesOn (hbehind ▸ hq),
        ← hprefixClass q hq, hoffers.hiddenSpec?]
      cases hp : t'.prefixClass? q with
      | none => simp
      | some p => exact ih (h.next hq hp) _

/-! ## Protected specifications -/

/-- What is found under an identifier has one. -/
theorem identifier?_of_findNamed {ids : List NodeId} {id : NodeId}
    (h : t.findNamed ids x = some id) : (t.identifier? id).isSome := by
  have hfound := List.find?_some h
  split at hfound
  · next hidentifier => rw [hidentifier]; rfl
  · cases hfound

/-- A protected specification that has been found has an identifier. -/
theorem identifier?_of_protectedSpec {c spec : NodeId} (h : t.protectedSpec? c x = some spec) :
    (t.identifier? spec).isSome := by
  obtain ⟨parts, -, hfound⟩ := Option.bind_eq_some_iff.mp h
  exact identifier?_of_findNamed hfound

/-- So has one that was found above a class. -/
theorem identifier?_of_protectedAbove {n : Nat} {c : Option NodeId} {spec : NodeId}
    (h : t.protectedAbove x n c = some spec) : (t.identifier? spec).isSome := by
  induction n generalizing c with
  | zero => cases c <;> cases h
  | succ n ih =>
    cases c with
    | none => cases h
    | some c =>
      rw [protectedAbove] at h
      split at h
      · split at h
        · cases h
        · exact ih h
      · split at h
        · next hspec => exact identifier?_of_protectedSpec (h ▸ hspec)
        · exact ih h

/-- So has one that was found in a class or above it. -/
theorem identifier?_of_specOrAbove {n : Nat} {c spec : NodeId} {above : Option NodeId}
    (h : (t.protectedSpec? c x <|> t.protectedAbove x n above) = some spec) :
    (t.identifier? spec).isSome := by
  cases hown : t.protectedSpec? c x with
  | some own =>
    rw [hown] at h
    exact identifier?_of_protectedSpec (hown.trans h)
  | none =>
    rw [hown] at h
    exact identifier?_of_protectedAbove h

/-- The search for a protected specification reads links of classes and of specifications only. -/
theorem SameOffers.protectedAbove (h : t.SameOffers t')
    (hprefixClass : ∀ id, t'.prefixClass? id = t.prefixClass? id)
    (hdeclaredIn : ∀ spec, (t.identifier? spec).isSome → t'.declaredIn? spec = t.declaredIn? spec)
    (n : Nat) (c : Option NodeId) : t'.protectedAbove x n c = t.protectedAbove x n c := by
  have hlinks : t'.prefixClass? = t.prefixClass? := funext hprefixClass
  induction n generalizing c with
  | zero => cases c <;> rfl
  | succ n ih =>
    cases c with
    | none => rfl
    | some c =>
      rw [Tree.protectedAbove, Tree.protectedAbove, hlinks]
      simp only [h.hiddenSpec?, h.protectedSpec?, ih]
      split
      · cases hspec : (t.protectedSpec? c x <|> t.protectedAbove x n (t.prefixClass? c)) with
        | none => rfl
        | some spec =>
          dsimp only
          rw [hdeclaredIn spec (identifier?_of_specOrAbove hspec)]
      · rfl

/-- The two trees have the same links between classes and their specifications. -/
structure SameClasses (t t' : Tree) : Prop where
  offers : t.SameOffers t'
  size : t'.size = t.size
  prefixClass : ∀ id, t'.prefixClass? id = t.prefixClass? id
  protectedBy : ∀ id, t'.protectedBy? id = t.protectedBy? id
  /-- A specification stands in the same class. -/
  declaredIn : ∀ id, (t.identifier? id).isSome ∨ (∃ h, t.protectedBy? h = some id) →
    t'.declaredIn? id = t.declaredIn? id

namespace SameClasses

/-- A change of a node that is no specification, or of one that stays in its class. -/
theorem update (t : Tree) (id : NodeId) {f : NodeData → NodeData}
    (hoffered : ∀ d, (f d).offered = d.offered) (hclass : ∀ d, (f d).class? = d.class?)
    (hprotectedBy : ∀ d, (f d).protectedBy? = d.protectedBy?)
    (hdeclaredIn : (t.identifier? id).isSome ∨ (∃ h, t.protectedBy? h = some id) →
      ∀ d, (f d).declaredIn? = d.declaredIn?) : t.SameClasses (t.update id f) where
  offers := .update t id hoffered
  size := size_update ..
  prefixClass i := congrArg (·.bind (·.prefixClass)) (view_update t id hclass i)
  protectedBy i := view_update t id hprotectedBy i
  declaredIn i hi := by
    by_cases heq : i = id
    · subst heq
      exact view_update t i (hdeclaredIn hi) i
    · rw [declaredIn?, declaredIn?, data_update_of_ne f heq]

variable (h : t.SameClasses t')
include h

/-- The search for a protected specification gives the same. -/
theorem protectedAbove (n : Nat) (c : Option NodeId) :
    t'.protectedAbove x n c = t.protectedAbove x n c :=
  h.offers.protectedAbove h.prefixClass (fun spec hspec => h.declaredIn spec (.inl hspec)) n c

/-- The same class owns the protected specification of a hidden one. -/
theorem protectedDeclarer (c hidden : NodeId) :
    t'.protectedDeclarer c hidden x = t.protectedDeclarer c hidden x := by
  have hfind : t'.findProtected c x = t.findProtected c x := by
    rw [findProtected, findProtected, h.offers.protectedSpec?, h.prefixClass, h.size,
      h.protectedAbove]
  rw [Tree.protectedDeclarer, Tree.protectedDeclarer, hfind, h.protectedBy]
  cases hby : t.protectedBy? hidden with
  | some p => exact h.declaredIn p (.inr ⟨hidden, hby⟩)
  | none =>
    cases hfound : t.findProtected c x with
    | none => rfl
    | some p => exact h.declaredIn p (.inl (identifier?_of_specOrAbove hfound))

/-- So every search for an attribute goes the same way in both. -/
theorem sameSearch (outside : Bool) (c : NodeId) : SameSearch t t' x outside c := by
  intro o d _
  refine ⟨?_, fun q _ => h.prefixClass q⟩
  simp only [goesOnBehind?, h.offers.hiddenSpec?, h.offers.lookupLocal, h.protectedDeclarer]

end SameClasses

/-! ## Enough steps -/

/-- The nodes in which a lookup can find something or from which it can go on. -/
def places (t : Tree) : List NodeId := (List.range t.size).filter fun id => (t.data id).isPlace

/-- What a lookup can find something in is among the places. -/
theorem mem_places {id : NodeId} (h : (t.data id).isPlace = true) : id ∈ t.places := by
  have hlt : id < t.size := lt_of_data fun hpending => by
    rw [hpending] at h
    cases h
  simp [places, hlt, h]

/-- There are no more places than nodes. -/
theorem length_places_le (t : Tree) : t.places.length ≤ t.size := by
  calc t.places.length ≤ (List.range t.size).length := List.length_filter_le _ _
    _ = t.size := List.length_range

/-- A tree with an expression has more nodes than places. -/
theorem length_places_lt {id : NodeId} (h : (t.data id).expressionType?.isSome) :
    t.places.length < t.size := by
  have hlt : id < t.size := lt_of_data fun hpending => by
    rw [hpending] at h
    cases h
  have hno : (t.data id).isPlace = false := by
    revert h
    rcases t.data id with _ | _ | _ | _ | _
    case declaration | connection => exact nofun
    all_goals exact fun _ => rfl
  have hfilter : t.places.length < (List.range t.size).length :=
    List.length_filter_lt_length_iff_exists.mpr ⟨id, by simpa using hlt, by simp [hno]⟩
  simpa using hfilter

/-- The second tree offers the same as the first. It may have further nodes, but then the first has
an expression. -/
structure Regrown (t t' : Tree) : Prop where
  offers : t.SameOffers t'
  size_le : t.size ≤ t'.size
  expression : t.size < t'.size → ∃ id, (t.data id).expressionType?.isSome

/-- A tree that grows gets no new places. -/
theorem Regrown.mem_places (h : t.Regrown t') {id : NodeId} (hid : (t'.data id).isPlace = true) :
    id ∈ t.places := by
  refine Tree.mem_places ?_
  rwa [← h.offers.read _ NodeData.isPlace_offered id]

/-- The search for an attribute from outside is a walk along prefixes. -/
theorem walks_searchAttribute (t : Tree) (x : String) :
    Graph.Walks (fun c => (t.goesOnBehind? x true c).bind t.prefixClass?)
      (fun c => t.goesOnBehind? x true c = none)
      (fun n behind c => t.searchAttribute x n true behind (some c))
      (fun behind c => (t.lookupLocal c x).map fun d => ⟨d, c, behind⟩)
      (fun behind c => behind || (t.hiddenSpec? c x).isSome) none where
  zero behind c := by simp
  stops n behind c hstop := searchAttribute_of_stops hstop n behind
  ends n behind c hgo hnext := by
    obtain ⟨q, hq⟩ := Option.ne_none_iff_exists'.mp hgo
    rw [hq, Option.bind_some] at hnext
    rw [searchAttribute_of_goesOn hq, hnext, searchAttribute_none]
  goes n behind c p hgo hnext := by
    obtain ⟨q, hq⟩ := Option.ne_none_iff_exists'.mp hgo
    rw [hq, Option.bind_some] at hnext
    rw [searchAttribute_of_goesOn hq, hnext, Bool.true_and]

/-- A class that hides something is a place. -/
theorem isPlace_of_hiddenSpec {c h : NodeId} (hh : t.hiddenSpec? c x = some h) :
    (t.data c).isPlace = true := by
  refine NodeData.isPlace_of_class ?_
  rw [hiddenSpec?] at hh
  obtain ⟨parts, hparts, -⟩ := Option.bind_eq_some_iff.mp hh
  rw [class?] at hparts
  rw [hparts]
  rfl

/-- A class with a prefix class is a place. -/
theorem isPlace_of_prefixClass {c p : NodeId} (hp : t.prefixClass? c = some p) :
    (t.data c).isPlace = true := by
  refine NodeData.isPlace_of_class ?_
  obtain ⟨parts, hparts, -⟩ := Option.bind_eq_some_iff.mp hp
  rw [class?] at hparts
  rw [hparts]
  rfl

/-- A search stops only where something is offered. -/
theorem isPlace_of_stops {c : NodeId} (h : t.goesOnBehind? x true c = none) :
    (t.data c).isPlace = true := by
  rw [goesOnBehind?] at h
  cases hlocal : t.lookupLocal c x with
  | some d => exact isPlace_of_lookupLocal hlocal
  | none =>
    simp only [if_true, hlocal, Option.isSome_none] at h
    split at h <;> cases h

/-- A search goes on to another class only from a class. -/
theorem isPlace_of_goesOn {c q p : NodeId} (h : t.goesOnBehind? x true c = some q)
    (hp : t.prefixClass? q = some p) : (t.data c).isPlace = true := by
  cases hhidden : t.hiddenSpec? c x with
  | some hidden => exact isPlace_of_hiddenSpec hhidden
  | none =>
    have hqc : q = c := by
      simp only [goesOnBehind?, if_true, hhidden] at h
      split at h
      · cases h
      · exact (Option.some.inj h).symm
    exact isPlace_of_prefixClass (hqc ▸ hp)

namespace Regrown

variable (h : t.Regrown t')
include h

/-- A search from outside needs no more steps than the first tree has places. -/
theorem searchAttribute_eq {m n : Nat} (hm : t.places.length ≤ m) (hn : t.places.length ≤ n)
    (behind : Bool) (c : Option NodeId) :
    t'.searchAttribute x m true behind c = t'.searchAttribute x n true behind c := by
  cases c with
  | none => simp
  | some c =>
    refine (t'.walks_searchAttribute x).eq_of_length_le (fun c hstop => ?_) (fun c p hnext => ?_)
      hm hn
    · exact h.mem_places (isPlace_of_stops hstop)
    · obtain ⟨q, hq, hp⟩ := Option.bind_eq_some_iff.mp hnext
      exact h.mem_places (isPlace_of_goesOn hq hp)

/-- A class offers the same attribute where the search for it goes the same way. -/
theorem findAttribute_eq {remote : Bool} {c : NodeId} (hway : SameSearch t t' x remote c) :
    t'.findAttribute c x remote = t.findAttribute c x remote := by
  rw [findAttribute, findAttribute, ← hway.searchAttribute_eq h.offers]
  cases remote with
  | true =>
    exact h.searchAttribute_eq (Nat.le_trans t.length_places_le h.size_le) t.length_places_le _ _
  | false =>
    rcases Nat.eq_or_lt_of_le h.size_le with hsize | hlt
    · rw [hsize]
    · -- The first class is searched from inside and may come again, so one place must be spared.
      obtain ⟨id, hid⟩ := h.expression hlt
      have hspare := length_places_lt hid
      obtain ⟨n, hn⟩ : ∃ n, t.size = n + 1 := Nat.exists_eq_succ_of_ne_zero (by omega)
      obtain ⟨m, hm⟩ : ∃ m, t'.size = m + 1 := Nat.exists_eq_succ_of_ne_zero (by omega)
      rw [hn, hm]
      cases hq : t'.goesOnBehind? x false c with
      | none => rw [searchAttribute_of_stops hq, searchAttribute_of_stops hq]
      | some q =>
        rw [searchAttribute_of_goesOn hq, searchAttribute_of_goesOn hq]
        exact h.searchAttribute_eq (by omega) (by omega) _ _

end Regrown

/-- Where the links of classes are the same, a class offers the same attributes. -/
theorem SameClasses.findAttribute_eq (h : t.SameClasses t') (c : NodeId) (x : String)
    (remote : Bool) : t'.findAttribute c x remote = t.findAttribute c x remote := by
  have hregrown : t.Regrown t' :=
    ⟨h.offers, Nat.le_of_eq h.size.symm, fun hlt => absurd h.size (Nat.ne_of_gt hlt)⟩
  exact hregrown.findAttribute_eq (h.sameSearch remote c)

/-! ## Passing scopes -/

/-- The class that is searched in a scope, and whether from outside: that of a connection block,
or the scope itself. -/
def searchedClass? (t : Tree) (scope : NodeId) : Option (Bool × NodeId) :=
  match t.data scope with
  | .connection c => c.classDeclaration.map (true, ·)
  | .declaration _ _ (.classDeclaration _) => some (false, scope)
  | _ => none

/-- A lookup in a scope searches the class that the scope is or inspects, and otherwise what the
scope offers itself. -/
theorem lookupScope_eq (t : Tree) (scope : NodeId) (x : String) : t.lookupScope scope x =
    if (t.data scope).isConnection || t.isClass scope then
      (t.searchedClass? scope).bind fun e =>
        (t.findAttribute e.2 x e.1).map (·, (t.data scope).isConnection)
    else (t.lookupLocal scope x).map fun d => (⟨d, scope, false⟩, false) := by
  rw [lookupScope, searchedClass?, isClass, class?]
  rcases t.data scope with _ | ⟨_, _, form⟩ | block | _ | _
  case declaration => cases form <;> simp [NodeData.isConnection, NodeData.class?]
  case connection =>
    obtain ⟨_, _, _, c, _⟩ := block
    cases c <;> simp [NodeData.isConnection, NodeData.class?]
  all_goals simp [NodeData.isConnection, NodeData.class?]

/-- The scopes that a lookup passes from a scope on. -/
inductive Passes (t : Tree) (x : String) (start : NodeId) : NodeId → Prop
  | start : Passes t x start start
  | outward {a b : NodeId} (ha : Passes t x start a) (hnone : t.lookupScope a x = none)
      (hb : t.declaredIn? a = some b) : Passes t x start b

/-- The scopes passed from a scope that is passed are passed. -/
theorem Passes.trans {a b c : NodeId} (h : t.Passes x a b) (h' : t.Passes x b c) :
    t.Passes x a c := by
  induction h' with
  | start => exact h
  | outward _ hnone hb ih => exact .outward ih hnone hb

/-- A lookup goes the same way in the first tree as in the second. -/
structure SameLookup (t t' : Tree) (x : String) (start : NodeId) : Prop where
  searched : ∀ a, t'.Passes x start a → t'.searchedClass? a = t.searchedClass? a
  search : ∀ a outside c, t'.Passes x start a → t'.searchedClass? a = some (outside, c) →
    SameSearch t t' x outside c
  outward : ∀ a, t'.Passes x start a → t'.lookupScope a x = none →
    t'.declaredIn? a = t.declaredIn? a

/-- A lookup that goes the same way does so from the next scope on. -/
theorem SameLookup.next {a b : NodeId} (h : SameLookup t t' x a)
    (hnone : t'.lookupScope a x = none) (hb : t'.declaredIn? a = some b) :
    SameLookup t t' x b := by
  have hpasses : ∀ {c}, t'.Passes x b c → t'.Passes x a c := fun hc =>
    (Passes.start.outward hnone hb).trans hc
  exact ⟨fun c hc => h.searched c (hpasses hc), fun c o d hc => h.search c o d (hpasses hc),
    fun c hc => h.outward c (hpasses hc)⟩

/-- Looking an identifier up from the inside out is a walk along scopes. -/
theorem walks_resolveFrom (t : Tree) (start : NodeId) (x : String) :
    Graph.Walks t.declaredIn? (fun a => t.lookupScope a x ≠ none)
      (fun n (_ : Unit) a => t.resolveFrom start x n (some a))
      (fun _ a => t.resolveFrom start x 1 (some a)) (fun _ _ => ()) { searchScope := start } where
  zero _ a := rfl
  stops n _ a hstop := by
    obtain ⟨⟨d, connected⟩, hd⟩ := Option.ne_none_iff_exists'.mp hstop
    simp only [resolveFrom, hd]
  ends n _ a hgo hnext := by
    rw [ne_eq, not_not] at hgo
    simp only [resolveFrom, hgo, hnext]
  goes n _ a b hgo hnext := by
    rw [ne_eq, not_not] at hgo
    simp only [resolveFrom, hgo, hnext]

/-- Only places have something to find. -/
theorem isPlace_of_lookupScope {scope : NodeId} (h : t.lookupScope scope x ≠ none) :
    (t.data scope).isPlace = true := by
  rw [lookupScope_eq] at h
  by_cases hplace : (t.data scope).isConnection = true ∨ t.isClass scope = true
  · exact hplace.elim NodeData.isPlace_of_isConnection NodeData.isPlace_of_class
  · rw [← Bool.or_eq_true] at hplace
    rw [if_neg hplace] at h
    cases hd : t.lookupLocal scope x with
    | some d => exact isPlace_of_lookupLocal hd
    | none => exact absurd (by rw [hd]; rfl) h

/-- What the innermost scope offers is what an identifier denotes. -/
theorem resolve_of_lookupScope {scope : NodeId} {a : Attribute} {connected : Bool}
    (h : t.lookupScope scope x = some (a, connected)) :
    (t.resolve scope x).declaration = some (t.effective a.declaration) := by
  have hfound : t.lookupScope scope x ≠ none := by simp [h]
  have hplace := isPlace_of_lookupScope hfound
  have hlt : scope < t.size := lt_of_data fun hpending => by
    rw [hpending] at hplace
    cases hplace
  obtain ⟨n, hn⟩ := Nat.exists_eq_add_one.mpr (Nat.zero_lt_of_lt hlt)
  simp only [resolve, hn, resolveFrom, h]

namespace Regrown

variable (h : t.Regrown t')
include h

/-- A scope offers the same where the search of its class goes the same way. -/
theorem lookupScope_eq {start : NodeId} (hway : SameLookup t t' x start) :
    t'.lookupScope start x = t.lookupScope start x := by
  rw [Tree.lookupScope_eq, Tree.lookupScope_eq, ← hway.searched start .start,
    h.offers.read _ NodeData.isConnection_offered, h.offers.isClass, h.offers.lookupLocal]
  cases he : t'.searchedClass? start with
  | none => rfl
  | some e =>
    simp only [Option.bind_some]
    rw [h.findAttribute_eq (hway.search start e.1 e.2 .start he)]

/-- Following scopes outwards needs no more steps than the first tree has places. -/
theorem resolveFrom_eq {m n : Nat} (hm : t.places.length ≤ m) (hn : t.places.length ≤ n)
    (start scope : NodeId) :
    t'.resolveFrom start x m (some scope) = t'.resolveFrom start x n (some scope) := by
  refine (t'.walks_resolveFrom start x).eq_of_length_le (x := ()) (fun a hstop => ?_)
    (fun a b hnext => ?_) hm hn
  · exact h.mem_places (isPlace_of_lookupScope hstop)
  · exact h.mem_places (NodeData.isPlace_of_declaredIn hnext)

/-- **Same way, same meaning.** An identifier means the same in two trees if its lookup in the
second goes the same way in the first. -/
theorem resolve_eq {start : NodeId} (hway : SameLookup t t' x start) :
    t'.resolve start x = t.resolve start x := by
  have hsteps : ∀ n from_ a, SameLookup t t' x a →
      t'.resolveFrom from_ x n (some a) = t.resolveFrom from_ x n (some a) := by
    intro n from_
    induction n with
    | zero => exact fun _ _ => rfl
    | succ n ih =>
      intro a hway
      have hscope := h.lookupScope_eq hway
      cases hfound : t'.lookupScope a x with
      | some found =>
        rw [hfound] at hscope
        simp only [resolveFrom, hfound, ← hscope, h.offers.effective]
      | none =>
        have hout := hway.outward a .start hfound
        rw [hfound] at hscope
        simp only [resolveFrom, hfound, ← hscope, ← hout]
        cases hb : t'.declaredIn? a with
        | none => cases n <;> rfl
        | some b => exact ih b (hway.next hfound hb)
  rw [resolve, resolve, ← hsteps t.size start start hway]
  exact h.resolveFrom_eq (Nat.le_trans t.length_places_le h.size_le) t.length_places_le _ _

end Regrown

end Simula.Tree
