import Simula.Proofs.Check.Access

/-!
# Which protected specifications refuse a remote access

The search for an attribute may pass over classes: where an identifier is hidden, it goes on behind
the class that owns the protected specification. The check of the access does not follow that way.
It takes every class of the prefix chain up to the one that declares the attribute, and refuses the
access if one of them protects the identifier.

A protecting class into which the search looks concerns the attribute that is found. So where the
search has not passed behind a hidden specification, an access is refused only for the attribute
itself. Otherwise a class that has been passed over refuses it as well, although what this class
protects may be another attribute.
-/

namespace Simula

namespace Tree

variable {t : Tree} {x : String} {c k : NodeId} {a : Attribute}

/-! ## What a search finds from the classes on its way -/

/-- Having passed a hidden specification before does not change what a search finds. -/
theorem searchAttribute_behind (n : Nat) (outside behind : Bool) (c : Option NodeId) :
    t.searchAttribute x n outside behind c = (t.searchAttribute x n outside false c).map
      fun a => { a with behind := behind || a.behind } := by
  induction n generalizing outside behind c with
  | zero => simp
  | succ n ih =>
    cases c with
    | none => rfl
    | some c =>
      cases hq : t.goesOnBehind? x outside c with
      | none =>
        rw [searchAttribute_of_stops hq, searchAttribute_of_stops hq, Option.map_map]
        simp [Function.comp_def]
      | some q =>
        rw [searchAttribute_of_goesOn hq, searchAttribute_of_goesOn hq, ih, ih true (_ || _),
          Option.map_map]
        simp [Function.comp_def, Bool.or_assoc]

/-- A further step takes nothing away. -/
theorem searchAttribute_succ {n : Nat} {outside behind : Bool} {c : Option NodeId}
    (h : t.searchAttribute x n outside behind c = some a) :
    t.searchAttribute x (n + 1) outside behind c = some a := by
  induction n generalizing outside behind c with
  | zero => simp at h
  | succ n ih =>
    cases c with
    | none => simp at h
    | some c =>
      cases hq : t.goesOnBehind? x outside c with
      | none =>
        rw [searchAttribute_of_stops hq] at h ⊢
        exact h
      | some q =>
        rw [searchAttribute_of_goesOn hq] at h ⊢
        exact ih h

/-- From a class on its way a search finds the same attribute. -/
theorem Searches.findAttribute {outside o : Bool} (h : t.Searches x outside c o k)
    (ha : t.findAttribute c x outside = some a) :
    ∃ behind, t.findAttribute k x o = some { a with behind } := by
  induction h with
  | start => exact ⟨a.behind, ha⟩
  | @next o d q p _ hq hp ih =>
    obtain ⟨behind, hd⟩ := ih
    rw [Tree.findAttribute] at hd ⊢
    cases hsize : t.size with
    | zero => simp [hsize] at hd
    | succ n =>
      rw [hsize, searchAttribute_of_goesOn hq, hp] at hd
      have hfound := searchAttribute_succ hd
      rw [searchAttribute_behind] at hfound
      obtain ⟨b, hb, hab⟩ := Option.map_eq_some_iff.mp hfound
      refine ⟨b.behind, hb.trans ?_⟩
      cases b
      cases hab
      rfl

/-- The search for an attribute from outside looks into a class: it comes there, and the class does
not hide the identifier. -/
structure LooksInto (t : Tree) (x : String) (c k : NodeId) : Prop where
  comes : t.Searches x true c true k
  unhidden : t.hiddenSpec? k x = none

/-- A class that does not hide an identifier offers it to accesses from outside as it does
inside. -/
theorem findAttribute_of_unhidden (h : t.hiddenSpec? k x = none) :
    t.findAttribute k x false = t.findAttribute k x true := by
  rw [findAttribute, findAttribute]
  cases t.size with
  | zero => simp
  | succ n => simp [searchAttribute, h]

/-- What an access from outside finds is found from inside a class that the search looks into. -/
theorem LooksInto.findAttribute (h : t.LooksInto x c k)
    (ha : t.findAttribute c x true = some a) :
    ∃ behind, t.findAttribute k x false = some { a with behind } := by
  rw [findAttribute_of_unhidden h.unhidden]
  exact h.comes.findAttribute ha

/-- A search that finds an attribute without passing a hidden specification finds it in the class,
or in its prefix in the same manner. -/
theorem searchAttribute_cases {n : Nat}
    (ha : t.searchAttribute x (n + 1) true false (some c) = some a) (hbehind : a.behind = false) :
    t.hiddenSpec? c x = none ∧ (c = a.declarer ∨ t.goesOnBehind? x true c = some c ∧
      ∃ p, t.prefixClass? c = some p ∧ t.searchAttribute x n true false (some p) = some a) := by
  have hunhidden : t.hiddenSpec? c x = none := by
    cases hhidden : t.hiddenSpec? c x with
    | none => rfl
    | some hidden =>
      rw [searchAttribute, if_pos rfl, hhidden] at ha
      dsimp only at ha
      rw [searchAttribute_behind] at ha
      obtain ⟨b, -, rfl⟩ := Option.map_eq_some_iff.mp ha
      cases hbehind
  refine ⟨hunhidden, ?_⟩
  rw [searchAttribute, if_pos rfl, hunhidden] at ha
  dsimp only at ha
  cases hlocal : t.lookupLocal c x with
  | some declaration =>
    rw [hlocal] at ha
    cases ha
    exact .inl rfl
  | none =>
    rw [hlocal] at ha
    cases hp : t.prefixClass? c with
    | none => simp [hp] at ha
    | some p =>
      rw [hp] at ha
      exact .inr ⟨by simp [goesOnBehind?, hunhidden, hlocal], p, rfl, ha⟩

/-- Such a search has looked into all classes of the prefix chain up to the one where it ends. -/
theorem looksInto_of_mem_upTo {n m : Nat} {seen : List NodeId}
    (ha : t.searchAttribute x n true false (some c) = some a) (hbehind : a.behind = false)
    (hk : k ∈ upTo a.declarer (c :: t.prefixesAbove m seen c)) : t.LooksInto x c k := by
  induction n generalizing c m seen with
  | zero => simp at ha
  | succ n ih =>
    obtain ⟨hunhidden, hrest⟩ := searchAttribute_cases ha hbehind
    by_cases hkc : k = c
    · subst hkc
      exact ⟨.start, hunhidden⟩
    rw [upTo] at hk
    split at hk
    · exact absurd (List.mem_singleton.mp hk) hkc
    · next hne =>
      obtain ⟨hgoes, p, hp, ha⟩ := hrest.resolve_left hne
      have hk := (List.mem_cons.mp hk).resolve_left hkc
      -- The chain goes on to the prefix, unless it has come there before.
      cases m with
      | zero => cases hk
      | succ m =>
        rw [prefixesAbove, hp] at hk
        dsimp only at hk
        split at hk
        · cases hk
        · obtain ⟨hcomes, hunhidden⟩ := ih ha hk
          exact ⟨(Searches.start.next hgoes hp).trans hcomes, hunhidden⟩

end Tree

/-! ## Refused accesses -/

/-- A class has a protected specification of an identifier that concerns the given declaration. -/
structure Tree.Protects (t : Tree) (x : String) (k d : NodeId) : Prop where
  specified : (t.protectedSpec? k x).isSome = true
  concerns : (t.findAttribute k x false).map (t.effective ·.declaration) = some d

instance (t : Tree) (x : String) (k d : NodeId) : Decidable (t.Protects x k d) :=
  decidable_of_iff ((t.protectedSpec? k x).isSome = true ∧
      (t.findAttribute k x false).map (t.effective ·.declaration) = some d)
    ⟨fun h => ⟨h.1, h.2⟩, fun h => ⟨h.specified, h.concerns⟩⟩

namespace CheckM

variable {s : CheckState} {scope c declarer d : NodeId} {n x : String} {line : Nat}

/-- **Who refuses a remote access.** Let an identifier denote a declaration as an attribute of a
class. A remote access to it has the type of the declaration, and it is refused exactly if it stands
outside all subclasses of the declaring class and some class of the prefix chain up to that one
protects the identifier. Such a class concerns the declaration itself, unless the search has passed
behind a hidden specification and has not looked into the class. So without a hidden specification
on its way, an access is refused only by classes that protect the declaration which is found. -/
theorem remoteType_refused_iff (hclass : s.tree.lookupClass scope n = some c)
    (hd : (s.tree.resolveRemote scope c x).declaration = some d)
    (hdeclarer : (s.tree.resolveRemote scope c x).declaredIn = some declarer) :
    ∃ refused : Bool,
      remoteType (.ref (some n)) x scope line s = .ok (s.tree.data d).declaredType
        (if refused then s.report line (.protectedAccess x) else s) ∧
      (refused = true ↔ insideSubclass s.tree scope declarer = false ∧
        ∃ k ∈ Tree.upTo declarer (s.tree.prefixChain c), (s.tree.protectedSpec? k x).isSome) ∧
      (∀ k ∈ Tree.upTo declarer (s.tree.prefixChain c), (s.tree.protectedSpec? k x).isSome →
        s.tree.Protects x k d ∨
          (s.tree.resolveRemote scope c x).behind = true ∧ ¬ s.tree.LooksInto x c k) ∧
      ((s.tree.resolveRemote scope c x).behind = false →
        (refused = true ↔ insideSubclass s.tree scope declarer = false ∧
          ∃ k ∈ Tree.upTo declarer (s.tree.prefixChain c), s.tree.Protects x k d)) := by
  cases hattr : s.tree.findAttribute c x true with
  | none => simp [Tree.resolveRemote, hattr] at hd
  | some a =>
    simp only [Tree.resolveRemote, hattr, Option.some.injEq] at hd hdeclarer ⊢
    subst hdeclarer
    have hrefused : accessRefused s.tree scope c a x = true ↔
        insideSubclass s.tree scope a.declarer = false ∧
        ∃ k ∈ Tree.upTo a.declarer (s.tree.prefixChain c), (s.tree.protectedSpec? k x).isSome := by
      rw [accessRefused, Tree.isProtected, Bool.and_eq_true, List.any_eq_true, and_comm,
        Bool.not_eq_true']
    have hlooked : ∀ k, s.tree.LooksInto x c k →
        (s.tree.findAttribute k x false).map (s.tree.effective ·.declaration) = some d := by
      intro k hk
      obtain ⟨behind, hfound⟩ := hk.findAttribute hattr
      rw [hfound, ← hd]
      rfl
    have hvisible : a.behind = false → ∀ k ∈ Tree.upTo a.declarer (s.tree.prefixChain c),
        s.tree.LooksInto x c k :=
      fun hbehind k hk => Tree.looksInto_of_mem_upTo hattr hbehind hk
    refine ⟨accessRefused s.tree scope c a x, ?_, hrefused, fun k hk hspec => ?_, fun hbehind => ?_⟩
    · rw [remoteType_of_findAttribute hclass hattr, hd]
    · by_cases hlooks : s.tree.LooksInto x c k
      · exact .inl ⟨hspec, hlooked k hlooks⟩
      · refine .inr ⟨?_, hlooks⟩
        by_contra hbehind
        exact hlooks (hvisible (by simpa using hbehind) k hk)
    · rw [hrefused]
      refine and_congr_right fun _ => ⟨?_, ?_⟩
      · rintro ⟨k, hk, hspec⟩
        exact ⟨k, hk, hspec, hlooked k (hvisible hbehind k hk)⟩
      · rintro ⟨k, hk, hprotects⟩
        exact ⟨k, hk, hprotects.specified⟩

/-- A block with a class `A` that has an integer `X`. Its subclass `B` has a text `X` of its own and
protects it, and the subclass `C` of `B` hides that one again. -/
def maskedProtection : CheckState where
  tree := { nodes := #[
    ⟨1, .declaration "MAIN" none (.block
      { declarations := ⟨#[("A", 1), ("B", 3), ("C", 6), ("O", 8)]⟩ })⟩,
    ⟨2, .declaration "A" (some 0) (.classDeclaration
      { body := { declarations := ⟨#[("X", 2)]⟩ } })⟩,
    ⟨2, .declaration "X" (some 1) (.simpleVariable .integer none)⟩,
    ⟨3, .declaration "B" (some 0) (.classDeclaration
      { prefixClass := some 1, guarded := #[5], body := { declarations := ⟨#[("X", 4)]⟩ } })⟩,
    ⟨3, .declaration "X" (some 3) (.simpleVariable .text none)⟩,
    ⟨3, .declaration "X" (some 3) (.protectedSpec (some 7))⟩,
    ⟨4, .declaration "C" (some 0) (.classDeclaration
      { prefixClass := some 3, hidden := #[7] })⟩,
    ⟨4, .declaration "X" (some 6) (.hiddenSpec (some 5))⟩,
    ⟨5, .declaration "O" (some 0) (.simpleVariable (.ref (some "C")) none)⟩] }

/-- Through a reference to `C` the integer of `A` is found, which no class protects. The access is
refused all the same, by the protected specification of the text in `B`. -/
theorem remoteType_refused_maskedProtection :
    (maskedProtection.tree.resolveRemote 0 6 "X").declaration = some 2 ∧
    (∀ k ∈ Tree.upTo 1 (maskedProtection.tree.prefixChain 6),
      ¬ maskedProtection.tree.Protects "X" k 2) ∧
    maskedProtection.tree.Protects "X" 3 4 ∧
    remoteType (.ref (some "C")) "X" 0 6 maskedProtection =
      .ok .integer (maskedProtection.report 6 (.protectedAccess "X")) := by
  have hclass : maskedProtection.tree.lookupClass 0 "C" = some 6 := by decide +kernel
  have hd : (maskedProtection.tree.resolveRemote 0 6 "X").declaration = some 2 := by decide +kernel
  obtain ⟨refused, hrun, hrefused, -⟩ := @remoteType_refused_iff maskedProtection 0 6 1 2 "C" "X" 6
    hclass hd (by decide +kernel)
  have htrue : refused = true :=
    hrefused.mpr ⟨by decide +kernel, 3, by decide +kernel, by decide +kernel⟩
  rw [htrue, if_pos rfl] at hrun
  exact ⟨hd, by decide +kernel, by decide +kernel, hrun⟩

end CheckM

end Simula
