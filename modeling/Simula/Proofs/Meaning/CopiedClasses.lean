import Simula.Proofs.Meaning.Pairing

/-!
# Searching the copies of classes

Classes are copied from one tree into another, but for some that are left out together with their
prefix classes. A search for a protected specification that comes to a class that is left out never
comes back to one that is not. So what it finds with a class that has been copied is found in the
same way, and as a copy, from the copy of the class where it starts.
-/

namespace Simula.Tree

variable {t u : Tree} {x : String} {copy : NodeId → NodeId} {kept lost : NodeId → Prop}

/-- The prefix class of a lost class is lost. -/
def PrefixClosed (t : Tree) (lost : NodeId → Prop) : Prop :=
  ∀ {c p}, lost c → t.prefixClass? c = some p → t.isClass p = true → lost p

/-- The classes that are kept are copied, and the prefix class of a class that is kept is kept or
lost. -/
structure CopiesClasses (t u : Tree) (copy : NodeId → NodeId) (kept lost : NodeId → Prop) :
    Prop where
  hidden : ∀ {c}, kept c → ∀ x,
    (u.hiddenSpec? (copy c) x).isSome = (t.hiddenSpec? c x).isSome
  guarded : ∀ {c}, kept c → ∀ x, u.protectedSpec? (copy c) x = (t.protectedSpec? c x).map copy
  declarer : ∀ {c x spec}, kept c → t.protectedSpec? c x = some spec →
    u.declaredIn? (copy spec) = some (copy c)
  prefixClass : ∀ {c p}, kept c → t.prefixClass? c = some p → t.isClass p = true →
    lost p ∨ kept p ∧ u.prefixClass? (copy c) = some (copy p)

/-- A search finds nothing above what is no class. -/
theorem isClass_of_protectedAbove {n : Nat} {c spec : NodeId}
    (h : t.protectedAbove x n (some c) = some spec) : t.isClass c = true := by
  cases n with
  | zero => cases h
  | succ n =>
    rw [isClass]
    cases hclass : t.class? c with
    | some parts => rfl
    | none =>
      have hhidden : t.hiddenSpec? c x = none := by simp [hiddenSpec?, hclass]
      have hown : t.protectedSpec? c x = none := by simp [protectedSpec?, hclass]
      have hprefix : t.prefixClass? c = none := by simp [prefixClass?, hclass]
      simp [protectedAbove, hhidden, hown, hprefix] at h

/-- A search that has found something has started somewhere. -/
theorem exists_start_of_protectedAbove {n : Nat} {start : Option NodeId} {spec : NodeId}
    (h : t.protectedAbove x n start = some spec) :
    ∃ c, start = some c ∧ t.isClass c = true := by
  cases start with
  | none => simp at h
  | some c => exact ⟨c, rfl, isClass_of_protectedAbove h⟩

section

variable (hlisted : t.ListedInScope)
include hlisted

/-- What is found from a lost class on is listed by a lost class. -/
theorem PrefixClosed.exists_declarer (hlost : t.PrefixClosed lost) {n : Nat} {c spec : NodeId}
    (hc : lost c) (h : t.protectedAbove x n (some c) = some spec) :
    ∃ d, lost d ∧ t.protectedSpec? d x = some spec := by
  induction n generalizing c spec with
  | zero => cases h
  | succ n ih =>
    -- One step up from a lost class leads to a lost class.
    have habove : ∀ {d spec}, lost d → t.protectedAbove x n (t.prefixClass? d) = some spec →
        ∃ d, lost d ∧ t.protectedSpec? d x = some spec := by
      intro d spec hd h
      obtain ⟨p, hp, hclass⟩ := exists_start_of_protectedAbove h
      exact ih (hlost hd hp hclass) (hp ▸ h)
    have hfirst : ∀ {spec}, (t.protectedSpec? c x <|>
        t.protectedAbove x n (t.prefixClass? c)) = some spec →
        ∃ d, lost d ∧ t.protectedSpec? d x = some spec := by
      intro spec h
      cases hown : t.protectedSpec? c x with
      | some own =>
        rw [hown] at h
        cases h
        exact ⟨c, hc, hown⟩
      | none =>
        rw [hown] at h
        exact habove hc h
    rw [protectedAbove] at h
    split at h
    · split at h
      · cases h
      · next first hfound =>
        obtain ⟨d, hd, hspec⟩ := hfirst hfound
        rw [hlisted.declaredIn_protected hspec] at h
        exact habove hd h
    · split at h
      · next own hown =>
        cases h
        exact ⟨c, hc, hown⟩
      · exact habove hc h

/-- What a search finds is listed by a class. -/
theorem ListedInScope.exists_declarer {n : Nat} {start : Option NodeId} {spec : NodeId}
    (h : t.protectedAbove x n start = some spec) : ∃ d, t.protectedSpec? d x = some spec := by
  obtain ⟨c, rfl, -⟩ := exists_start_of_protectedAbove h
  have hall : t.PrefixClosed fun _ => True := fun _ _ _ => trivial
  obtain ⟨d, -, hd⟩ := hall.exists_declarer hlisted trivial h
  exact ⟨d, hd⟩

/-- The protected specification that belongs to a hidden one is listed by a class. -/
theorem ListedInScope.exists_declarer_of_findProtected {c spec : NodeId}
    (h : t.findProtected c x = some spec) : ∃ d, t.protectedSpec? d x = some spec := by
  rw [Tree.findProtected] at h
  cases hown : t.protectedSpec? c x with
  | some own =>
    rw [hown] at h
    cases h
    exact ⟨c, hown⟩
  | none =>
    rw [hown] at h
    exact hlisted.exists_declarer h

/-- A specification is listed by one class. -/
theorem ListedInScope.declarer_unique {c d spec : NodeId} (hc : t.protectedSpec? c x = some spec)
    (hd : t.protectedSpec? d x = some spec) : c = d :=
  Option.some.inj ((hlisted.declaredIn_protected hc).symm.trans (hlisted.declaredIn_protected hd))

variable (hlost : t.PrefixClosed lost)
include hlost

/-- A search from a lost class does not end with one that is not. -/
theorem PrefixClosed.not_lost {n : Nat} {c d spec : NodeId}
    (h : t.protectedAbove x n (some c) = some spec)
    (hd : t.protectedSpec? d x = some spec) (hnot : ¬ lost d) : ¬ lost c := by
  intro hc
  obtain ⟨e, he, hspec⟩ := hlost.exists_declarer hlisted hc h
  exact hnot (hlisted.declarer_unique hspec hd ▸ he)

/-- Nor does a search above it. -/
theorem PrefixClosed.not_lost_of_above {n : Nat} {c d spec : NodeId}
    (h : t.protectedAbove x n (t.prefixClass? c) = some spec)
    (hd : t.protectedSpec? d x = some spec) (hnot : ¬ lost d) : ¬ lost c := by
  intro hc
  obtain ⟨p, hp, hclass⟩ := exists_start_of_protectedAbove h
  exact hlost.not_lost hlisted (hp ▸ h) hd hnot (hlost hc hp hclass)

variable (hcopies : t.CopiesClasses u copy kept lost)
include hcopies

/-- A search above a class that is kept, which ends with one that is not lost, goes on from a class
that is kept. -/
theorem CopiesClasses.exists_kept_above {n : Nat} {c d spec : NodeId} (hc : kept c)
    (h : t.protectedAbove x n (t.prefixClass? c) = some spec)
    (hd : t.protectedSpec? d x = some spec) (hnot : ¬ lost d) :
    ∃ p, kept p ∧ u.prefixClass? (copy c) = some (copy p) ∧
      t.protectedAbove x n (some p) = some spec := by
  obtain ⟨p, hp, hclass⟩ := exists_start_of_protectedAbove h
  rw [hp] at h
  obtain ⟨hkept, hlink⟩ := (hcopies.prefixClass hc hp hclass).resolve_left
    (hlost.not_lost hlisted h hd hnot)
  exact ⟨p, hkept, hlink, h⟩

/-- What is found from a class that is kept, with a class that is not lost, is found as a copy from
the copy, and belongs to a class that is kept. -/
theorem CopiesClasses.protectedAbove {n : Nat} {c spec d : NodeId} (hc : kept c)
    (h : t.protectedAbove x n (some c) = some spec) (hd : t.protectedSpec? d x = some spec)
    (hnot : ¬ lost d) :
    u.protectedAbove x n (some (copy c)) = some (copy spec) ∧ kept d := by
  induction n generalizing c spec d with
  | zero => cases h
  | succ n ih =>
    have habove : ∀ {c spec d}, kept c → t.protectedAbove x n (t.prefixClass? c) = some spec →
        t.protectedSpec? d x = some spec → ¬ lost d →
        u.protectedAbove x n (u.prefixClass? (copy c)) = some (copy spec) ∧ kept d := by
      intro c spec d hc h hd hnot
      obtain ⟨p, hkept, hlink, h⟩ := hcopies.exists_kept_above hlisted hlost hc h hd hnot
      rw [hlink]
      exact ih hkept h hd hnot
    rw [Tree.protectedAbove] at h ⊢
    rw [hcopies.hidden hc, hcopies.guarded hc]
    cases hown : t.protectedSpec? c x with
    | some own =>
      rw [hown] at h
      split at h
      · next hhidden =>
        -- The search goes on behind the class itself.
        rw [if_pos hhidden]
        have hbehind : t.protectedAbove x n (t.prefixClass? c) = some spec := by
          simpa [hlisted.declaredIn_protected hown] using h
        simpa [hcopies.declarer hc hown] using habove hc hbehind hd hnot
      · next hhidden =>
        rw [if_neg hhidden]
        cases h
        obtain rfl := hlisted.declarer_unique hown hd
        exact ⟨rfl, hc⟩
    | none =>
      rw [hown] at h
      split at h
      · next hhidden =>
        rw [if_pos hhidden]
        cases hfirst : t.protectedAbove x n (t.prefixClass? c) with
        | none => simp [hfirst] at h
        | some first =>
          -- The search goes on behind the class that closes the pair.
          obtain ⟨e, he⟩ := hlisted.exists_declarer hfirst
          have hbehind : t.protectedAbove x n (t.prefixClass? e) = some spec := by
            simpa [hfirst, hlisted.declaredIn_protected he] using h
          have hkept := hlost.not_lost_of_above hlisted hbehind hd hnot
          obtain ⟨hfirst', hkept⟩ := habove hc hfirst he hkept
          simpa [hfirst', hcopies.declarer hkept he] using habove hkept hbehind hd hnot
      · next hhidden =>
        rw [if_neg hhidden]
        exact habove hc h hd hnot

/-- The protected specification that belongs to a class that is kept, and is listed by one that is
not lost, belongs as a copy to the copy. -/
theorem CopiesClasses.findProtected {c spec d : NodeId} (hc : kept c)
    (h : t.findProtected c x = some spec) (hd : t.protectedSpec? d x = some spec)
    (hnot : ¬ lost d) : u.findProtected (copy c) x = some (copy spec) := by
  rw [Tree.findProtected] at h ⊢
  rw [hcopies.guarded hc]
  cases hown : t.protectedSpec? c x with
  | some own =>
    rw [hown] at h
    cases h
    rfl
  | none =>
    rw [hown] at h
    replace h : t.protectedAbove x t.size (t.prefixClass? c) = some spec := h
    obtain ⟨p, hkept, hlink, h⟩ := hcopies.exists_kept_above hlisted hlost hc h hd hnot
    have hfound := (hcopies.protectedAbove hlisted hlost hkept h hd hnot).1
    -- The steps that the search took in the first tree may be more or less than the second allows.
    have hmore : ∀ k, u.protectedAbove x (t.size + k) (some (copy p)) = some (copy spec) := by
      intro k
      induction k with
      | zero => exact hfound
      | succ k ih => exact protectedAbove_succ ih
    have hsame := protectedAbove_eq (t := u) (x := x) (m := t.size + u.size) (n := u.size)
      (Nat.le_trans u.length_places_le (Nat.le_add_left ..)) u.length_places_le (some (copy p))
    simp [hlink, ← hsame, hmore]

end

end Simula.Tree
