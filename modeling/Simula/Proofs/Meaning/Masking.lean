import Simula.Proofs.Meaning.Pairing

/-!
# Masked levels

What an attribute search finds can be told without following it. The classes of a prefix chain are
its levels. A level that hides an identifier masks itself and all levels up to the class that owns
the protected specification for it; a level that is masked does not hide anything. The search finds
the identifier at the first level that offers it and is not masked.

The search comes to a level only when the masks of all hiding levels below it have ended. One step
goes on to the next level, or behind the mask that begins here.
-/

namespace Simula.Tree

section

variable (t : Tree) (x : String) (remote : Bool) (chain : List NodeId)

/-- The last level that is masked if a level hides the identifier: that of the class which owns the
protected specification for it, or else the level itself. -/
def maskEnd (i : Nat) : Nat :=
  match (chain[i]?.bind (t.findProtected · x)).bind t.declaredIn? with
  | some d => chain.idxOf d
  | none => i

/-- The class at the level hides the identifier, seen from outside if it is the first one, and no
lower hiding level masks it. -/
def HidingLevel (i : Nat) : Prop :=
  (chain[i]?.bind (t.hiddenSpec? · x)).isSome = true ∧ (0 < i ∨ remote = true) ∧
    ∀ j, (_ : j < i) → HidingLevel j → t.maskEnd x chain j < i
termination_by i

/-- The level belongs to the mask of a hiding level. -/
def Masked (i : Nat) : Prop :=
  ∃ j ≤ i, t.HidingLevel x remote chain j ∧ i ≤ t.maskEnd x chain j

/-- The level is the first that is not masked and offers the identifier. The attribute is what it
offers, and lies behind a hidden specification if there is a hiding level below. -/
structure FoundAt (a : Attribute) (i : Nat) : Prop where
  declarer : chain[i]? = some a.declarer
  declaration : t.lookupLocal a.declarer x = some a.declaration
  visible : ¬ t.Masked x remote chain i
  first : ∀ j < i, ∀ d, chain[j]? = some d → ¬ t.Masked x remote chain j → t.lookupLocal d x = none
  behind : a.behind = true ↔ ∃ j < i, t.HidingLevel x remote chain j

/-- What the masks say that a search finds: an attribute at some level, or nothing at any. -/
def Finds : Option Attribute → Prop
  | some a => ∃ i, t.FoundAt x remote chain a i
  | none => ∀ i d, chain[i]? = some d → ¬ t.Masked x remote chain i → t.lookupLocal d x = none

/-- What a search has passed when it comes to a level. -/
structure ArrivesAt (behind : Bool) (i : Nat) : Prop where
  ended : ∀ j < i, t.HidingLevel x remote chain j → t.maskEnd x chain j < i
  behind : behind = true ↔ ∃ j < i, t.HidingLevel x remote chain j
  nothing : ∀ j < i, ∀ d, chain[j]? = some d → ¬ t.Masked x remote chain j →
    t.lookupLocal d x = none

end

variable {t : Tree} {x : String} {remote : Bool} {chain : List NodeId}

/-- There is one attribute at most that is found. -/
theorem FoundAt.unique {a b : Attribute} {i j : Nat} (ha : t.FoundAt x remote chain a i)
    (hb : t.FoundAt x remote chain b j) : a = b := by
  have hle : ∀ {a b : Attribute} {i j : Nat}, t.FoundAt x remote chain a i →
      t.FoundAt x remote chain b j → i ≤ j := by
    intro a b i j ha hb
    by_contra hlt
    have hnone := ha.first j (Nat.not_le.mp hlt) _ hb.declarer hb.visible
    rw [hb.declaration] at hnone
    cases hnone
  obtain rfl := Nat.le_antisymm (hle ha hb) (hle hb ha)
  have hdeclarer : a.declarer = b.declarer :=
    Option.some.inj (ha.declarer.symm.trans hb.declarer)
  have hdeclaration : a.declaration = b.declaration :=
    Option.some.inj (ha.declaration.symm.trans (hdeclarer ▸ hb.declaration))
  have hbehind : a.behind = b.behind := Bool.eq_iff_iff.mpr (ha.behind.trans hb.behind.symm)
  cases a
  cases b
  simp_all

/-- A search has one outcome at most. -/
theorem Finds.unique {r r' : Option Attribute} (h : t.Finds x remote chain r)
    (h' : t.Finds x remote chain r') : r = r' := by
  have hne : ∀ {a}, t.Finds x remote chain none → ¬ t.Finds x remote chain (some a) := by
    rintro a hnone ⟨i, hfound⟩
    have hlocal := hnone i _ hfound.declarer hfound.visible
    rw [hfound.declaration] at hlocal
    cases hlocal
  cases r with
  | none =>
    cases r' with
    | none => rfl
    | some b => exact absurd h' (hne h)
  | some a =>
    cases r' with
    | none => exact absurd h (hne h')
    | some b =>
      obtain ⟨i, hi⟩ := h
      obtain ⟨j, hj⟩ := h'
      rw [hi.unique hj]

/-! ## One step -/

namespace ArrivesAt

variable {behind : Bool} {i : Nat}

/-- A search starts at the first class. -/
theorem start : t.ArrivesAt x remote chain false 0 where
  ended j hj := absurd hj (Nat.not_lt_zero j)
  behind := by simp
  nothing j hj := absurd hj (Nat.not_lt_zero j)

section

variable (h : t.ArrivesAt x remote chain behind i)
include h

/-- Where a search arrives, a hidden specification counts unless it is that of the first class and
is seen from inside. -/
theorem hidingLevel_iff : t.HidingLevel x remote chain i ↔
    (chain[i]?.bind (t.hiddenSpec? · x)).isSome = true ∧ (0 < i ∨ remote = true) := by
  rw [HidingLevel]
  exact ⟨fun hlevel => ⟨hlevel.1, hlevel.2.1⟩, fun hlevel => ⟨hlevel.1, hlevel.2, h.ended⟩⟩

/-- Where no hidden specification counts, the class is not masked. -/
theorem not_masked (hlevel : ¬ t.HidingLevel x remote chain i) : ¬ t.Masked x remote chain i := by
  rintro ⟨j, hj, hhiding, hmask⟩
  rcases Nat.eq_or_lt_of_le hj with rfl | hlt
  · exact hlevel hhiding
  · exact Nat.not_le.mpr (h.ended j hlt hhiding) hmask

/-- From a hiding level the search goes on behind the mask. -/
theorem hides (hlevel : t.HidingLevel x remote chain i) (hmask : i ≤ t.maskEnd x chain i) :
    t.ArrivesAt x remote chain true (t.maskEnd x chain i + 1) where
  ended j hj hhiding := by
    rcases Nat.lt_trichotomy j i with hlt | rfl | hgt
    · have hended := h.ended j hlt hhiding
      omega
    · exact Nat.lt_succ_self _
    · -- A level inside the mask does not hide.
      rw [HidingLevel] at hhiding
      have hended := hhiding.2.2 i hgt hlevel
      omega
  behind := ⟨fun _ => ⟨i, by omega, hlevel⟩, fun _ => rfl⟩
  nothing j hj d hd hvisible := by
    rcases Nat.lt_or_ge j i with hlt | hge
    · exact h.nothing j hlt d hd hvisible
    · exact absurd ⟨i, hge, hlevel, Nat.le_of_lt_succ hj⟩ hvisible

/-- From a level that neither hides nor offers the identifier the search goes on to the next. -/
theorem passes {c : NodeId} (hc : chain[i]? = some c) (hlevel : ¬ t.HidingLevel x remote chain i)
    (hnone : t.lookupLocal c x = none) : t.ArrivesAt x remote chain behind (i + 1) where
  ended j hj hhiding := by
    rcases Nat.eq_or_lt_of_le (Nat.le_of_lt_succ hj) with rfl | hlt
    · exact absurd hhiding hlevel
    · exact Nat.lt_succ_of_lt (h.ended j hlt hhiding)
  behind := by
    refine h.behind.trans ⟨fun ⟨j, hj, hhiding⟩ => ⟨j, Nat.lt_succ_of_lt hj, hhiding⟩, ?_⟩
    rintro ⟨j, hj, hhiding⟩
    rcases Nat.eq_or_lt_of_le (Nat.le_of_lt_succ hj) with rfl | hlt
    · exact absurd hhiding hlevel
    · exact ⟨j, hlt, hhiding⟩
  nothing j hj d hd hvisible := by
    rcases Nat.eq_or_lt_of_le (Nat.le_of_lt_succ hj) with rfl | hlt
    · rw [hc] at hd
      exact Option.some.inj hd ▸ hnone
    · exact h.nothing j hlt d hd hvisible

/-- Only hiding levels have a hidden specification that counts. -/
theorem hiddenSpec?_eq_none {outside : Bool} {c : NodeId} (hc : chain[i]? = some c)
    (hlevel : ¬ t.HidingLevel x remote chain i)
    (houtside : outside = true ↔ 0 < i ∨ remote = true) :
    (if outside then t.hiddenSpec? c x else none) = none := by
  cases hout : outside with
  | false => rfl
  | true =>
    cases hhidden : t.hiddenSpec? c x with
    | none => rfl
    | some hidden =>
      have hsome : (chain[i]?.bind (t.hiddenSpec? · x)).isSome = true := by
        rw [hc, Option.bind_some, hhidden]
        rfl
      exact absurd (h.hidingLevel_iff.mpr ⟨hsome, houtside.mp hout⟩) hlevel

/-- Nothing is found if nothing is offered from the level on. -/
theorem finds_none (hrest : ∀ j, i ≤ j → ∀ d, chain[j]? = some d → t.lookupLocal d x = none) :
    t.Finds x remote chain none := by
  intro j d hd hvisible
  rcases Nat.lt_or_ge j i with hlt | hge
  · exact h.nothing j hlt d hd hvisible
  · exact hrest j hge d hd

/-- At a level that offers the identifier and does not hide it the search ends. -/
theorem foundAt {c declaration : NodeId} (hc : chain[i]? = some c)
    (hlevel : ¬ t.HidingLevel x remote chain i)
    (hlocal : t.lookupLocal c x = some declaration) :
    t.FoundAt x remote chain ⟨declaration, c, behind⟩ i where
  declarer := hc
  declaration := hlocal
  visible := h.not_masked hlevel
  first := h.nothing
  behind := h.behind

end

end ArrivesAt

/-! ## Recorded pairs -/

/-- The protected specification that a hidden one records is the one that belongs to it. -/
def PairsRecorded (t : Tree) : Prop :=
  ∀ c parts, t.class? c = some parts → ∀ s ∈ parts.hidden, ∀ i ∈ t.identifier? s,
    ∀ p ∈ t.protectedBy? s, t.findProtected c i = some p

instance (t : Tree) : Decidable t.PairsRecorded :=
  decidable_of_iff (∀ c < t.size, ∀ parts ∈ t.class? c, ∀ s ∈ parts.hidden.toList,
      ∀ i ∈ t.identifier? s, ∀ p ∈ t.protectedBy? s, t.findProtected c i = some p) <| by
    refine ⟨fun h c parts hparts s hs => h c (lt_of_class?_eq_some hparts) parts hparts s ?_,
      fun h c _ parts hparts s hs => h c parts hparts s ?_⟩
    all_goals simpa using hs

/-- The class that owns the protected specification does not depend on what has been recorded. -/
theorem PairsRecorded.protectedDeclarer_eq (hpairs : t.PairsRecorded) {c hidden : NodeId}
    (h : t.hiddenSpec? c x = some hidden) :
    t.protectedDeclarer c hidden x = (t.findProtected c x).bind t.declaredIn? := by
  rw [protectedDeclarer]
  cases hrecorded : t.protectedBy? hidden with
  | none => rfl
  | some p =>
    obtain ⟨parts, hparts, hfound⟩ := Option.bind_eq_some_iff.mp h
    have hnamed := List.find?_some hfound
    cases hi : t.identifier? hidden with
    | none => simp [hi] at hnamed
    | some i =>
      simp only [hi] at hnamed
      have hlisted := Array.mem_toList_iff.mp (mem_of_findNamed hfound)
      rw [← findProtected_congr hnamed, hpairs c parts hparts hidden hlisted i hi p hrecorded]
      rfl

/-! ## The whole search -/

section

variable (hlisted : t.ListedInScope) (hpairs : t.PairsRecorded) {c d hidden : NodeId} {i : Nat}
include hlisted hpairs

/-- The mask of a level ends at the class behind which the search goes on. -/
theorem PrefixPath.maskEnd_spec (h : t.PrefixPath c chain) (hd : chain[i]? = some d)
    (hhidden : t.hiddenSpec? d x = some hidden) : i ≤ t.maskEnd x chain i ∧
      chain[t.maskEnd x chain i]? = some ((t.protectedDeclarer d hidden x).getD d) := by
  rw [hpairs.protectedDeclarer_eq hhidden, maskEnd, hd, Option.bind_some]
  cases hspec : t.findProtected d x with
  | none => exact ⟨Nat.le_refl i, hd⟩
  | some spec =>
    rw [(h.drop hd).findProtected_eq hlisted] at hspec
    obtain ⟨e, hpaired, hspec⟩ := Option.bind_eq_some_iff.mp hspec
    obtain ⟨k, hk⟩ := List.mem_iff_getElem?.mp (mem_of_pairedClass hpaired)
    rw [List.getElem?_drop] at hk
    have hlevel : chain.idxOf e = i + k := by
      obtain ⟨hlt, rfl⟩ := List.getElem?_eq_some_iff.mp hk
      exact h.nodup.idxOf_getElem _ hlt
    rw [Option.bind_some, hlisted.declaredIn_protected hspec, Option.getD_some]
    dsimp only
    rw [hlevel]
    exact ⟨Nat.le_add_right i k, hk⟩

/-- A search that comes to a level finds what the masks say, if it has a step for every level from
there on at which anything can be found. -/
theorem PrefixPath.searchAttribute_finds (h : t.PrefixPath c chain) {n : Nat}
    {outside behind : Bool} (harrives : t.ArrivesAt x remote chain behind i)
    (houtside : outside = true ↔ 0 < i ∨ remote = true)
    (hn : ∀ e ∈ chain.drop (i + n), (t.data e).isPlace = false) :
    t.Finds x remote chain (t.searchAttribute x n outside behind chain[i]?) := by
  induction n generalizing i outside behind with
  | zero =>
    rw [searchAttribute_zero]
    refine harrives.finds_none fun j hj e he => ?_
    have hmem : e ∈ chain.drop i := by
      refine List.mem_iff_getElem?.mpr ⟨j - i, ?_⟩
      rwa [List.getElem?_drop, Nat.add_sub_cancel' hj]
    have hplace := hn e hmem
    cases hlocal : t.lookupLocal e x with
    | none => rfl
    | some found => simp [isPlace_of_lookupLocal hlocal] at hplace
  | succ n ih =>
    cases hc : chain[i]? with
    | none =>
      rw [searchAttribute_none]
      refine harrives.finds_none fun j hj e he => ?_
      have hlt := (List.getElem?_eq_some_iff.mp he).1
      have hlength := List.getElem?_eq_none_iff.mp hc
      omega
    | some d =>
      have hrest : ∀ j, i < j → ∀ e ∈ chain.drop (j + n), (t.data e).isPlace = false :=
        fun j hj e he => hn e ((List.drop_suffix_drop_left chain (by omega)).subset he)
      by_cases hlevel : t.HidingLevel x remote chain i
      · obtain ⟨hsome, hcounts⟩ := harrives.hidingLevel_iff.mp hlevel
        rw [hc, Option.bind_some] at hsome
        obtain ⟨hidden, hhidden⟩ := Option.isSome_iff_exists.mp hsome
        obtain ⟨hmask, hnext⟩ := h.maskEnd_spec hlisted hpairs hc hhidden
        obtain rfl := houtside.mpr hcounts
        have hgoes : t.goesOnBehind? x true d =
            some ((t.protectedDeclarer d hidden x).getD d) := by
          simp [goesOnBehind?, hhidden]
        rw [searchAttribute_of_goesOn hgoes, hhidden, h.prefixClass?_eq hnext]
        simp only [Option.isSome_some, Bool.and_self, Bool.or_true]
        exact ih (harrives.hides hlevel hmask) (by simp) (hrest _ (by omega))
      · have hseen := harrives.hiddenSpec?_eq_none hc hlevel houtside
        cases hlocal : t.lookupLocal d x with
        | some declaration =>
          have hstops : t.goesOnBehind? x outside d = none := by
            simp [goesOnBehind?, hseen, hlocal]
          rw [searchAttribute_of_stops hstops, hlocal]
          exact ⟨i, harrives.foundAt hc hlevel hlocal⟩
        | none =>
          have hgoes : t.goesOnBehind? x outside d = some d := by
            simp [goesOnBehind?, hseen, hlocal]
          have hbehind : (behind || outside && (t.hiddenSpec? d x).isSome) = behind := by
            cases outside <;> simp_all
          rw [searchAttribute_of_goesOn hgoes, hbehind, h.prefixClass?_eq hc]
          exact ih (harrives.passes hc hlevel hlocal) (by simp) (hrest _ (by omega))

end

/-- **Attribute lookup by masks.** In a tree without cycles of prefixes, whose specifications are
listed in their scopes and whose recorded pairs are those that belong together, an attribute of a
class is found exactly at the first level of its prefix chain that is not masked and offers the
identifier, and none is found exactly if there is no such level. The search has steps enough: with
more than the tree has nodes it finds the same. -/
theorem findAttribute_iff_foundAt (hacyclic : t.AcyclicPrefixes) (hlisted : t.ListedInScope)
    (hpairs : t.PairsRecorded) (c : NodeId) (x : String) (remote : Bool) :
    (∀ a, t.findAttribute c x remote = some a ↔
      ∃ i, t.FoundAt x remote (t.prefixChain c) a i) ∧
    (t.findAttribute c x remote = none ↔ ∀ i d, (t.prefixChain c)[i]? = some d →
      ¬ t.Masked x remote (t.prefixChain c) i → t.lookupLocal d x = none) ∧
    ∀ n, t.size ≤ n →
      t.searchAttribute x n remote false (some c) = t.findAttribute c x remote := by
  obtain ⟨chain, hchain⟩ := hacyclic.exists_prefixPath c
  rw [hchain.prefixChain_eq]
  have hfinds : ∀ n, t.size ≤ n →
      t.Finds x remote chain (t.searchAttribute x n remote false (some c)) := by
    intro n hn
    have hstart : chain[0]? = some c := by
      obtain ⟨rest, rfl⟩ := hchain.head
      rfl
    rw [← hstart]
    refine hchain.searchAttribute_finds hlisted hpairs .start (by simp) fun e he => ?_
    rw [Nat.zero_add] at he
    exact hchain.isPlace_of_mem_drop hn he
  have hfound := hfinds t.size (Nat.le_refl _)
  refine ⟨fun a => ⟨fun h => ?_, fun h => ?_⟩, ⟨fun h => ?_, fun h => ?_⟩, fun n hn => ?_⟩
  · rw [findAttribute] at h
    rwa [h] at hfound
  · have hsome : t.Finds x remote chain (some a) := h
    exact hfound.unique hsome
  · rw [findAttribute] at h
    rwa [h] at hfound
  · have hnone : t.Finds x remote chain none := h
    exact hfound.unique hnone
  · exact (hfinds n hn).unique hfound

/-- The attribute of the outermost class is found behind all pairs: the second class hides the
identifier and masks all levels up to the fifth. -/
theorem findAttribute_nestedPairs :
    ∃ i, nestedPairs.FoundAt "x" false (nestedPairs.prefixChain 10) ⟨1, 0, true⟩ i := by
  have hpairs : nestedPairs.PairsRecorded := by decide +kernel
  obtain ⟨hfound, -⟩ := findAttribute_iff_foundAt nestedPairs_acyclicPrefixes
    nestedPairs_listedInScope hpairs 10 "x" false
  exact (hfound _).mp (by decide +kernel)

end Simula.Tree
