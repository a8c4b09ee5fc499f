import Simula.Proofs.Meaning.PrefixPaths

/-!
# Pairs of hidden and protected specifications

The hidden and protected specifications of one identifier on a prefix chain pair like brackets.
Going up from a class that hides the identifier, each further class that hides it opens a pair, and
each class that protects it closes one; the class that closes the last is the one that belongs to
the start. The search finds it by asking at each hidden specification for the partner of that one
and going on behind it, which skips a balanced part of the chain.
-/

namespace Simula.Tree

variable {t : Tree} {x : String}

/-! ## Counting open pairs -/

/-- The number of open pairs behind a class: a hidden specification opens one, and then a protected
one closes one. -/
def openBehind (t : Tree) (x : String) (n : Nat) (c : NodeId) : Nat :=
  n + (t.hiddenSpec? c x).isSome.toNat - (t.protectedSpec? c x).isSome.toNat

/-- The first class behind which no pair is open, where `n` are open before the classes. -/
def closingClass (t : Tree) (x : String) : Nat → List NodeId → Option NodeId
  | _, [] => none
  | n, c :: rest =>
    if t.openBehind x n c = 0 then some c else t.closingClass x (t.openBehind x n c) rest

/-- The class that closes the pair opened by the first class of a chain. At this class itself only
its protected specification counts, as its hidden one is the pair that is open. -/
def pairedClass? (t : Tree) (x : String) : List NodeId → Option NodeId
  | [] => none
  | c :: rest => if (t.protectedSpec? c x).isSome then some c else t.closingClass x 1 rest

section

variable {n k : Nat} {c d : NodeId} {path : List NodeId}

/-- The last open pair is closed by a protected specification. -/
theorem openBehind_eq_zero (hn : 0 < n) : t.openBehind x n c = 0 ↔
    n = 1 ∧ (t.hiddenSpec? c x).isSome = false ∧ (t.protectedSpec? c x).isSome = true := by
  rw [openBehind]
  cases (t.hiddenSpec? c x).isSome <;> cases (t.protectedSpec? c x).isSome <;> simp <;> omega

/-- Further open pairs stay open. -/
theorem openBehind_add (hn : 0 < n) : t.openBehind x (n + k) c = t.openBehind x n c + k := by
  rw [openBehind, openBehind]
  cases (t.hiddenSpec? c x).isSome <;> cases (t.protectedSpec? c x).isSome <;> simp <;> omega

/-- While a pair is open behind a class, another class closes it. -/
theorem closingClass_of_pos (h : 0 < t.openBehind x n c) :
    t.closingClass x n (c :: path) = t.closingClass x (t.openBehind x n c) path :=
  if_neg (Nat.ne_of_gt h)

/-- What closes a pair is a class of the chain. -/
theorem mem_of_closingClass (h : t.closingClass x n path = some d) : d ∈ path := by
  induction path generalizing n with
  | nil => cases h
  | cons c rest ih =>
    rw [closingClass] at h
    split at h
    · cases h
      exact List.mem_cons_self
    · exact List.mem_cons_of_mem _ (ih h)

/-- The class that closes the last pair protects the identifier. -/
theorem protectedSpec?_of_closingClass (hn : 0 < n) (h : t.closingClass x n path = some d) :
    (t.protectedSpec? d x).isSome = true := by
  induction path generalizing n with
  | nil => cases h
  | cons c rest ih =>
    rw [closingClass] at h
    split at h
    · next hzero =>
      cases h
      exact ((openBehind_eq_zero hn).mp hzero).2.2
    · next hpos => exact ih (Nat.pos_of_ne_zero hpos) h

/-- Pairs that are open besides are closed behind the class that closes the others. -/
theorem closingClass_add (hn : 0 < n) (h : t.closingClass x n path = some d) :
    ∃ before after, path = before ++ d :: after ∧
      ∀ k, 0 < k → t.closingClass x (n + k) path = t.closingClass x k after := by
  induction path generalizing n with
  | nil => cases h
  | cons c rest ih =>
    rw [closingClass] at h
    split at h
    · next hzero =>
      cases h
      refine ⟨[], rest, rfl, fun k hk => ?_⟩
      have hopen : t.openBehind x (n + k) d = k := by rw [openBehind_add hn, hzero, Nat.zero_add]
      rw [closingClass_of_pos (by omega), hopen]
    · next hpos =>
      obtain ⟨before, after, rfl, hafter⟩ := ih (Nat.pos_of_ne_zero hpos) h
      refine ⟨c :: before, after, rfl, fun k hk => ?_⟩
      rw [closingClass_of_pos (by rw [openBehind_add hn]; omega), openBehind_add hn, hafter k hk]

/-- Pairs that stay open are not closed where there are more of them. -/
theorem closingClass_add_eq_none (hn : 0 < n) (h : t.closingClass x n path = none) :
    t.closingClass x (n + k) path = none := by
  induction path generalizing n with
  | nil => rfl
  | cons c rest ih =>
    rw [closingClass] at h
    split at h
    · cases h
    · next hpos =>
      rw [closingClass_of_pos (by rw [openBehind_add hn]; omega), openBehind_add hn]
      exact ih (Nat.pos_of_ne_zero hpos) h

/-- What is not closed in the first part of a chain comes open to the second. -/
theorem closingClass_append {before : List NodeId} (hn : 0 < n)
    (h : t.closingClass x n (before ++ path) = some d) :
    d ∈ before ∨ ∃ k, 0 < k ∧ t.closingClass x k path = some d := by
  induction before generalizing n with
  | nil => exact .inr ⟨n, hn, h⟩
  | cons c rest ih =>
    rw [List.cons_append, closingClass] at h
    split at h
    · cases h
      exact .inl List.mem_cons_self
    · next hpos =>
      rcases ih (Nat.pos_of_ne_zero hpos) h with hd | hd
      · exact .inl (List.mem_cons_of_mem _ hd)
      · exact .inr hd

/-- So is the class that closes the pair of the first one. -/
theorem mem_of_pairedClass (h : t.pairedClass? x path = some d) : d ∈ path := by
  cases path with
  | nil => cases h
  | cons c rest =>
    rw [pairedClass?] at h
    split at h
    · cases h
      exact List.mem_cons_self
    · exact List.mem_cons_of_mem _ (mem_of_closingClass h)

/-- A pair is closed by a protected specification. -/
theorem protectedSpec?_of_pairedClass (h : t.pairedClass? x path = some d) :
    (t.protectedSpec? d x).isSome = true := by
  cases path with
  | nil => cases h
  | cons c rest =>
    rw [pairedClass?] at h
    split at h
    · next hown =>
      cases h
      exact hown
    · exact protectedSpec?_of_closingClass Nat.one_pos h

/-- The class paired with a class further up that opens a pair as well is another one. -/
theorem pairedClass?_ne {a b : NodeId} {between rest : List NodeId}
    (hb : (t.hiddenSpec? b x).isSome = true) (hnodup : (a :: (between ++ b :: rest)).Nodup)
    (h : t.pairedClass? x (a :: (between ++ b :: rest)) = some d) :
    t.pairedClass? x (b :: rest) ≠ some d := by
  intro hpaired
  have hmem := mem_of_pairedClass hpaired
  obtain ⟨ha, hnodup⟩ := List.nodup_cons.mp hnodup
  obtain ⟨-, hnodup, hapart⟩ := List.nodup_append.mp hnodup
  rw [pairedClass?] at h
  split at h
  · cases h
    exact ha (List.mem_append_right _ hmem)
  · obtain hd | ⟨k, hk, hd⟩ := closingClass_append Nat.one_pos h
    · exact hapart d hd d hmem rfl
    · -- The pair of the lower class is still open, besides the one that is opened here.
      have hopen : t.openBehind x k b = k + 1 - (t.protectedSpec? b x).isSome.toNat := by
        rw [openBehind, hb]
        rfl
      rw [pairedClass?] at hpaired
      split at hpaired
      · next hown =>
        cases hpaired
        rw [hown] at hopen
        rw [closingClass_of_pos (by rw [hopen]; exact hk)] at hd
        exact (List.nodup_cons.mp hnodup).1 (mem_of_closingClass hd)
      · next hown =>
        obtain ⟨before, after, rfl, hafter⟩ := closingClass_add Nat.one_pos hpaired
        rw [Bool.not_eq_true] at hown
        have hadd : t.openBehind x k b = 1 + k := by rw [hopen, hown]; exact Nat.add_comm k 1
        rw [closingClass_of_pos (by omega), hadd, hafter k hk] at hd
        have hrest := (List.nodup_append.mp (List.nodup_cons.mp hnodup).2).2.1
        exact (List.nodup_cons.mp hrest).1 (mem_of_closingClass hd)

end

/-! ## The search for a protected specification -/

/-- Each hidden or protected specification that a class lists has the class for its scope. -/
def ListedInScope (t : Tree) : Prop :=
  ∀ c parts, t.class? c = some parts → ∀ s, s ∈ parts.hidden ∨ s ∈ parts.guarded →
    t.declaredIn? s = some c

instance (t : Tree) : Decidable t.ListedInScope :=
  decidable_of_iff (∀ c < t.size, ∀ parts ∈ t.class? c,
      ∀ s ∈ parts.hidden.toList ++ parts.guarded.toList, t.declaredIn? s = some c) <| by
    refine ⟨fun h c parts hparts s hs => h c (lt_of_class?_eq_some hparts) parts hparts s ?_,
      fun h c _ parts hparts s hs => h c parts hparts s ?_⟩
    all_goals simpa using hs

/-- What is found in a list is in it. -/
theorem mem_of_findNamed {ids : List NodeId} {id : NodeId} (h : t.findNamed ids x = some id) :
    id ∈ ids := List.mem_of_find?_eq_some h

/-- A protected specification that has been found has the class for its scope. -/
theorem ListedInScope.declaredIn_protected (h : t.ListedInScope) {c spec : NodeId}
    (hspec : t.protectedSpec? c x = some spec) : t.declaredIn? spec = some c := by
  obtain ⟨parts, hparts, hfound⟩ := Option.bind_eq_some_iff.mp hspec
  exact h c parts hparts spec (.inr (Array.mem_toList_iff.mp (mem_of_findNamed hfound)))

/-- The search from a class comes to a class for which no step is left. From a class that does not
protect the identifier it goes on above, and from one that hides it also behind the specification
that has been found for it. -/
inductive OutOfSteps (t : Tree) (x : String) : Nat → NodeId → Prop
  | here {c : NodeId} : OutOfSteps t x 0 c
  | above {n : Nat} {c p : NodeId} (hown : t.protectedSpec? c x = none)
      (hp : t.prefixClass? c = some p) (h : OutOfSteps t x n p) : OutOfSteps t x (n + 1) c
  | behind {n : Nat} {c spec p : NodeId} (hhidden : (t.hiddenSpec? c x).isSome = true)
      (hspec : (t.protectedSpec? c x <|> t.protectedAbove x n (t.prefixClass? c)) = some spec)
      (hp : (t.declaredIn? spec).bind t.prefixClass? = some p) (h : OutOfSteps t x n p) :
      OutOfSteps t x (n + 1) c

section

variable (hlisted : t.ListedInScope) {n : Nat} {start : Option NodeId} {path : List NodeId}
include hlisted

/-- The search gives the protected specification of the class that closes the pair. -/
theorem protectedAbove_eq_closingClass (h : t.ChainFrom start path) (hn : path.length ≤ n) :
    t.protectedAbove x n start = (t.closingClass x 1 path).bind (t.protectedSpec? · x) := by
  induction n generalizing start path with
  | zero =>
    obtain rfl := List.length_eq_zero_iff.mp (Nat.le_zero.mp hn)
    cases h
    rfl
  | succ n ih =>
    cases h with
    | ends => simp [closingClass]
    | @next c path h =>
      have hlength : path.length ≤ n := Nat.le_of_succ_le_succ hn
      have habove := ih h hlength
      rw [protectedAbove, closingClass, openBehind, habove]
      cases hhidden : (t.hiddenSpec? c x).isSome with
      | false =>
        cases hown : t.protectedSpec? c x with
        | some spec => simp [hown]
        | none => simp
      | true =>
        cases hown : t.protectedSpec? c x with
        | some spec => simp [hlisted.declaredIn_protected hown, habove]
        | none =>
          -- The pair that is opened here is closed first.
          cases hfirst : t.closingClass x 1 path with
          | none => simp [closingClass_add_eq_none (k := 1) Nat.one_pos hfirst]
          | some d =>
            obtain ⟨before, after, rfl, hafter⟩ := closingClass_add Nat.one_pos hfirst
            obtain ⟨spec, hspec⟩ := Option.isSome_iff_exists.mp
              (protectedSpec?_of_closingClass Nat.one_pos hfirst)
            have hbehind : t.protectedAbove x n (t.prefixClass? d) =
                (t.closingClass x 1 after).bind (t.protectedSpec? · x) :=
              ih h.behind (by simp at hlength; omega)
            simp [hspec, hlisted.declaredIn_protected hspec, hbehind, hafter 1 Nat.one_pos]

/-- What has been found for a class belongs to a class of its chain. -/
theorem exists_declarer_of_search {c spec : NodeId} (h : t.ChainFrom (some c) (c :: path))
    (hn : path.length ≤ n)
    (hspec : (t.protectedSpec? c x <|> t.protectedAbove x n (t.prefixClass? c)) = some spec) :
    ∃ before d after, c :: path = before ++ d :: after ∧ t.declaredIn? spec = some d := by
  cases hown : t.protectedSpec? c x with
  | some own =>
    rw [hown] at hspec
    cases hspec
    exact ⟨[], c, path, rfl, hlisted.declaredIn_protected hown⟩
  | none =>
    rw [hown] at hspec
    have hclosing := (protectedAbove_eq_closingClass hlisted h.tail hn).symm.trans hspec
    obtain ⟨d, hd, hfound⟩ := Option.bind_eq_some_iff.mp hclosing
    obtain ⟨before, after, rfl, -⟩ := closingClass_add Nat.one_pos hd
    exact ⟨c :: before, d, after, rfl, hlisted.declaredIn_protected hfound⟩

/-- With a step for every class of the chain the search does not run out of them. -/
theorem not_outOfSteps {c : NodeId} (h : t.ChainFrom (some c) path) (hn : path.length ≤ n) :
    ¬ t.OutOfSteps x n c := by
  intro hout
  induction hout generalizing path with
  | here =>
    cases h
    cases hn
  | above _ hp _ ih =>
    cases h with
    | next h => exact ih (hp ▸ h) (Nat.le_of_succ_le_succ hn)
  | @behind n c spec p _ hspec hp _ ih =>
    cases h with
    | @next _ path h =>
      have hlength : path.length ≤ n := Nat.le_of_succ_le_succ hn
      obtain ⟨before, d, after, hpath, hd⟩ :=
        exists_declarer_of_search hlisted (.next h) hlength hspec
      rw [hd, Option.bind_some] at hp
      have hbehind : t.ChainFrom (t.prefixClass? d) after := (hpath ▸ h.next).behind
      have hshorter := congrArg List.length hpath
      simp only [List.length_cons, List.length_append] at hshorter
      exact ih (hp ▸ hbehind) (by omega)

/-- The protected specification that belongs to a class is the one of the class paired with it. -/
theorem PrefixPath.findProtected_eq {c : NodeId} (h : t.PrefixPath c path) :
    t.findProtected c x = (t.pairedClass? x path).bind (t.protectedSpec? · x) := by
  obtain ⟨rest, rfl, habove, hlength⟩ := h.above
  rw [findProtected, pairedClass?, protectedAbove_eq_closingClass hlisted habove hlength]
  cases hown : t.protectedSpec? c x with
  | some spec => simp [hown]
  | none => simp

/-- A class and one further up that hides the identifier again have no protected specification in
common. -/
theorem PrefixPath.findProtected_ne {a b spec : NodeId} {between rest : List NodeId}
    (h : t.PrefixPath a (a :: (between ++ b :: rest))) (hrest : t.PrefixPath b (b :: rest))
    (hb : (t.hiddenSpec? b x).isSome = true) (ha : t.findProtected a x = some spec) :
    t.findProtected b x ≠ some spec := by
  intro hb'
  rw [h.findProtected_eq hlisted] at ha
  rw [hrest.findProtected_eq hlisted] at hb'
  obtain ⟨d, hd, hspec⟩ := Option.bind_eq_some_iff.mp ha
  obtain ⟨d', hd', hspec'⟩ := Option.bind_eq_some_iff.mp hb'
  -- The specification tells its class.
  have hdeclarers := (hlisted.declaredIn_protected hspec).symm.trans
    (hlisted.declaredIn_protected hspec')
  cases hdeclarers
  exact pairedClass?_ne hb h.nodup hd hd'

end

/-- **Pairing as bracket matching.** In a tree without cycles of prefixes whose specifications are
listed in their scopes, the protected specification for an identifier hidden in a class is that of
the class which closes the pair on the prefix chain, and there is none if the pair stays open. No
two classes on a prefix chain that hide the identifier share their protected specification. The
search has steps enough: from the size of the tree on it never comes to the last of them, and with
more steps it finds the same. -/
theorem findProtected_eq_pairedClass (hacyclic : t.AcyclicPrefixes) (hlisted : t.ListedInScope)
    (c : NodeId) (x : String) :
    t.findProtected c x =
      (t.pairedClass? x (t.prefixChain c)).bind (t.protectedSpec? · x) ∧
    (t.findProtected c x = none ↔ t.pairedClass? x (t.prefixChain c) = none) ∧
    (∀ a ∈ t.prefixChain c, ∀ b ∈ t.prefixChain c, a ≠ b →
      (t.hiddenSpec? a x).isSome = true → (t.hiddenSpec? b x).isSome = true →
      ∀ spec, t.findProtected a x = some spec → t.findProtected b x ≠ some spec) ∧
    ∀ n, t.size ≤ n →
      (∀ p, t.prefixClass? c = some p → ¬ t.OutOfSteps x n p) ∧
      t.protectedAbove x n (t.prefixClass? c) = t.protectedAbove x t.size (t.prefixClass? c) := by
  obtain ⟨path, hpath⟩ := hacyclic.exists_prefixPath c
  rw [hpath.prefixChain_eq, hpath.findProtected_eq hlisted]
  refine ⟨rfl, ⟨fun hnone => ?_, fun hnone => by rw [hnone]; rfl⟩, ?_, fun n hn => ⟨?_, ?_⟩⟩
  · cases hpaired : t.pairedClass? x path with
    | none => rfl
    | some d =>
      obtain ⟨spec, hspec⟩ := Option.isSome_iff_exists.mp (protectedSpec?_of_pairedClass hpaired)
      simp [hpaired, hspec] at hnone
  · intro a ha b hb hne hhiddenA hhiddenB spec hspec
    obtain ⟨pathA, hpathA, hsuffixA⟩ := hpath.exists_suffix ha
    obtain ⟨pathB, hpathB, hsuffixB⟩ := hpath.exists_suffix hb
    obtain ⟨restA, rfl⟩ := hpathA.head
    obtain ⟨restB, rfl⟩ := hpathB.head
    rcases List.suffix_or_suffix_of_suffix hsuffixA hsuffixB with habove | hbelow
    · have hdiffer : a :: restA ≠ b :: restB := fun heq => hne (List.cons.inj heq).1
      obtain ⟨between, rfl⟩ := (List.suffix_cons_iff.mp habove).resolve_left hdiffer
      exact fun hspec' => hpathB.findProtected_ne hlisted hpathA hhiddenA hspec' hspec
    · have hdiffer : b :: restB ≠ a :: restA := fun heq => hne (List.cons.inj heq).1.symm
      obtain ⟨between, rfl⟩ := (List.suffix_cons_iff.mp hbelow).resolve_left hdiffer
      exact hpathA.findProtected_ne hlisted hpathB hhiddenB hspec
  · intro p hp
    obtain ⟨rest, rfl, habove, hlength⟩ := hpath.above
    exact not_outOfSteps hlisted (hp ▸ habove) (Nat.le_trans hlength hn)
  · exact protectedAbove_eq (Nat.le_trans t.length_places_le hn) t.length_places_le _

/-- A class with an attribute `x` and five classes below it, each the prefix of the next: two
protect `x`, then two hide it. -/
def nestedPairs : Tree where
  nodes := #[
    ⟨1, .declaration "A" none (.classDeclaration
      { body := { declarations := ⟨#[("X", 1)]⟩ } })⟩,
    ⟨2, .declaration "X" (some 0) (.simpleVariable .integer none)⟩,
    ⟨3, .declaration "B" none (.classDeclaration { prefixClass := some 0, guarded := #[3] })⟩,
    ⟨4, .declaration "X" (some 2) (.protectedSpec (some 9))⟩,
    ⟨5, .declaration "C" none (.classDeclaration { prefixClass := some 2, guarded := #[5] })⟩,
    ⟨6, .declaration "X" (some 4) (.protectedSpec none)⟩,
    ⟨7, .declaration "D" none (.classDeclaration { prefixClass := some 4, hidden := #[7] })⟩,
    ⟨8, .declaration "X" (some 6) (.hiddenSpec none)⟩,
    ⟨9, .declaration "E" none (.classDeclaration { prefixClass := some 6, hidden := #[9] })⟩,
    ⟨10, .declaration "X" (some 8) (.hiddenSpec (some 3))⟩,
    ⟨11, .declaration "F" none (.classDeclaration { prefixClass := some 8 })⟩]

/-- No class of this tree is its own prefix. -/
theorem nestedPairs_acyclicPrefixes : nestedPairs.AcyclicPrefixes :=
  acyclicPrefixes_of_lt (by decide +kernel)

/-- The specifications of this tree are listed by their scopes. -/
theorem nestedPairs_listedInScope : nestedPairs.ListedInScope := by decide +kernel

/-- The class that hides `x` last goes with the one that protects it first, and the other two go
together. -/
theorem findProtected_nestedPairs :
    nestedPairs.findProtected 8 "x" = some 3 ∧ nestedPairs.findProtected 6 "x" = some 5 := by
  obtain ⟨houter, -⟩ := findProtected_eq_pairedClass nestedPairs_acyclicPrefixes
    nestedPairs_listedInScope 8 "x"
  obtain ⟨hinner, -⟩ := findProtected_eq_pairedClass nestedPairs_acyclicPrefixes
    nestedPairs_listedInScope 6 "x"
  rw [houter, hinner]
  decide +kernel

end Simula.Tree
