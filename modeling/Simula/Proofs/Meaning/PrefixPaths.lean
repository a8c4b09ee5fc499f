import Mathlib.Data.List.Nodup
import Mathlib.Logic.Relation
import Simula.Proofs.Meaning.Links

/-!
# Prefix chains that end

Where the prefix of every class leads on to an outermost class, the prefix chain of a class is the
whole way there. It comes to no class twice, the chain of each class on it is its rest, and it is
hardly longer than the tree has nodes, which is why the bounds on the walks along it never matter.
In a tree without cycles of prefixes all prefix chains end.
-/

namespace Simula.Tree

variable {t : Tree}

/-! ## Paths along prefixes -/

/-- The classes on a prefix chain that ends, from a class to the outermost one. -/
inductive PrefixPath (t : Tree) : NodeId → List NodeId → Prop
  | ends {c : NodeId} (h : t.prefixClass? c = none) : PrefixPath t c [c]
  | next {c p : NodeId} {path : List NodeId} (h : t.prefixClass? c = some p)
      (hp : PrefixPath t p path) : PrefixPath t c (c :: path)

namespace PrefixPath

variable {c d : NodeId} {path path' : List NodeId} {i : Nat}

/-- A class has one path at most. -/
theorem unique (h : t.PrefixPath c path) (h' : t.PrefixPath c path') : path = path' := by
  induction h generalizing path' with
  | ends hc =>
    cases h' with
    | ends => rfl
    | next hc' => rw [hc] at hc'; cases hc'
  | next hc _ ih =>
    cases h' with
    | ends hc' => rw [hc] at hc'; cases hc'
    | next hc' hp' =>
      rw [hc] at hc'
      cases hc'
      rw [ih hp']

/-- A path starts with its class. -/
theorem head (h : t.PrefixPath c path) : ∃ rest, path = c :: rest := by
  cases h with
  | ends => exact ⟨[], rfl⟩
  | next => exact ⟨_, rfl⟩

/-- The chain of a class on the chain is the rest of the chain. -/
theorem exists_suffix (h : t.PrefixPath c path) (hd : d ∈ path) :
    ∃ rest, t.PrefixPath d rest ∧ rest <:+ path := by
  induction h with
  | ends hc =>
    rw [List.mem_singleton] at hd
    subst hd
    exact ⟨_, .ends hc, List.suffix_rfl⟩
  | @next c p path hc hp ih =>
    rcases List.mem_cons.mp hd with rfl | hd
    · exact ⟨_, .next hc hp, List.suffix_rfl⟩
    · obtain ⟨rest, hrest, hsuffix⟩ := ih hd
      exact ⟨rest, hrest, hsuffix.trans (List.suffix_cons ..)⟩

/-- A chain that ends does not come back to a class. -/
theorem nodup (h : t.PrefixPath c path) : path.Nodup := by
  induction h with
  | ends => simp
  | @next c p path hc hp ih =>
    refine List.nodup_cons.mpr ⟨fun hmem => ?_, ih⟩
    obtain ⟨rest, hrest, hsuffix⟩ := hp.exists_suffix hmem
    have hlonger : rest = c :: path := hrest.unique (.next hc hp)
    have hle := hsuffix.length_le
    rw [hlonger, List.length_cons] at hle
    omega

/-- All classes on a chain but the last have a prefix class. -/
theorem length_le (h : t.PrefixPath c path) : path.length ≤ t.places.length + 1 := by
  have hsub : path.dropLast ⊆ t.places := by
    induction h with
    | ends => simp
    | @next c p path hc hp ih =>
      obtain ⟨rest, rfl⟩ := hp.head
      rw [List.dropLast_cons_of_ne_nil (List.cons_ne_nil _ _)]
      exact List.cons_subset.mpr ⟨mem_places (isPlace_of_prefixClass hc), ih⟩
  have hnodup := h.nodup.sublist (List.dropLast_sublist path)
  have hle := (List.subperm_of_subset hnodup hsub).length_le
  rw [List.length_dropLast] at hle
  omega

/-- With steps enough the prefixes above a class are the rest of its path. -/
theorem prefixesAbove_eq {n : Nat} {seen : List NodeId} (h : t.PrefixPath c path)
    (hseen : ∀ d ∈ path.tail, d ∉ seen) (hn : path.length ≤ n + 1) :
    t.prefixesAbove n seen c = path.tail := by
  induction h generalizing n seen with
  | ends hc => exact prefixesAbove_of_none hc n seen
  | @next c p path hc hp ih =>
    obtain ⟨rest, rfl⟩ := hp.head
    obtain ⟨n, rfl⟩ : ∃ m, n = m + 1 := Nat.exists_eq_succ_of_ne_zero (by
      simp only [List.length_cons] at hn
      omega)
    simp only [List.tail_cons, List.length_cons] at hseen hn ih ⊢
    have hfresh : ∀ d ∈ rest, d ∉ p :: seen := by
      intro d hd hmem
      rcases List.mem_cons.mp hmem with rfl | hmem
      · exact (List.nodup_cons.mp hp.nodup).1 hd
      · exact hseen d (List.mem_cons_of_mem _ hd) hmem
    simp only [prefixesAbove, hc, if_neg (hseen p List.mem_cons_self)]
    rw [ih hfresh (by omega)]

/-- A prefix chain that ends is walked to its end. -/
theorem prefixChain_eq (h : t.PrefixPath c path) : t.prefixChain c = path := by
  obtain ⟨rest, rfl⟩ := h.head
  rw [prefixChain, h.prefixesAbove_eq]
  · rfl
  · intro d hd hmem
    rw [List.mem_singleton] at hmem
    subst hmem
    exact (List.nodup_cons.mp h.nodup).1 hd
  · have hle := h.length_le
    have hsize := t.length_places_le
    omega

/-- From each class of a path the rest of the path is its own. -/
theorem drop (h : t.PrefixPath c path) (hd : path[i]? = some d) :
    t.PrefixPath d (path.drop i) := by
  induction h generalizing i with
  | ends hc =>
    cases i with
    | zero =>
      cases hd
      exact .ends hc
    | succ i => cases hd
  | next hc hp ih =>
    cases i with
    | zero =>
      cases hd
      exact .next hc hp
    | succ i => exact ih hd

/-- The prefix of a class is the next on the path. -/
theorem prefixClass?_eq (h : t.PrefixPath c path) (hd : path[i]? = some d) :
    t.prefixClass? d = path[i + 1]? := by
  have hnext : (path.drop i)[1]? = path[i + 1]? := List.getElem?_drop
  have hrest := h.drop hd
  rw [← hnext]
  generalize path.drop i = rest at hrest
  cases hrest with
  | ends hc => exact hc
  | next hc hp =>
    obtain ⟨above, rfl⟩ := hp.head
    exact hc

/-- Beyond as many classes as the tree has nodes a path comes to no place. -/
theorem isPlace_of_mem_drop {n : Nat} (h : t.PrefixPath c path) (hn : t.size ≤ n)
    (hd : d ∈ path.drop n) : (t.data d).isPlace = false := by
  obtain ⟨k, hk⟩ := List.mem_iff_getElem?.mp hd
  rw [List.getElem?_drop] at hk
  by_contra hplace
  -- Then all classes so far are places, and there are too many of them.
  have hsub : path.take (n + k + 1) ⊆ t.places := by
    intro e he
    obtain ⟨j, hj⟩ := List.mem_iff_getElem?.mp he
    rw [List.getElem?_take] at hj
    split at hj
    · next hlt =>
      rcases Nat.eq_or_lt_of_le (Nat.le_of_lt_succ hlt) with rfl | hlt
      · rw [hk] at hj
        cases hj
        exact mem_places (by simpa using hplace)
      · have hnext : j + 1 < path.length :=
          Nat.lt_of_le_of_lt hlt (List.getElem?_eq_some_iff.mp hk).1
        exact mem_places (isPlace_of_prefixClass
          ((h.prefixClass?_eq hj).trans (List.getElem?_eq_getElem hnext)))
    · cases hj
  have hnodup := h.nodup.sublist (List.take_sublist (n + k + 1) path)
  have hle := (List.subperm_of_subset hnodup hsub).length_le
  have hlt := (List.getElem?_eq_some_iff.mp hk).1
  have hsize := t.length_places_le
  rw [List.length_take] at hle
  omega

end PrefixPath

/-- Whatever stands on a prefix chain is reached along prefix classes. -/
theorem exists_prefixPath_of_mem {c d : NodeId} {rest : List NodeId} (hd : d ∈ t.prefixChain c)
    (hrest : t.PrefixPath d rest) : ∃ path, t.PrefixPath c path := by
  have habove : ∀ n seen c, d ∈ t.prefixesAbove n seen c → ∃ path, t.PrefixPath c path := by
    intro n
    induction n with
    | zero => exact fun _ _ hmem => by cases hmem
    | succ n ih =>
      intro seen c hmem
      rw [prefixesAbove] at hmem
      cases hp : t.prefixClass? c with
      | none => exact ⟨_, .ends hp⟩
      | some p =>
        simp only [hp] at hmem
        split at hmem
        · cases hmem
        · rcases List.mem_cons.mp hmem with rfl | hmem
          · exact ⟨_, .next hp hrest⟩
          · obtain ⟨path, hpath⟩ := ih _ p hmem
            exact ⟨_, .next hp hpath⟩
  rcases List.mem_cons.mp hd with rfl | hd
  · exact ⟨rest, hrest⟩
  · exact habove _ _ _ hd

/-- A prefix chain has no class twice. -/
theorem nodup_prefixChain (t : Tree) (c : NodeId) : (t.prefixChain c).Nodup := by
  have habove : ∀ n seen c, (t.prefixesAbove n seen c).Nodup ∧
      ∀ d ∈ t.prefixesAbove n seen c, d ∉ seen := by
    intro n
    induction n with
    | zero => simp [prefixesAbove]
    | succ n ih =>
      intro seen c
      rw [prefixesAbove]
      cases hp : t.prefixClass? c with
      | none => simp
      | some p =>
        dsimp only
        split
        · simp
        · next hseen =>
          obtain ⟨hnodup, hfresh⟩ := ih (p :: seen) p
          refine ⟨List.nodup_cons.mpr ⟨fun hmem => hfresh p hmem List.mem_cons_self, hnodup⟩, ?_⟩
          intro d hd
          rcases List.mem_cons.mp hd with rfl | hd
          · exact hseen
          · exact fun hmem => hfresh d hd (List.mem_cons_of_mem _ hmem)
  obtain ⟨hnodup, hfresh⟩ := habove t.size [c] c
  exact List.nodup_cons.mpr ⟨fun hmem => hfresh c hmem List.mem_cons_self, hnodup⟩

/-! ## Trees without cycles of prefixes -/

/-- A class is a node of the tree. -/
theorem lt_of_class?_eq_some {c : NodeId} {parts : ClassParts} (h : t.class? c = some parts) :
    c < t.size :=
  lt_of_data fun hpending => by simp [class?, hpending, NodeData.class?] at h

/-- No class is a prefix of itself, be it directly or through others. -/
def AcyclicPrefixes (t : Tree) : Prop :=
  ∀ c, ¬ Relation.TransGen (fun a b => t.prefixClass? a = some b) c c

/-- There is no cycle if every prefix class comes before the classes that it is a prefix of. -/
theorem acyclicPrefixes_of_lt (h : ∀ c < t.size, ∀ p ∈ t.prefixClass? c, p < c) :
    t.AcyclicPrefixes := by
  intro c hcycle
  have hbefore : ∀ {a b}, t.prefixClass? a = some b → b < a := by
    intro a b hb
    obtain ⟨parts, hparts, -⟩ := Option.bind_eq_some_iff.mp hb
    exact h a (lt_of_class?_eq_some hparts) b hb
  have hlt : ∀ {d}, Relation.TransGen (fun a b => t.prefixClass? a = some b) c d → d < c := by
    intro d hd
    induction hd with
    | single hp => exact hbefore hp
    | tail _ hp ih => exact Nat.lt_trans (hbefore hp) ih
  exact Nat.lt_irrefl c (hlt hcycle)

/-- Without cycles every prefix chain ends. -/
theorem AcyclicPrefixes.exists_prefixPath (h : t.AcyclicPrefixes) (c : NodeId) :
    ∃ path, t.PrefixPath c path := by
  -- Every step adds a place to those that lead to the current class.
  have hall : ∀ n seen c, (t.unseen seen).length < n →
      (∀ d ∈ seen, Relation.TransGen (fun a b => t.prefixClass? a = some b) d c) →
      ∃ path, t.PrefixPath c path := by
    intro n
    induction n with
    | zero => exact fun _ _ hn => absurd hn (Nat.not_lt_zero _)
    | succ n ih =>
      intro seen c hn hseen
      cases hp : t.prefixClass? c with
      | none => exact ⟨_, .ends hp⟩
      | some p =>
        have hless := length_unseen_cons (isPlace_of_prefixClass hp) fun hc => h c (hseen c hc)
        obtain ⟨path, hpath⟩ := ih (c :: seen) p (by omega) fun d hd => by
          rcases List.mem_cons.mp hd with rfl | hd
          · exact .single hp
          · exact (hseen d hd).tail hp
        exact ⟨_, .next hp hpath⟩
  exact hall _ [] c (Nat.lt_succ_self _) (by simp)

/-! ## Chains from a class on, if there is one -/

/-- The classes from a class on, if there is one, to the outermost prefix. -/
inductive ChainFrom (t : Tree) : Option NodeId → List NodeId → Prop
  | ends : ChainFrom t none []
  | next {c : NodeId} {path : List NodeId} (h : ChainFrom t (t.prefixClass? c) path) :
      ChainFrom t (some c) (c :: path)

/-- The path of a class is a chain from it. -/
theorem PrefixPath.chainFrom {c : NodeId} {path : List NodeId} (h : t.PrefixPath c path) :
    t.ChainFrom (some c) path := by
  induction h with
  | ends hc => exact .next (hc ▸ .ends)
  | next hc _ ih => exact .next (hc ▸ ih)

/-- Behind a class the chain goes on from its prefix class. -/
theorem ChainFrom.tail {c : NodeId} {path : List NodeId} (h : t.ChainFrom (some c) (c :: path)) :
    t.ChainFrom (t.prefixClass? c) path := by
  cases h with
  | next h => exact h

/-- A prefix chain consists of a class and the chain above, for which the tree has nodes enough. -/
theorem PrefixPath.above {c : NodeId} {path : List NodeId} (h : t.PrefixPath c path) :
    ∃ rest, path = c :: rest ∧ t.ChainFrom (t.prefixClass? c) rest ∧ rest.length ≤ t.size := by
  have hlength := Nat.le_trans h.length_le (Nat.succ_le_succ t.length_places_le)
  obtain ⟨rest, rfl⟩ := h.head
  exact ⟨rest, rfl, h.chainFrom.tail, Nat.le_of_succ_le_succ hlength⟩

/-- Behind a class on a chain comes the rest of the chain. -/
theorem ChainFrom.behind {start : Option NodeId} {before after : List NodeId} {d : NodeId}
    (h : t.ChainFrom start (before ++ d :: after)) : t.ChainFrom (t.prefixClass? d) after := by
  induction before generalizing start with
  | nil =>
    cases h with
    | next h => exact h
  | cons b before ih =>
    cases h with
    | next h => exact ih h

end Simula.Tree
