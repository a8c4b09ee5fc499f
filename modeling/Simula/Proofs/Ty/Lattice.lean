import Simula.Proofs.Meaning.PrefixPaths

/-!
# The order of types

Subclasses are below their prefix classes. Where no class is a prefix of itself this is a strict
order, and it makes an order of the reference types: `none` is below all of them, and the others
are as the classes are that their identifiers denote. Conversions and common types follow it. A
value converts in both directions or in none, one of two directions of references is free and the
other is tested, and operands have a common type only if it is the type of one of them, to which
the other converts freely.
-/

namespace Simula

/-! ## Classes -/

/-- Being a strict subclass is a strict order. -/
structure ClassView.Ordered (classes : ClassView) : Prop where
  irrefl : ∀ c, classes.isSubclass c c = false
  trans : ∀ c d e, classes.isSubclass c d = true → classes.isSubclass d e = true →
    classes.isSubclass c e = true

/-- No class is above its own subclasses. -/
theorem ClassView.Ordered.asymm {classes : ClassView} (h : classes.Ordered) {c d : NodeId}
    (hcd : classes.isSubclass c d = true) : classes.isSubclass d c = false := by
  refine Bool.eq_false_iff.mpr fun hdc => ?_
  have hself := h.trans c d c hcd hdc
  rw [h.irrefl] at hself
  cases hself

namespace Tree

open Relation

variable {t : Tree}

/-- The classes above the first on a path are those that its prefixes lead to. -/
theorem PrefixPath.mem_tail_iff {c d : NodeId} {path : List NodeId} (h : t.PrefixPath c path) :
    d ∈ path.tail ↔ TransGen (fun a b => t.prefixClass? a = some b) c d := by
  induction h with
  | ends hc =>
    refine iff_of_false List.not_mem_nil fun hlead => ?_
    obtain ⟨b, hb, -⟩ := TransGen.head'_iff.mp hlead
    rw [hc] at hb
    cases hb
  | @next c p path hc hp ih =>
    obtain ⟨rest, rfl⟩ := hp.head
    rw [List.tail_cons, List.mem_cons, TransGen.head'_iff]
    constructor
    · rintro (rfl | hd)
      · exact ⟨d, hc, .refl⟩
      · exact ⟨p, hc, (ih.mp hd).to_reflTransGen⟩
    · rintro ⟨b, hb, hlead⟩
      cases hc.symm.trans hb
      rcases reflTransGen_iff_eq_or_transGen.mp hlead with rfl | hlead
      · exact .inl rfl
      · exact .inr (ih.mpr hlead)

/-- Without cycles the subclasses of a class are those whose prefixes lead to it, however long the
way is. -/
theorem AcyclicPrefixes.isSubclass_iff (h : t.AcyclicPrefixes) {c d : NodeId} :
    t.isSubclass c d = true ↔ TransGen (fun a b => t.prefixClass? a = some b) c d := by
  obtain ⟨path, hpath⟩ := h.exists_prefixPath c
  rw [isSubclass, hpath.prefixChain_eq, List.contains_iff_mem, hpath.mem_tail_iff]

/-- Without circular prefixes the classes are ordered, as every scope sees them. -/
theorem AcyclicPrefixes.ordered_classView (h : t.AcyclicPrefixes) (scope : NodeId) :
    (t.classView scope).Ordered where
  irrefl c := Bool.eq_false_iff.mpr fun hself => h c (h.isSubclass_iff.mp hself)
  trans _ _ _ hcd hde :=
    h.isSubclass_iff.mpr ((h.isSubclass_iff.mp hcd).trans (h.isSubclass_iff.mp hde))

end Tree

namespace Ty

variable {classes : ClassView} {a b c : Ty}

/-! ## References -/

/-- A reference type is below another if it is that of `none`, or if both identifiers denote classes
of which the first is a subclass of the second. -/
theorem isSubReference_iff : a.isSubReference classes b = true ↔
    (a = none ∧ b.isReference = true) ∨ ∃ x y d e, a = reference x ∧ b = reference y ∧
      classes.find x = some d ∧ classes.find y = some e ∧ classes.isSubclass d e = true := by
  rcases a with _ | _ | _ | _ | _ | _ | _ | ⟨_ | x⟩ | _ | _
  case ref.some =>
    rcases b with _ | _ | _ | _ | _ | _ | _ | ⟨_ | y⟩ | _ | _
    case ref.some =>
      simp only [isSubReference]
      cases hx : classes.find x <;> cases hy : classes.find y <;>
        simp_all [none, reference]
    all_goals simp [isSubReference, none, reference]
  case ref.none => cases b <;> simp [isSubReference, none, reference, isReference]
  all_goals simp [isSubReference, none, reference]

/-- Only references are subordinate to references. -/
theorem isReference_of_isSubReference (h : a.isSubReference classes b = true) :
    a.isReference = true ∧ b.isReference = true := by
  rcases isSubReference_iff.mp h with ⟨rfl, hb⟩ | ⟨x, y, d, e, rfl, rfl, -⟩
  · exact ⟨rfl, hb⟩
  · exact ⟨rfl, rfl⟩

/-- The reference to nothing is subordinate to all references. -/
theorem isSubReference_none (h : b.isReference = true) : none.isSubReference classes b = true :=
  isSubReference_iff.mpr (.inl ⟨rfl, h⟩)

/-- Nothing else is subordinate to it. -/
theorem eq_none_of_isSubReference_none (h : a.isSubReference classes none = true) : a = none := by
  rcases isSubReference_iff.mp h with ⟨rfl, -⟩ | ⟨x, y, d, e, -, hy, -⟩
  · rfl
  · cases hy

section

variable (hclasses : classes.Ordered)
include hclasses

/-- What is subordinate to a subordinate reference is subordinate. -/
theorem isSubReference_trans (hab : a.isSubReference classes b = true)
    (hbc : b.isSubReference classes c = true) : a.isSubReference classes c = true := by
  rcases isSubReference_iff.mp hab with ⟨rfl, -⟩ | ⟨x, y, d, e, rfl, rfl, hx, hy, hde⟩
  · exact isSubReference_none (isReference_of_isSubReference hbc).2
  rcases isSubReference_iff.mp hbc with ⟨hnone, -⟩ | ⟨y', z, e', f, hsame, rfl, hy', hz, hef⟩
  · cases hnone
  cases hsame
  cases hy.symm.trans hy'
  exact isSubReference_iff.mpr (.inr ⟨x, z, d, f, rfl, rfl, hx, hz, hclasses.trans d e f hde hef⟩)

/-- Only `none` is below something that is below it. -/
theorem isSubReference_asymm (ha : a ≠ none) (hab : a.isSubReference classes b = true) :
    b.isSubReference classes a = false := by
  refine Bool.eq_false_iff.mpr fun hba => ?_
  rcases isSubReference_iff.mp hab with ⟨hnone, -⟩ | ⟨x, y, d, e, rfl, rfl, hx, hy, hde⟩
  · exact ha hnone
  rcases isSubReference_iff.mp hba with ⟨hnone, -⟩ | ⟨y', x', e', d', hy', hx', he', hd', hed⟩
  · cases hnone
  cases hy'
  cases hx'
  cases hx.symm.trans hd'
  cases hy.symm.trans he'
  rw [hclasses.asymm hde] at hed
  cases hed

/-- No reference to an object is subordinate to itself. -/
theorem isSubReference_irrefl (ha : a ≠ none) : a.isSubReference classes a = false := by
  refine Bool.eq_false_iff.mpr fun hself => ?_
  have hnot := isSubReference_asymm hclasses ha hself
  rw [hself] at hnot
  cases hnot

/-- Of two different reference types at most one is below the other. -/
theorem isSubReference_asymm_of_same (hsame : a.same b = false)
    (hab : a.isSubReference classes b = true) : b.isSubReference classes a = false := by
  by_cases ha : a = none
  · subst ha
    refine Bool.eq_false_iff.mpr fun hba => ?_
    rw [eq_none_of_isSubReference_none hba, same_self] at hsame
    cases hsame
  · exact isSubReference_asymm hclasses ha hab

end

/-! ## Conversions -/

/-- Types are the same in either order. -/
theorem same_comm (a b : Ty) : a.same b = b.same a := by
  rw [Bool.eq_iff_iff, same_iff, same_iff]
  exact eq_comm

/-- References are not arithmetic. -/
theorem isArithmetic_of_isReference (h : a.isReference = true) : a.isArithmetic = false := by
  cases a <;> first | rfl | cases h

/-- A value reaches a variable of known type freely if the types are the same or the type of the
value is below. -/
theorem conversionTo_eq_direct (hb : b ≠ undefined) :
    a.conversionTo classes b = .directAssignable ↔
      a.same b = true ∨ a.isSubReference classes b = true := by
  have hdefined : b.isUndefined = false := Bool.eq_false_iff.mpr (mt isUndefined_iff.mp hb)
  rw [conversionTo, hdefined, Bool.false_or]
  by_cases hsame : a.same b = true
  · rw [if_pos hsame]
    exact iff_of_true rfl (.inl hsame)
  rw [if_neg hsame]
  by_cases hsub : a.isSubReference classes b = true
  · have hreference := (isReference_of_isSubReference hsub).1
    rw [isArithmetic_of_isReference hreference, Bool.false_and, if_neg Bool.false_ne_true,
      if_pos hsub]
    exact iff_of_true rfl (.inr hsub)
  · refine iff_of_false ?_ (not_or.mpr ⟨hsame, hsub⟩)
    rw [if_neg hsub]
    split
    · exact nofun
    · split <;> exact nofun

/-- It does not reach it at all if the types are not the same, not both numbers, and neither is
below the other. -/
theorem conversionTo_eq_illegal (hb : b ≠ undefined) :
    a.conversionTo classes b = .illegal ↔ a.same b = false ∧
      (a.isArithmetic && b.isArithmetic) = false ∧ a.isSubReference classes b = false ∧
      b.isSubReference classes a = false := by
  have hdefined : b.isUndefined = false := Bool.eq_false_iff.mpr (mt isUndefined_iff.mp hb)
  rw [conversionTo, hdefined, Bool.false_or]
  grind

/-- It reaches it with a test if the type of the variable is below, and not the other way round. -/
theorem conversionTo_eq_convertRef (hb : b ≠ undefined) :
    a.conversionTo classes b = .convertRef ↔ a.same b = false ∧
      a.isSubReference classes b = false ∧ b.isSubReference classes a = true := by
  have hdefined : b.isUndefined = false := Bool.eq_false_iff.mpr (mt isUndefined_iff.mp hb)
  have hnumber : b.isSubReference classes a = true → (a.isArithmetic && b.isArithmetic) = false :=
    fun hsub => by
      rw [isArithmetic_of_isReference (isReference_of_isSubReference hsub).2, Bool.false_and]
  rw [conversionTo, hdefined, Bool.false_or]
  grind

/-- The free and the tested direction. -/
theorem conversionTo_convertRef_iff (hclasses : classes.Ordered) (ha : a ≠ undefined)
    (hb : b ≠ undefined) : a.conversionTo classes b = .convertRef ↔
      a.isReference = true ∧ b.isReference = true ∧ a.same b = false ∧
      b.conversionTo classes a = .directAssignable := by
  rw [conversionTo_eq_convertRef hb, conversionTo_eq_direct ha, same_comm b a]
  constructor
  · rintro ⟨hsame, -, hsub⟩
    obtain ⟨hb, ha⟩ := isReference_of_isSubReference hsub
    exact ⟨ha, hb, hsame, .inr hsub⟩
  · rintro ⟨-, -, hsame, hdirect⟩
    have hsub := hdirect.resolve_left (Bool.eq_false_iff.mp hsame)
    exact ⟨hsame, isSubReference_asymm_of_same hclasses (same_comm a b ▸ hsame) hsub, hsub⟩

/-! ## Common types -/

/-- Arithmetic types of one rank are equal. -/
theorem eq_of_arithmeticRank {n : Nat} (ha : a.arithmeticRank = some n)
    (hb : b.arithmeticRank = some n) : a = b := by
  cases a <;> cases ha <;> cases b <;> first | rfl | cases hb

/-- Arithmetic types that are the same are equal. -/
theorem eq_of_same_of_isArithmetic (ha : a.isArithmetic = true) (h : a.same b = true) : a = b := by
  rw [same_iff] at h
  cases a with
  | integer | real | longReal => cases b <;> first | rfl | cases h
  | _ => cases ha

/-- Two numbers have the dominant of the two as common type. -/
theorem common_of_arithmeticRank {m n : Nat} (ha : a.arithmeticRank = some m)
    (hb : b.arithmeticRank = some n) : a.common classes b = some (if n ≤ m then a else b) := by
  rw [common]
  by_cases hsame : a.same b = true
  · obtain rfl := eq_of_same_of_isArithmetic (by rw [isArithmetic, ha]; rfl) hsame
    rw [if_pos hsame, ite_self]
  · rw [if_neg hsame, ha, hb]

/-- Two types that are not both numbers have a common type if one is below the other. -/
theorem common_of_not_arithmetic (hsame : a.same b = false)
    (h : (a.isArithmetic && b.isArithmetic) = false) : a.common classes b =
      if a.isSubReference classes b then some b
      else if b.isSubReference classes a then some a else Option.none := by
  rw [common, if_neg (Bool.eq_false_iff.mp hsame)]
  rw [isArithmetic, isArithmetic] at h
  cases ha : a.arithmeticRank with
  | none => rfl
  | some m =>
    cases hb : b.arithmeticRank with
    | none => rfl
    | some n => rw [ha, hb] at h; cases h

/-- The common type does not depend on the order of the operands. -/
theorem common_comm (hclasses : classes.Ordered) (a b : Ty) :
    Option.Rel (fun c d => c.same d = true) (a.common classes b) (b.common classes a) := by
  cases hsame : a.same b with
  | true =>
    rw [common, common, if_pos hsame, if_pos (same_comm a b ▸ hsame)]
    exact .some hsame
  | false =>
    cases hnumbers : a.isArithmetic && b.isArithmetic with
    | true =>
      obtain ⟨ha, hb⟩ := Bool.and_eq_true_iff.mp hnumbers
      obtain ⟨m, hm⟩ := Option.isSome_iff_exists.mp ha
      obtain ⟨n, hn⟩ := Option.isSome_iff_exists.mp hb
      have hne : m ≠ n := by
        rintro rfl
        rw [eq_of_arithmeticRank hm hn, same_self] at hsame
        cases hsame
      rw [common_of_arithmeticRank hm hn, common_of_arithmeticRank hn hm]
      rcases Nat.lt_or_gt_of_ne hne with hlt | hlt
      · rw [if_neg (Nat.not_le.mpr hlt), if_pos (Nat.le_of_lt hlt)]
        exact .some (same_self b)
      · rw [if_pos (Nat.le_of_lt hlt), if_neg (Nat.not_le.mpr hlt)]
        exact .some (same_self a)
    | false =>
      rw [common_of_not_arithmetic hsame hnumbers,
        common_of_not_arithmetic (same_comm a b ▸ hsame) (Bool.and_comm _ _ ▸ hnumbers)]
      by_cases hab : a.isSubReference classes b = true
      · have hba := isSubReference_asymm_of_same hclasses hsame hab
        rw [if_pos hab, if_neg (Bool.eq_false_iff.mp hba), if_pos hab]
        exact .some (same_self b)
      rw [if_neg hab, if_neg hab]
      split
      · exact .some (same_self a)
      · exact .none

/-- A value reaches a variable with no test and no refusal. -/
def ConvertsFreely (classes : ClassView) (a b : Ty) : Prop :=
  a.conversionTo classes b ≠ .illegal ∧ a.conversionTo classes b ≠ .convertRef

/-- What can be assigned directly is converted freely. -/
theorem ConvertsFreely.of_direct (h : a.conversionTo classes b = .directAssignable) :
    a.ConvertsFreely classes b := by
  rw [ConvertsFreely, h]
  exact ⟨nofun, nofun⟩

/-- A type is converted freely to itself. -/
theorem convertsFreely_of_same (h : a.same b = true) : a.ConvertsFreely classes b :=
  .of_direct (by rw [conversionTo, h, Bool.or_true, if_pos rfl])

/-- A subordinate reference is converted freely. -/
theorem convertsFreely_of_isSubReference (h : a.isSubReference classes b = true) :
    a.ConvertsFreely classes b := by
  refine .of_direct ((conversionTo_eq_direct ?_).mpr (.inr h))
  rintro rfl
  cases (isReference_of_isSubReference h).2

/-- Numbers are converted freely. -/
theorem convertsFreely_of_isArithmetic (ha : a.isArithmetic = true) (hb : b.isArithmetic = true) :
    a.ConvertsFreely classes b := by
  rw [ConvertsFreely, conversionTo, ha, hb, Bool.and_true]
  split
  · exact ⟨nofun, nofun⟩
  · rw [if_pos rfl]
    exact ⟨nofun, nofun⟩

/-- The common type is that of one operand, and both reach it freely. -/
theorem common_eq_some (h : a.common classes b = some c) :
    (c = a ∨ c = b) ∧ a.ConvertsFreely classes c ∧ b.ConvertsFreely classes c := by
  have hself : ∀ a : Ty, a.ConvertsFreely classes a := fun a => convertsFreely_of_same (same_self a)
  cases hsame : a.same b with
  | true =>
    rw [common, if_pos hsame] at h
    cases h
    exact ⟨.inl rfl, hself a, convertsFreely_of_same (same_comm a b ▸ hsame)⟩
  | false =>
    cases hnumbers : a.isArithmetic && b.isArithmetic with
    | true =>
      obtain ⟨ha, hb⟩ := Bool.and_eq_true_iff.mp hnumbers
      obtain ⟨m, hm⟩ := Option.isSome_iff_exists.mp ha
      obtain ⟨n, hn⟩ := Option.isSome_iff_exists.mp hb
      rw [common_of_arithmeticRank hm hn] at h
      split at h <;> cases h
      · exact ⟨.inl rfl, hself a, convertsFreely_of_isArithmetic hb ha⟩
      · exact ⟨.inr rfl, convertsFreely_of_isArithmetic ha hb, hself b⟩
    | false =>
      rw [common_of_not_arithmetic hsame hnumbers] at h
      split at h
      · next hab =>
        cases h
        exact ⟨.inr rfl, convertsFreely_of_isSubReference hab, hself b⟩
      · split at h <;> cases h
        next hba => exact ⟨.inl rfl, hself a, convertsFreely_of_isSubReference hba⟩

end Ty

/-- **The order of types.** Seen from any scope of a tree in which no class is a prefix of itself, a
qualified reference type is below another if its class leads to that of the other along prefixes.
This is transitive and, but for `none`, irreflexive and asymmetric, and `none` is below every
reference type. Two known types convert in both directions or in none, and one of two reference
types converts to the other with a test exactly if they differ and it is free the other way round.
Common types do not depend on the order of the operands. They are the type of one operand, and
neither operand needs a test to get there. -/
theorem Ty.conversion_laws {t : Tree} (h : t.AcyclicPrefixes) (scope : NodeId) :
    (∀ x y, (reference x).isSubReference (t.classView scope) (reference y) = true ↔
      ∃ c d, t.lookupClass scope x = some c ∧ t.lookupClass scope y = some d ∧
        Relation.TransGen (fun a b => t.prefixClass? a = some b) c d) ∧
    (∀ a b c : Ty, a.isSubReference (t.classView scope) b = true →
      b.isSubReference (t.classView scope) c = true →
      a.isSubReference (t.classView scope) c = true) ∧
    (∀ a : Ty, a ≠ none → a.isSubReference (t.classView scope) a = false) ∧
    (∀ a b : Ty, a ≠ none → a.isSubReference (t.classView scope) b = true →
      b.isSubReference (t.classView scope) a = false) ∧
    (∀ b : Ty, b.isReference = true → none.isSubReference (t.classView scope) b = true) ∧
    (∀ a b : Ty, a ≠ undefined → b ≠ undefined →
      (a.conversionTo (t.classView scope) b = .illegal ↔
        b.conversionTo (t.classView scope) a = .illegal) ∧
      (a.conversionTo (t.classView scope) b = .convertRef ↔
        a.isReference = true ∧ b.isReference = true ∧ a.same b = false ∧
          b.conversionTo (t.classView scope) a = .directAssignable)) ∧
    (∀ a b : Ty, Option.Rel (fun c d => c.same d = true) (a.common (t.classView scope) b)
      (b.common (t.classView scope) a)) ∧
    ∀ a b c : Ty, a.common (t.classView scope) b = some c →
      (c = a ∨ c = b) ∧ a.ConvertsFreely (t.classView scope) c ∧
        b.ConvertsFreely (t.classView scope) c := by
  have hordered := h.ordered_classView scope
  refine ⟨fun x y => ?_, fun _ _ _ => isSubReference_trans hordered,
    fun _ => isSubReference_irrefl hordered, fun _ _ => isSubReference_asymm hordered,
    fun _ => isSubReference_none, fun a b ha hb => ⟨?_, conversionTo_convertRef_iff hordered ha hb⟩,
    common_comm hordered, fun _ _ _ => common_eq_some⟩
  · rw [isSubReference_iff]
    constructor
    · rintro (⟨hnone, -⟩ | ⟨_, _, c, d, hx', hy', hx, hy, hsub⟩)
      · cases hnone
      · cases hx'
        cases hy'
        exact ⟨c, d, hx, hy, h.isSubclass_iff.mp hsub⟩
    · rintro ⟨c, d, hx, hy, hlead⟩
      exact .inr ⟨x, y, c, d, rfl, rfl, hx, hy, h.isSubclass_iff.mpr hlead⟩
  · rw [conversionTo_eq_illegal hb, conversionTo_eq_illegal ha, same_comm b a, Bool.and_comm]
    exact and_congr_right fun _ => and_congr_right fun _ => And.comm

/-- A block with the classes `VEHICLE`, `CAR` and `TAXI`, each the prefix of the next, and a class
`ANIMAL` beside them. -/
def vehicles : Tree := { nodes := #[
  ⟨1, .declaration "MAIN" none (.block
    { declarations := ⟨#[("VEHICLE", 1), ("CAR", 2), ("TAXI", 3), ("ANIMAL", 4)]⟩ })⟩,
  ⟨2, .declaration "VEHICLE" (some 0) (.classDeclaration {})⟩,
  ⟨3, .declaration "CAR" (some 0) (.classDeclaration { prefixClass := some 1 })⟩,
  ⟨4, .declaration "TAXI" (some 0) (.classDeclaration { prefixClass := some 2 })⟩,
  ⟨5, .declaration "ANIMAL" (some 0) (.classDeclaration {})⟩] }

/-- A taxi is a vehicle because it is a car. So a vehicle becomes a taxi with a test only, both have
the type of vehicles in common, and no vehicle becomes an animal because no animal becomes one. -/
theorem Ty.conversion_laws_vehicles :
    vehicles.AcyclicPrefixes ∧
    (reference "Taxi").isSubReference (vehicles.classView 0) (reference "Vehicle") = true ∧
    (reference "Vehicle").conversionTo (vehicles.classView 0) (reference "Taxi") = .convertRef ∧
    (reference "Vehicle").conversionTo (vehicles.classView 0) (reference "Animal") = .illegal ∧
    (reference "Taxi").ConvertsFreely (vehicles.classView 0) (reference "Vehicle") := by
  have hacyclic : vehicles.AcyclicPrefixes := Tree.acyclicPrefixes_of_lt (by decide)
  obtain ⟨-, htrans, -, -, -, hconvert, -, hcommon⟩ := conversion_laws hacyclic 0
  have htaxi : (reference "Taxi").isSubReference (vehicles.classView 0) (reference "Vehicle") =
      true := htrans _ (reference "Car") _ (by decide +kernel) (by decide +kernel)
  have hdefined : ∀ x, reference x ≠ undefined := nofun
  have hdirect : (reference "Taxi").conversionTo (vehicles.classView 0) (reference "Vehicle") =
      .directAssignable := (conversionTo_eq_direct (hdefined _)).mpr (.inr htaxi)
  obtain ⟨-, htest⟩ := hconvert (reference "Vehicle") (reference "Taxi") (hdefined _) (hdefined _)
  obtain ⟨hrefused, -⟩ :=
    hconvert (reference "Vehicle") (reference "Animal") (hdefined _) (hdefined _)
  refine ⟨hacyclic, htaxi, htest.mpr ⟨rfl, rfl, by decide +kernel, hdirect⟩,
    hrefused.mpr (by decide +kernel), ?_⟩
  exact (hcommon _ (reference "Vehicle") _ (by decide +kernel)).2.1

end Simula
