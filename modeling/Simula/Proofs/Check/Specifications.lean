import Simula.Proofs.Check.Regrowth
import Simula.Proofs.Meaning.Masking

/-!
# Pairing specifications keeps the meaning of identifiers

A lookup that meets a hidden specification goes on behind the class that owns the protected one. It
takes the one that is recorded, or looks for it if none is. Pairing records what such a search
finds, so it makes no difference to a lookup whether the specifications of a class have been paired
yet. What has to be kept along the way is that every recorded pair is the one that a search would
find, and a hidden specification that stands in the list of two classes could break this.
-/

namespace Simula

/-! ## Trees that differ in their pairs -/

/-- A node without the links between hidden and protected specifications. -/
def NodeData.unpaired : NodeData → NodeData
  | declaration identifier scope (.hiddenSpec _) => declaration identifier scope (.hiddenSpec none)
  | declaration identifier scope (.protectedSpec _) =>
    declaration identifier scope (.protectedSpec none)
  | d => d

/-- What is paired with a specification is no part of its offer. -/
theorem NodeData.offered_unpaired (d : NodeData) : d.unpaired.offered = d.offered := by
  rcases d with _ | ⟨_, _, form⟩ | _ | _ | _
  case declaration => cases form <;> rfl
  all_goals rfl

/-- Nor is it a part of a class. -/
theorem NodeData.class?_unpaired (d : NodeData) : d.unpaired.class? = d.class? := by
  rcases d with _ | ⟨_, _, form⟩ | _ | _ | _
  case declaration => cases form <;> rfl
  all_goals rfl

/-- A hidden specification without its pair does not show which it had. -/
theorem NodeData.unpaired_withProtectedBy (p : NodeId) (d : NodeData) :
    (CheckState.withProtectedBy p d).unpaired = d.unpaired :=
  view_withProtectedBy d fun _ _ _ => rfl

/-- Nor does a protected one. -/
theorem NodeData.unpaired_withHiddenBy (h : NodeId) (d : NodeData) :
    (CheckState.withHiddenBy h d).unpaired = d.unpaired :=
  view_withHiddenBy d fun _ _ _ => rfl

/-- Recording the hidden specification of a protected one touches no pair. -/
theorem NodeData.protectedBy?_withHiddenBy (h : NodeId) (d : NodeData) :
    (CheckState.withHiddenBy h d).protectedBy? = d.protectedBy? :=
  view_withHiddenBy d fun _ _ _ => rfl

/-- The pair of a hidden specification is the one recorded last. -/
theorem NodeData.protectedBy?_withProtectedBy {p q : NodeId} {d : NodeData}
    (h : (CheckState.withProtectedBy p d).protectedBy? = some q) :
    q = p ∨ d.protectedBy? = some q := by
  rcases d with _ | ⟨_, _, form⟩ | _ | _ | _
  case declaration =>
    cases form with
    | hiddenSpec => exact .inl (Option.some.inj h).symm
    | _ => exact .inr h
  all_goals exact .inr h

namespace Tree

/-- The trees differ at most in which hidden and protected specifications are linked. -/
structure Paired (t t' : Tree) : Prop where
  caseRule : t'.caseRule = t.caseRule
  size : t'.size = t.size
  line : ∀ id, t'.line id = t.line id
  unpaired : ∀ id, (t'.data id).unpaired = (t.data id).unpaired

/-- The hidden specifications in the list of a class. -/
def hiddenSpecs (t : Tree) (c : NodeId) : List NodeId :=
  match t.class? c with
  | some parts => parts.hidden.toList
  | none => []

/-- The identifier of a specification. -/
def specifiedName (t : Tree) (spec : NodeId) : String := (t.identifier? spec).getD ""

/-- The hidden specifications of a class for which there is no protected one. -/
def unmatched (t : Tree) (c : NodeId) : List NodeId :=
  (t.hiddenSpecs c).filter fun h => (t.findProtected c (t.specifiedName h)).isNone

/-- What is reported of a hidden specification for which there is no protected one. -/
def unmatchedReport (t : Tree) (h : NodeId) : Diagnostic :=
  (Finding.hiddenUnprotected (t.specifiedName h)).onLine (t.line h)

namespace Paired

variable {t t₁ t₂ t' : Tree}

/-- A tree differs in no pair from itself. -/
theorem refl (t : Tree) : t.Paired t := ⟨rfl, rfl, fun _ => rfl, fun _ => rfl⟩

/-- Trees that are paired one after the other are paired. -/
theorem trans (h : t.Paired t₁) (h' : t₁.Paired t₂) : t.Paired t₂ where
  caseRule := h'.caseRule.trans h.caseRule
  size := h'.size.trans h.size
  line id := (h'.line id).trans (h.line id)
  unpaired id := (h'.unpaired id).trans (h.unpaired id)

/-- A change that only links specifications. -/
theorem update (t : Tree) (id : NodeId) {f : NodeData → NodeData}
    (hf : ∀ d, (f d).unpaired = d.unpaired) : t.Paired (t.update id f) where
  caseRule := rfl
  size := size_update ..
  line _ := line_update ..
  unpaired i := view_update t id hf i

section

variable (h : t.Paired t')
include h

/-- Whatever is told from a node without those links is the same in both trees. -/
theorem read {β : Type} (f : NodeData → β) (hf : ∀ d, f d.unpaired = f d) (id : NodeId) :
    f (t'.data id) = f (t.data id) := by
  rw [← hf, h.unpaired, hf]

/-- Classes have the same parts. -/
theorem class? (id : NodeId) : t'.class? id = t.class? id := h.read _ NodeData.class?_unpaired id

/-- Scopes and prefix chains are the same. -/
theorem sameScopes : t.SameScopes t' where
  offers := ⟨h.caseRule, h.read _ NodeData.offered_unpaired⟩
  size_le := Nat.le_of_eq h.size.symm
  expression hlt := absurd h.size (Nat.ne_of_gt hlt)
  prefixClass id := by rw [prefixClass?, prefixClass?, h.class?]
  declaredIn := by
    refine h.read _ fun d => ?_
    rcases d with _ | ⟨_, _, form⟩ | _ | _ | _
    case declaration => cases form <;> rfl
    all_goals rfl
  searched id := by
    refine h.read (·.searchedClass? id) (fun d => ?_) id
    rcases d with _ | ⟨_, _, form⟩ | _ | _ | _
    case declaration => cases form <;> rfl
    all_goals rfl

/-- Nodes have the same identifiers. -/
theorem identifier? (id : NodeId) : t'.identifier? id = t.identifier? id :=
  h.sameScopes.offers.read _ NodeData.identifier?_offered id

/-- Classes list the same hidden specifications. -/
theorem hiddenSpecs (c : NodeId) : t'.hiddenSpecs c = t.hiddenSpecs c := by
  rw [Tree.hiddenSpecs, Tree.hiddenSpecs, h.class?]

/-- Specifications have the same names. -/
theorem specifiedName : t'.specifiedName = t.specifiedName := by
  funext spec
  rw [Tree.specifiedName, Tree.specifiedName, h.identifier?]

/-- Classes have the same specifications without a pair. -/
theorem unmatched (c : NodeId) : t'.unmatched c = t.unmatched c := by
  simp only [Tree.unmatched, h.hiddenSpecs, h.specifiedName, h.sameScopes.findProtected]

/-- The same is reported of them. -/
theorem unmatchedReport : t'.unmatchedReport = t.unmatchedReport := by
  funext spec
  rw [Tree.unmatchedReport, Tree.unmatchedReport, h.specifiedName, h.line]

/-- Where all recorded pairs belong together, a hidden identifier leads behind the same class
whatever is recorded. -/
theorem goesOnBehind? (hpairs : t.PairsRecorded) (hpairs' : t'.PairsRecorded) {x : String}
    (outside : Bool) (c : NodeId) : t'.goesOnBehind? x outside c = t.goesOnBehind? x outside c := by
  have hscopes := h.sameScopes
  have hdeclaredIn : t'.declaredIn? = t.declaredIn? := funext hscopes.declaredIn
  have hhidden : t'.hiddenSpec? c x = t.hiddenSpec? c x := hscopes.offers.hiddenSpec? c x
  rw [Tree.goesOnBehind?, Tree.goesOnBehind?, hhidden, hscopes.offers.lookupLocal]
  cases hspec : if outside then t.hiddenSpec? c x else none with
  | none => rfl
  | some spec =>
    have hfound : t.hiddenSpec? c x = some spec := by
      cases outside with
      | false => cases hspec
      | true => exact hspec
    dsimp only
    rw [hpairs'.protectedDeclarer_eq (hhidden.trans hfound), hpairs.protectedDeclarer_eq hfound,
      hscopes.findProtected, hdeclaredIn]

end

end Paired

/-- No hidden specification stands in the lists of two classes. -/
def HiddenApart (t : Tree) : Prop :=
  ∀ c d h, h ∈ t.hiddenSpecs c → h ∈ t.hiddenSpecs d → c = d

/-- No two classes share a hidden specification if none did before. -/
theorem Paired.hiddenApart {t t' : Tree} (h : t.Paired t') (hapart : t.HiddenApart) :
    t'.HiddenApart := by
  intro c d spec hc hd
  rw [h.hiddenSpecs] at hc hd
  exact hapart c d spec hc hd

/-- What a hidden specification records after a pair has been linked. -/
theorem protectedBy?_link {t : Tree} {h p spec q : NodeId}
    (hq : ((t.update h (CheckState.withProtectedBy p)).update p
      (CheckState.withHiddenBy h)).protectedBy? spec = some q) :
    spec = h ∧ q = p ∨ t.protectedBy? spec = some q := by
  have hlinked : ((t.update h (CheckState.withProtectedBy p)).data spec).protectedBy? = some q := by
    rw [← hq]
    exact (view_update _ p (NodeData.protectedBy?_withHiddenBy h) spec).symm
  by_cases hspec : spec = h
  · subst hspec
    by_cases hlt : spec < t.size
    · rw [data_update_self _ hlt] at hlinked
      rcases NodeData.protectedBy?_withProtectedBy hlinked with rfl | hold
      · exact .inl ⟨rfl, rfl⟩
      · exact .inr hold
    · rw [data_of_size_le (by simpa using hlt)] at hlinked
      cases hlinked
  · rw [data_update_of_ne _ hspec] at hlinked
    exact .inr hlinked

end Tree

/-! ## One specification -/

namespace CheckState

/-- The second state comes from the first by pairing hidden specifications. Pairs that belong
together are recorded only, and the specifications without a partner are reported. -/
structure Pairs (s s' : CheckState) (unmatched : List NodeId) : Prop where
  paired : s.tree.Paired s'.tree
  recorded : s.tree.HiddenApart → s.tree.PairsRecorded → s'.tree.PairsRecorded
  reports : s'.diagnostics.coded "E0103" =
    s.diagnostics.coded "E0103" ++ unmatched.map s.tree.unmatchedReport

namespace Pairs

/-- No pair is recorded by doing nothing. -/
theorem refl (s : CheckState) : s.Pairs s [] :=
  ⟨.refl s.tree, fun _ hpairs => hpairs, (List.append_nil _).symm⟩

/-- Classes can be paired one after the other, and what is left without a pair adds up. -/
theorem trans {s s₁ s₂ : CheckState} {unmatched unmatched' : List NodeId}
    (h : s.Pairs s₁ unmatched) (h' : s₁.Pairs s₂ unmatched') :
    s.Pairs s₂ (unmatched ++ unmatched') where
  paired := h.paired.trans h'.paired
  recorded hapart hpairs := h'.recorded (h.paired.hiddenApart hapart) (h.recorded hapart hpairs)
  reports := by
    rw [h'.reports, h.reports, h.paired.unmatchedReport, List.map_append, List.append_assoc]

end Pairs

variable {s : CheckState} {c h : NodeId}

/-- One hidden specification is linked with the protected one, or reported. -/
theorem pairHidden_pairs (hmem : h ∈ s.tree.hiddenSpecs c) :
    s.Pairs (pairHidden c s h)
      ([h].filter fun h => (s.tree.findProtected c (s.tree.specifiedName h)).isNone) := by
  cases hp : s.tree.findProtected c (s.tree.specifiedName h) with
  | none =>
    have hreport : (pairHidden c s h) = { s with
        diagnostics := s.diagnostics.report (s.tree.unmatchedReport h) } := by
      rw [Tree.specifiedName] at hp
      simp only [pairHidden, hp]
      rfl
    rw [hreport]
    refine ⟨.refl s.tree, fun _ hpairs => hpairs, ?_⟩
    rw [Diagnostics.coded_report rfl]
    simp [hp]
  | some p =>
    have hlink : pairHidden c s h =
        (s.update h (withProtectedBy p)).update p (withHiddenBy h) := by
      rw [Tree.specifiedName] at hp
      simp only [pairHidden, hp]
    have hpaired : s.tree.Paired (pairHidden c s h).tree := by
      rw [hlink]
      exact (Tree.Paired.update s.tree h (NodeData.unpaired_withProtectedBy p)).trans
        (.update _ p (NodeData.unpaired_withHiddenBy h))
    refine ⟨hpaired, fun hapart hpairs d parts hparts spec hspec i hi q hq => ?_, ?_⟩
    · rw [hpaired.class?] at hparts
      rw [hpaired.identifier?] at hi
      rw [hpaired.sameScopes.findProtected]
      rw [hlink] at hq
      rcases Tree.protectedBy?_link hq with ⟨rfl, rfl⟩ | hq
      · -- The specification is listed in this class, so it is in no other.
        have hlisted : spec ∈ s.tree.hiddenSpecs d := by
          rw [Tree.hiddenSpecs, hparts]
          exact Array.mem_toList_iff.mpr hspec
        obtain rfl := hapart c d spec hmem hlisted
        rw [Tree.specifiedName, hi] at hp
        exact hp
      · exact hpairs d parts hparts spec hspec i hi q hq
    · rw [hlink]
      simp [hp, update]

/-- Checking a protected specification records no pair. -/
theorem checkProtected_pairs (s : CheckState) (c p : NodeId) :
    s.Pairs (checkProtected c s p) [] := by
  rw [checkProtected]
  split
  · exact .refl s
  · refine ⟨.refl s.tree, fun _ hpairs => hpairs, ?_⟩
    rw [report, Diagnostics.coded_report_of_ne (by simp [Finding.onLine, Finding.code])]
    exact (List.append_nil _).symm

/-- Nor does checking a list of them. -/
theorem foldl_checkProtected_pairs (s : CheckState) (c : NodeId) (ps : List NodeId) :
    s.Pairs (ps.foldl (checkProtected c) s) [] := by
  induction ps generalizing s with
  | nil => exact .refl s
  | cons p ps ih => exact (s.checkProtected_pairs c p).trans (ih (checkProtected c s p))

/-! ## All specifications -/

/-- Pairing hidden specifications leaves those without a pair for which none is found. -/
theorem foldl_pairHidden_pairs {hs : List NodeId} (hsub : hs ⊆ s.tree.hiddenSpecs c) :
    s.Pairs (hs.foldl (pairHidden c) s)
      (hs.filter fun h => (s.tree.findProtected c (s.tree.specifiedName h)).isNone) := by
  induction hs generalizing s with
  | nil => exact .refl s
  | cons h hs ih =>
    rw [List.cons_subset] at hsub
    have hfirst := pairHidden_pairs hsub.1
    have hrest := ih (s := pairHidden c s h) (by rw [hfirst.paired.hiddenSpecs]; exact hsub.2)
    simp only [hfirst.paired.specifiedName, hfirst.paired.sameScopes.findProtected] at hrest
    have hall := hfirst.trans hrest
    rwa [← List.filter_append] at hall

/-- Pairing the specifications of a class leaves those for which no protected one is found. -/
theorem pairSpecifications_pairs (s : CheckState) (c : NodeId) :
    s.Pairs (s.pairSpecifications c) (s.tree.unmatched c) := by
  rw [pairSpecifications]
  cases hparts : s.tree.class? c with
  | none =>
    rw [Tree.unmatched, Tree.hiddenSpecs, hparts]
    exact .refl s
  | some parts =>
    have hlist : s.tree.hiddenSpecs c = parts.hidden.toList := by rw [Tree.hiddenSpecs, hparts]
    have hhidden := foldl_pairHidden_pairs (List.Subset.refl (s.tree.hiddenSpecs c))
    have hall := hhidden.trans (foldl_checkProtected_pairs _ c parts.guarded.toList)
    rw [List.append_nil, hlist] at hall
    rwa [Tree.unmatched, hlist]

/-- Pairing the specifications of classes leaves those without a pair for which none is found in
their class. -/
theorem forClasses_pairSpecifications_pairs (classes : List NodeId) (s : CheckState) :
    s.Pairs (s.forClasses pairSpecifications classes) (classes.flatMap s.tree.unmatched) := by
  induction classes generalizing s with
  | nil => exact .refl s
  | cons c classes ih =>
    have hfirst := s.pairSpecifications_pairs c
    have hrest := ih (s.pairSpecifications c)
    rw [funext hfirst.paired.unmatched] at hrest
    exact hfirst.trans hrest

end CheckState

/-! ## The meaning of identifiers -/

namespace Tree

/-- Every hidden specification that is listed stands in the list of one class, and no protected one
is recorded in any. -/
structure FreshSpecifications (t : Tree) : Prop where
  apart : t.HiddenApart
  unset : ∀ h, t.protectedBy? h = none

variable {t t' : Tree}

/-- A class with hidden specifications is in the tree. -/
theorem lt_of_mem_hiddenSpecs {c spec : NodeId} (h : spec ∈ t.hiddenSpecs c) : c < t.size := by
  rw [hiddenSpecs] at h
  split at h
  · next hparts => exact lt_of_class?_eq_some hparts
  · cases h

instance (t : Tree) : Decidable t.FreshSpecifications :=
  decidable_of_iff
    ((∀ c < t.size, ∀ h ∈ t.hiddenSpecs c, ∀ d < t.size, h ∈ t.hiddenSpecs d → c = d) ∧
      ∀ h < t.size, t.protectedBy? h = none) <| by
    refine ⟨fun ⟨hapart, hunset⟩ => ⟨fun c d h hc hd => ?_, fun h => ?_⟩,
      fun hfresh => ⟨fun c _ h hc d _ hd => hfresh.apart c d h hc hd,
        fun h _ => hfresh.unset h⟩⟩
    · exact hapart c (lt_of_mem_hiddenSpecs hc) h hc d (lt_of_mem_hiddenSpecs hd) hd
    · by_cases hlt : h < t.size
      · exact hunset h hlt
      · rw [protectedBy?, data_of_size_le (Nat.le_of_not_lt hlt)]

/-- Where no pair has been recorded, no wrong one has. -/
theorem FreshSpecifications.pairsRecorded (h : t.FreshSpecifications) : t.PairsRecorded := by
  intro c parts _ spec _ i _ p hp
  rw [h.unset] at hp
  cases hp

/-- The specifications of a class without a partner are those for which no search finds one. -/
theorem mem_unmatched {c spec : NodeId} : spec ∈ t.unmatched c ↔
    spec ∈ t.hiddenSpecs c ∧ t.findProtected c (t.specifiedName spec) = none := by
  rw [unmatched, List.mem_filter, Option.isNone_iff_eq_none]

/-- A specification without a partner is met as often as its class lists it. -/
theorem count_unmatched {c spec : NodeId} (h : spec ∈ t.unmatched c) :
    (t.unmatched c).count spec = (t.hiddenSpecs c).count spec :=
  List.count_filter (List.mem_filter.mp h).2

/-- A specification without a partner is met in the one class that lists it only. -/
theorem HiddenApart.count_flatMap_unmatched (h : t.HiddenApart) {classes : List NodeId}
    {c spec : NodeId} (hnodup : classes.Nodup) (hmem : c ∈ classes) (hspec : spec ∈ t.unmatched c) :
    (classes.flatMap t.unmatched).count spec = (t.unmatched c).count spec := by
  have hother : ∀ {d}, d ≠ c → spec ∉ t.unmatched d := fun hne hd =>
    hne (h _ _ spec (List.mem_of_mem_filter hd) (List.mem_of_mem_filter hspec))
  induction classes with
  | nil => cases hmem
  | cons d classes ih =>
    rw [List.nodup_cons] at hnodup
    rw [List.flatMap_cons, List.count_append]
    by_cases hd : d = c
    · subst hd
      have hrest : spec ∉ classes.flatMap t.unmatched := by
        rw [List.mem_flatMap]
        rintro ⟨e, he, hspec'⟩
        exact hother (fun heq => hnodup.1 (heq ▸ he)) hspec'
      rw [List.count_eq_zero.mpr hrest, Nat.add_zero]
    · rw [List.count_eq_zero.mpr (hother hd), Nat.zero_add]
      exact ih hnodup.2 ((List.mem_cons.mp hmem).resolve_left fun heq => hd heq.symm)

/-- Where no class lists a specification twice, different classes have different specifications
without a partner. -/
theorem HiddenApart.nodup_flatMap_unmatched (h : t.HiddenApart) {classes : List NodeId}
    (hnodup : classes.Nodup) (honce : ∀ c ∈ classes, (t.hiddenSpecs c).Nodup) :
    (classes.flatMap t.unmatched).Nodup := by
  rw [List.nodup_flatMap]
  refine ⟨fun c hc => (honce c hc).filter _, hnodup.imp fun {c d} hne => ?_⟩
  intro spec hc hd
  exact hne (h c d spec (List.mem_of_mem_filter hc) (List.mem_of_mem_filter hd))

/-- Trees that differ in pairs that belong together give identifiers the same meaning. -/
theorem Paired.sameMeaning (h : t.Paired t') (hpairs : t.PairsRecorded)
    (hpairs' : t'.PairsRecorded) :
    (∀ c x remote, t'.findAttribute c x remote = t.findAttribute c x remote) ∧
    (∀ scope x, t'.resolve scope x = t.resolve scope x) ∧
    ∀ scope c x, t'.resolveRemote scope c x = t.resolveRemote scope c x := by
  have hbehind : ∀ {x : String} outside c,
      t'.goesOnBehind? x outside c = t.goesOnBehind? x outside c :=
    fun outside c => h.goesOnBehind? hpairs hpairs' outside c
  have hscopes := h.sameScopes
  have hattribute : ∀ c x remote, t'.findAttribute c x remote = t.findAttribute c x remote :=
    fun c x remote => hscopes.findAttribute_eq (hscopes.sameSearch hbehind remote c)
  refine ⟨hattribute, fun scope x => hscopes.resolve_eq (hscopes.sameLookup hbehind scope),
    fun scope c x => ?_⟩
  simp only [resolveRemote, hattribute, hscopes.offers.effective]

end Tree

namespace CheckState

/-- **Pairing changes no meaning.** Let each hidden specification be listed by one class and record
nothing yet, and let the specifications of some classes be paired, class by class in any order. Then
every attribute search, every lookup and every access through a reference gives what it gave before.
Reported are those hidden specifications of these classes for which no protected one is found, each
as often as its class lists it. That is once if no class lists a specification twice. -/
theorem forClasses_pairSpecifications_keeps_meaning {s : CheckState} {classes : List NodeId}
    (hfresh : s.tree.FreshSpecifications) (hnodup : classes.Nodup) :
    let s' := s.forClasses pairSpecifications classes
    (∀ c x remote, s'.tree.findAttribute c x remote = s.tree.findAttribute c x remote) ∧
    (∀ scope x, s'.tree.resolve scope x = s.tree.resolve scope x) ∧
    (∀ scope c x, s'.tree.resolveRemote scope c x = s.tree.resolveRemote scope c x) ∧
    ∃ unmatched : List NodeId,
      s'.diagnostics.coded "E0103" =
        s.diagnostics.coded "E0103" ++ unmatched.map s.tree.unmatchedReport ∧
      (∀ h, h ∈ unmatched ↔ ∃ c ∈ classes, h ∈ s.tree.hiddenSpecs c ∧
        s.tree.findProtected c (s.tree.specifiedName h) = none) ∧
      (∀ c, ∀ h ∈ s.tree.hiddenSpecs c, h ∈ unmatched →
        unmatched.count h = (s.tree.hiddenSpecs c).count h) ∧
      ((∀ c ∈ classes, (s.tree.hiddenSpecs c).Nodup) → unmatched.Nodup) := by
  intro s'
  have hpairs : s.Pairs s' (classes.flatMap s.tree.unmatched) :=
    forClasses_pairSpecifications_pairs classes s
  have hrecorded := hfresh.pairsRecorded
  obtain ⟨hattribute, hresolve, hremote⟩ :=
    hpairs.paired.sameMeaning hrecorded (hpairs.recorded hfresh.apart hrecorded)
  refine ⟨hattribute, hresolve, hremote, classes.flatMap s.tree.unmatched, hpairs.reports,
    fun h => ?_, fun c h hlisted hmem => ?_, hfresh.apart.nodup_flatMap_unmatched hnodup⟩
  · simp only [List.mem_flatMap, Tree.mem_unmatched]
  · obtain ⟨d, hd, hunmatched⟩ := List.mem_flatMap.mp hmem
    obtain rfl := hfresh.apart d c h (List.mem_of_mem_filter hunmatched) hlisted
    rw [hfresh.apart.count_flatMap_unmatched hnodup hd hunmatched,
      Tree.count_unmatched hunmatched]

/-- A class `A` with an attribute `x` and three classes below it, each the prefix of the next: `B`
protects `x`, `C` hides it, and `D` hides it once more. -/
def hiddenTwice : CheckState where
  tree := { nodes := #[
    ⟨1, .declaration "A" none (.classDeclaration
      { body := { declarations := ⟨#[("X", 1)]⟩ } })⟩,
    ⟨2, .declaration "X" (some 0) (.simpleVariable .integer none)⟩,
    ⟨3, .declaration "B" none (.classDeclaration { prefixClass := some 0, guarded := #[3] })⟩,
    ⟨4, .declaration "X" (some 2) (.protectedSpec none)⟩,
    ⟨5, .declaration "C" none (.classDeclaration { prefixClass := some 2, hidden := #[5] })⟩,
    ⟨6, .declaration "X" (some 4) (.hiddenSpec none)⟩,
    ⟨7, .declaration "D" none (.classDeclaration { prefixClass := some 4, hidden := #[7] })⟩,
    ⟨8, .declaration "X" (some 6) (.hiddenSpec none)⟩] }

/-- The specification of `C` is linked with that of `B`, and that of `D` is reported. The attribute
of `A` is found through a reference to `D`, before and after. -/
theorem forClasses_pairSpecifications_hiddenTwice :
    hiddenTwice.tree.FreshSpecifications ∧
    (hiddenTwice.forClasses pairSpecifications [6, 4, 2, 0]).tree.protectedBy? 5 = some 3 ∧
    (hiddenTwice.forClasses pairSpecifications [6, 4, 2, 0]).tree.findAttribute 6 "x" true =
      some ⟨1, 0, true⟩ ∧
    ∃ unmatched : List NodeId, unmatched.count 7 = 1 ∧ 5 ∉ unmatched ∧ unmatched.Nodup ∧
      (hiddenTwice.forClasses pairSpecifications [6, 4, 2, 0]).diagnostics.coded "E0103" =
        unmatched.map hiddenTwice.tree.unmatchedReport := by
  have hfresh : hiddenTwice.tree.FreshSpecifications := by decide +kernel
  obtain ⟨hattribute, -, -, unmatched, hreports, hmem, hcount, hnodup⟩ :=
    forClasses_pairSpecifications_keeps_meaning hfresh (show [6, 4, 2, 0].Nodup by decide)
  have hmatched : hiddenTwice.tree.findProtected 4
      (hiddenTwice.tree.specifiedName 5) = some 3 := by decide +kernel
  refine ⟨hfresh, by decide +kernel, ?_, unmatched, ?_, ?_, hnodup (by decide +kernel), hreports⟩
  · rw [hattribute]
    decide +kernel
  · rw [hcount 6 7 (by decide +kernel)
      ((hmem 7).mpr ⟨6, by simp, by decide +kernel, by decide +kernel⟩)]
    decide +kernel
  · rw [hmem]
    rintro ⟨c, -, hc, hnone⟩
    obtain rfl := hfresh.apart c 4 5 hc (by decide +kernel)
    rw [hmatched] at hnone
    cases hnone

/-- A class `A` that lists its one hidden specification of `x` twice. -/
def listedTwice : CheckState where
  tree := { nodes := #[
    ⟨1, .declaration "A" none (.classDeclaration { hidden := #[1, 1] })⟩,
    ⟨2, .declaration "X" (some 0) (.hiddenSpec none)⟩] }

/-- A hidden specification without a partner that one class lists twice is reported twice when the
specifications of that class are paired once. -/
theorem forClasses_pairSpecifications_listedTwice :
    listedTwice.tree.AcyclicPrefixes ∧ listedTwice.tree.FreshSpecifications ∧
    listedTwice.tree.findProtected 0 (listedTwice.tree.specifiedName 1) = none ∧
    (listedTwice.forClasses pairSpecifications [0]).diagnostics.coded "E0103" =
      [listedTwice.tree.unmatchedReport 1, listedTwice.tree.unmatchedReport 1] :=
  ⟨Tree.acyclicPrefixes_of_lt (by decide +kernel), by decide +kernel, by decide +kernel,
    by decide +kernel⟩

end CheckState

end Simula
