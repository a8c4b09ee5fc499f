import Mathlib.Data.List.Perm.Subperm
import Simula.Proofs.Check.ExpressionTrees

/-!
# Types in a graph of expressions

An expression may be part of several others. As long as none is below itself, each has a type and a
list of reports that follow from the tree alone: the type that its form gives it from the types of
its operands, and the reports on what is below it and then on itself, once for every way down. They
are computed here by going down a number of levels, of which one for each node of the tree and one
more are enough.
-/

namespace Simula

open Relation

/-- The expression that a conversion converts. -/
def NodeData.converted? : NodeData → Option NodeId
  | expression (.conversion e _) _ => some e
  | _ => none

/-- What is converted is told by a conversion. -/
theorem NodeData.converted?_eq_some {d : NodeData} {e : NodeId} (h : d.converted? = some e) :
    ∃ kind ty, d = .expression (.conversion e kind) ty := by
  rcases d with _ | _ | _ | _ | ⟨form, ty⟩
  case expression =>
    cases form with
    | conversion x kind => exact ⟨kind, ty, by rw [← Option.some.inj h]⟩
    | _ => cases h
  all_goals cases h

namespace Tree

variable {t t' : Tree} {scope a b c e : NodeId} {m n : Nat}

/-! ## Ways down -/

/-- The expressions directly below an expression. -/
def below (t : Tree) (e : NodeId) : List NodeId :=
  match t.data e with
  | .expression form _ => form.children
  | _ => []

/-- Below an expression are its parts. -/
theorem below_of_data {form : Expression} {ty : Ty} (h : t.data e = .expression form ty) :
    t.below e = form.children := by
  rw [below, h]

/-- Below a conversion is what it converts. -/
theorem below_of_converted? (h : (t.data e).converted? = some c) : t.below e = [c] := by
  obtain ⟨kind, ty, hdata⟩ := NodeData.converted?_eq_some h
  rw [below_of_data hdata]
  rfl

/-- An expression is directly below another one. -/
def Contains (t : Tree) (a b : NodeId) : Prop := b ∈ t.below a

/-- An expression is another one or somewhere below it. -/
def Reaches (t : Tree) : NodeId → NodeId → Prop := ReflTransGen t.Contains

/-- What an expression reaches are nodes of the tree, and none of them is below itself. -/
structure AcyclicBelow (t : Tree) (e : NodeId) : Prop where
  lt_size : ∀ b, t.Reaches e b → b < t.size
  acyclic : ∀ b, t.Reaches e b → ¬ TransGen t.Contains b b

/-- There is no cycle if all expressions come after those below them. -/
theorem acyclicBelow_of_lt (h : ∀ a < t.size, ∀ b ∈ t.below a, b < a) (he : e < t.size) :
    t.AcyclicBelow e := by
  have hcontains : ∀ {a b}, t.Contains a b → b < a := by
    intro a b hb
    have ha : a < t.size := lt_of_data fun hpending => by
      rw [Contains, below, hpending] at hb
      cases hb
    exact h a ha b hb
  have hreaches : ∀ {a b}, TransGen t.Contains a b → b < a := by
    intro a b hb
    induction hb with
    | single hb => exact hcontains hb
    | tail _ hc ih => exact Nat.lt_trans (hcontains hc) ih
  refine ⟨fun b hb => ?_, fun b _ hcycle => Nat.lt_irrefl b (hreaches hcycle)⟩
  rcases (reflTransGen_iff_eq_or_transGen.mp hb) with rfl | hb
  · exact he
  · exact Nat.lt_trans (hreaches hb) he

/-- An expression and all that is below it are expressions. -/
def BuiltOfExpressions (t : Tree) (e : NodeId) : Prop :=
  ∀ b, t.Reaches e b → (t.data b).expressionType?.isSome

/-- All that is below an expression built of expressions is built of them too. -/
theorem BuiltOfExpressions.of_reaches (h : t.BuiltOfExpressions e) (hb : t.Reaches e b) :
    t.BuiltOfExpressions b :=
  fun c hc => h c (hb.trans hc)

/-- What is built of expressions is one. -/
theorem BuiltOfExpressions.expression (h : t.BuiltOfExpressions e) :
    ∃ form ty, t.data e = .expression form ty := by
  have he := h e .refl
  cases hdata : t.data e with
  | expression form ty => exact ⟨form, ty, rfl⟩
  | _ =>
    rw [hdata] at he
    cases he

/-- It is enough that all nodes directly below expressions are expressions. -/
theorem builtOfExpressions_of_below
    (h : ∀ a < t.size, ∀ b ∈ t.below a, (t.data b).expressionType?.isSome)
    (he : (t.data e).expressionType?.isSome) : t.BuiltOfExpressions e := by
  intro b hb
  induction hb with
  | refl => exact he
  | @tail a c _ hc ih =>
    refine h a (lt_of_data fun hpending => ?_) c hc
    rw [hpending] at ih
    cases ih

/-- All ways down from an expression have fewer levels. -/
def Shallow (t : Tree) : Nat → NodeId → Prop
  | 0, _ => False
  | n + 1, e => ∀ c ∈ t.below e, t.Shallow n c

/-- An expression with few levels has fewer than any greater number. -/
theorem Shallow.mono (h : t.Shallow n e) (hle : n ≤ m) : t.Shallow m e := by
  induction n generalizing e m with
  | zero => exact h.elim
  | succ n ih =>
    obtain ⟨m, rfl⟩ := Nat.exists_eq_add_of_lt hle
    exact fun c hc => ih (h c hc) (Nat.le_add_right ..)

namespace AcyclicBelow

variable (h : t.AcyclicBelow e)
include h

/-- Below an expression without cycles there are none. -/
theorem of_reaches (hb : t.Reaches e b) : t.AcyclicBelow b :=
  ⟨fun c hc => h.lt_size c (hb.trans hc), fun c hc => h.acyclic c (hb.trans hc)⟩

/-- The nodes of a way down to an expression and the levels that it is not within are no more than
the tree has nodes. -/
theorem length_add_le {trail : List NodeId} (hnodup : trail.Nodup)
    (htrail : ∀ a ∈ trail, t.Reaches e a ∧ TransGen t.Contains a b) (hb : t.Reaches e b)
    (hdeep : ¬ t.Shallow n b) : trail.length + n ≤ t.size := by
  induction n generalizing trail b with
  | zero =>
    have hsubset : trail ⊆ List.range t.size := fun a ha =>
      List.mem_range.mpr (h.lt_size a (htrail a ha).1)
    simpa using (List.subperm_of_subset hnodup hsubset).length_le
  | succ n ih =>
    obtain ⟨c, hc, hdeep⟩ : ∃ c ∈ t.below b, ¬ t.Shallow n c := by
      simpa [Shallow] using hdeep
    have hbnot : b ∉ trail := fun hmem => h.acyclic b hb (htrail b hmem).2
    have hlonger := ih (List.nodup_cons.mpr ⟨hbnot, hnodup⟩) (List.forall_mem_cons.mpr
      ⟨⟨hb, .single hc⟩, fun a ha => ⟨(htrail a ha).1, (htrail a ha).2.tail hc⟩⟩) (hb.tail hc) hdeep
    rw [List.length_cons] at hlonger
    omega

/-- Without cycles there are no more levels than nodes. -/
theorem shallow : t.Shallow (t.size + 1) e := by
  by_contra hdeep
  have hle := h.length_add_le List.nodup_nil nofun .refl hdeep
  rw [List.length_nil] at hle
  omega

end AcyclicBelow

/-! ## Runs of conversions -/

/-- A step under conversions leads from a conversion to what it converts. -/
theorem underConversionsWithin_succ (t : Tree) (k : Nat) (e : NodeId) :
    CheckM.underConversionsWithin t (k + 1) e =
      ((t.data e).converted?.map (CheckM.underConversionsWithin t k)).getD e := by
  rw [CheckM.underConversionsWithin]
  rcases t.data e with _ | _ | _ | _ | ⟨form, _⟩
  case expression => cases form <;> rfl
  all_goals rfl

/-- What is under conversions can be reached from the outermost. -/
theorem reaches_underConversionsWithin (t : Tree) (k : Nat) (e : NodeId) :
    t.Reaches e (CheckM.underConversionsWithin t k e) := by
  induction k generalizing e with
  | zero => exact .refl
  | succ k ih =>
    rw [underConversionsWithin_succ]
    cases hc : (t.data e).converted? with
    | none => exact .refl
    | some x =>
      refine ReflTransGen.head ?_ (ih x)
      rw [Contains, below_of_converted? hc]
      exact List.mem_singleton_self x

/-- The same is under a run of conversions in all trees that have these conversions, for all numbers
of steps that are enough. -/
theorem Shallow.underConversionsWithin_eq (h : t.Shallow n e)
    (hsame : ∀ b, t.Reaches e b → (t'.data b).converted? = (t.data b).converted?)
    {k k' : Nat} (hk : n ≤ k) (hk' : n ≤ k') :
    CheckM.underConversionsWithin t' k' e = CheckM.underConversionsWithin t k e := by
  induction n generalizing e k k' with
  | zero => exact h.elim
  | succ n ih =>
    obtain ⟨k, rfl⟩ := Nat.exists_eq_add_of_lt hk
    obtain ⟨k', rfl⟩ := Nat.exists_eq_add_of_lt hk'
    rw [underConversionsWithin_succ, underConversionsWithin_succ, hsame e .refl]
    cases hc : (t.data e).converted? with
    | none => rfl
    | some x =>
      have hx : t.Contains e x := by
        rw [Contains, below_of_converted? hc]
        exact List.mem_singleton_self x
      exact ih (h x hx) (fun b hb => hsame b (.head hx hb)) (Nat.le_add_right ..)
        (Nat.le_add_right ..)

/-- What an expression reaches is reached from what is under its conversions, or is one of them. -/
theorem Reaches.underConversionsWithin (h : t.Reaches e b) (k : Nat) :
    t.Reaches (CheckM.underConversionsWithin t k e) b ∨ (t.data b).converted?.isSome := by
  induction k generalizing e with
  | zero => exact .inl h
  | succ k ih =>
    rw [underConversionsWithin_succ]
    cases hc : (t.data e).converted? with
    | none => exact .inl h
    | some x =>
      rcases ReflTransGen.cases_head h with rfl | ⟨c, hcontains, hb⟩
      · exact .inr (by rw [hc]; rfl)
      · rw [Contains, below_of_converted? hc] at hcontains
        obtain rfl := List.mem_singleton.mp hcontains
        exact ih hb

/-- The parts of an expression are what typing asks for. -/
theorem partsOf_of_data {form : Expression} {ty : Ty} (h : t.data e = .expression form ty) :
    t.partsOf e = CheckM.typedParts t form := by
  rw [partsOf, h]

/-- The part of a conversion is what is under all conversions. -/
theorem partsOf_of_converted? (h : (t.data e).converted? = some c) :
    t.partsOf e = [CheckM.underConversions t c] := by
  obtain ⟨kind, ty, hdata⟩ := NodeData.converted?_eq_some h
  rw [partsOf_of_data hdata]
  rfl

/-- Except for conversions, the parts are what is below. -/
theorem partsOf_eq_below (h : (t.data e).converted? = none) : t.partsOf e = t.below e := by
  rw [partsOf, below]
  revert h
  rcases t.data e with _ | _ | _ | _ | ⟨form, _⟩
  case expression =>
    cases form with
    | conversion x kind =>
      intro h
      cases h
    | _ => exact fun _ => rfl
  all_goals exact fun _ => rfl

/-- What is typed for an expression is below it. -/
theorem exists_reaches_of_mem_partsOf (h : c ∈ t.partsOf e) :
    ∃ d, t.Contains e d ∧ t.Reaches d c := by
  cases hc : (t.data e).converted? with
  | none =>
    rw [partsOf_eq_below hc] at h
    exact ⟨c, h, .refl⟩
  | some x =>
    rw [partsOf_of_converted? hc] at h
    obtain rfl := List.mem_singleton.mp h
    refine ⟨x, ?_, reaches_underConversionsWithin t _ x⟩
    rw [Contains, below_of_converted? hc]
    exact List.mem_singleton_self x

/-- What an expression reaches is the expression itself, a conversion, or reached from what is typed
for it. -/
theorem Reaches.cases_partsOf (h : t.Reaches e b) :
    b = e ∨ (∃ c ∈ t.partsOf e, t.Reaches c b) ∨ (t.data b).converted?.isSome := by
  rcases ReflTransGen.cases_head h with rfl | ⟨c, hcontains, hb⟩
  · exact .inl rfl
  right
  cases hc : (t.data e).converted? with
  | none => exact .inl ⟨c, partsOf_eq_below hc ▸ hcontains, hb⟩
  | some x =>
    rw [Contains, below_of_converted? hc] at hcontains
    obtain rfl := List.mem_singleton.mp hcontains
    refine (Reaches.underConversionsWithin hb t.size).imp_left fun hb => ?_
    rw [partsOf_of_converted? hc]
    exact ⟨_, List.mem_singleton_self _, hb⟩

/-- All that is below an expression has no more levels than the expression. -/
theorem Shallow.of_reaches (h : t.Shallow n e) (hb : t.Reaches e b) : t.Shallow n b := by
  induction hb with
  | refl => exact h
  | tail _ hc ih =>
    cases n with
    | zero => exact ih.elim
    | succ n => exact (ih _ hc).mono (Nat.le_succ n)

/-- The parts of an expression have fewer levels. -/
theorem Shallow.of_mem_partsOf (h : t.Shallow (n + 1) e) (hc : c ∈ t.partsOf e) :
    t.Shallow n c := by
  obtain ⟨d, hd, hreaches⟩ := exists_reaches_of_mem_partsOf hc
  exact (h d hd).of_reaches hreaches

/-! ## Types and reports -/

/-- The type of an expression and the reports on it, going down some levels. -/
def typing (t : Tree) (scope : NodeId) : Nat → NodeId → Ty × List Diagnostic
  | 0, _ => (.undefined, [])
  | n + 1, e =>
    let own := t.judged scope (fun c => (t.typing scope n c).1) e
    (own.1, (t.partsOf e).flatMap (fun c => (t.typing scope n c).2) ++ own.2)

/-- The type of an expression seen from a scope. -/
def typeIn (t : Tree) (scope e : NodeId) : Ty := (t.typing scope (t.size + 1) e).1

/-- The reports on an expression seen from a scope. -/
def reportsIn (t : Tree) (scope e : NodeId) : List Diagnostic :=
  (t.typing scope (t.size + 1) e).2

/-- Operands are parts. -/
theorem operands_subset_partsOf {form : Expression} {ty : Ty}
    (h : t.data e = .expression form ty) : form.operands ⊆ t.partsOf e :=
  partsOf_of_data h ▸ CheckM.operands_subset t form

/-- Types of what is typed for an expression decide its own. -/
theorem judged_eq_of_partsOf {types types' : NodeId → Ty}
    (h : ∀ c ∈ t.partsOf e, types' c = types c) (scope : NodeId) :
    t.judged scope types' e = t.judged scope types e := by
  cases hdata : t.data e with
  | expression form ty =>
    exact judged_congr hdata (fun c hc => h c (operands_subset_partsOf hdata hc)) scope
  | _ => rw [judged, judged, hdata]

/-- Levels beyond those that there are do not count. -/
theorem typing_eq (h : t.Shallow n e) (hle : n ≤ m) : t.typing scope m e = t.typing scope n e := by
  induction n generalizing e m with
  | zero => exact h.elim
  | succ n ih =>
    obtain ⟨m, rfl⟩ := Nat.exists_eq_add_of_lt hle
    have hparts : ∀ c ∈ t.partsOf e, t.typing scope (n + m) c = t.typing scope n c := fun c hc =>
      ih (h.of_mem_partsOf hc) (Nat.le_add_right ..)
    have hjudged := judged_eq_of_partsOf (fun c hc => congrArg Prod.fst (hparts c hc)) scope
    rw [typing, typing, hjudged, List.flatMap_congr fun c hc => congrArg Prod.snd (hparts c hc)]

section

variable (h : t.AcyclicBelow e) (scope : NodeId)
include h

/-- The parts need one level less than the expression. -/
theorem typing_eq_of_mem_partsOf (hc : c ∈ t.partsOf e) :
    t.typing scope t.size c = t.typing scope (t.size + 1) c :=
  (typing_eq (h.shallow.of_mem_partsOf hc) (Nat.le_succ _)).symm

/-- An expression is judged by the types of its parts, with any number of levels that is enough. -/
theorem judged_typing : t.judged scope (fun c => (t.typing scope t.size c).1) e =
    t.judged scope (t.typeIn scope) e :=
  judged_eq_of_partsOf (fun _ hc => congrArg Prod.fst (typing_eq_of_mem_partsOf h scope hc)) scope

/-- An expression has the type that follows from those below it. -/
theorem typeIn_eq : t.typeIn scope e = (t.judged scope (t.typeIn scope) e).1 := by
  rw [typeIn, typing, judged_typing h]

/-- The reports on what is below an expression come before those on itself. -/
theorem reportsIn_eq : t.reportsIn scope e =
    (t.partsOf e).flatMap (t.reportsIn scope) ++ (t.judged scope (t.typeIn scope) e).2 := by
  rw [reportsIn, typing, judged_typing h, List.flatMap_congr fun _ hc =>
    congrArg Prod.snd (typing_eq_of_mem_partsOf h scope hc)]
  rfl

/-- A conversion has the type that it has, and the reports on what it converts. -/
theorem typeIn_of_conversion {x : NodeId} {kind : ConversionKind} {stored : Ty}
    (hdata : t.data e = .expression (.conversion x kind) stored) : t.typeIn scope e = stored := by
  rw [typeIn_eq h, judged, hdata]
  rfl

/-- What is reported of a conversion is what is reported under all conversions. -/
theorem reportsIn_of_converted? (hc : (t.data e).converted? = some c) :
    t.reportsIn scope e = t.reportsIn scope (CheckM.underConversions t c) := by
  obtain ⟨kind, ty, hdata⟩ := NodeData.converted?_eq_some hc
  have hown : (t.judged scope (t.typeIn scope) e).2 = [] := by
    rw [judged, hdata]
    rfl
  rw [reportsIn_eq h, partsOf_of_converted? hc, hown, List.flatMap_singleton, List.append_nil]

/-- The reports on an expression are those on what is under its conversions. -/
theorem reportsIn_underConversions (hshallow : t.Shallow t.size e) :
    t.reportsIn scope (CheckM.underConversions t e) = t.reportsIn scope e := by
  have hsteps : ∀ {n}, t.Shallow n e → n ≤ t.size →
      t.reportsIn scope (CheckM.underConversionsWithin t n e) = t.reportsIn scope e := by
    intro n hshallow hn
    cases n with
    | zero => exact hshallow.elim
    | succ n =>
      rw [underConversionsWithin_succ]
      cases hc : (t.data e).converted? with
      | none => rfl
      | some x =>
        have hx : x ∈ t.below e := by
          rw [below_of_converted? hc]
          exact List.mem_singleton_self x
        rw [reportsIn_of_converted? h scope hc]
        exact congrArg (t.reportsIn scope) ((hshallow x hx).underConversionsWithin_eq
          (fun _ _ => rfl) (Nat.le_of_succ_le hn) (Nat.le_refl n))
  exact hsteps hshallow (Nat.le_refl _)

/-- The reports on what is below an expression are among those on itself, together and in order. -/
theorem reportsIn_of_reaches (hb : t.Reaches e b) :
    t.reportsIn scope b <:+: t.reportsIn scope e := by
  induction hb with
  | refl => exact List.infix_rfl
  | @tail a c ha hc ih =>
    refine List.IsInfix.trans ?_ ih
    have hbelow := h.of_reaches ha
    cases hconverted : (t.data a).converted? with
    | none =>
      rw [reportsIn_eq hbelow, partsOf_eq_below hconverted, List.flatMap_def]
      exact (List.infix_of_mem_flatten (List.mem_map_of_mem hc)).trans
        (List.prefix_append _ _).isInfix
    | some x =>
      have hx : c = x := by
        rw [Contains, below_of_converted? hconverted] at hc
        exact List.mem_singleton.mp hc
      have hsame : t.reportsIn scope a = t.reportsIn scope c := by
        rw [reportsIn_of_converted? hbelow scope hconverted, ← hx,
          reportsIn_underConversions (hbelow.of_reaches (.single hc)) scope (hbelow.shallow c hc)]
      exact hsame ▸ List.infix_rfl

end

end Tree

end Simula
