import Simula.Proofs.Identifier
import Simula.Proofs.Meaning.Links

/-!
# The spelling of identifiers

Where case is ignored, a program may be written anew with every identifier in another mixture of
capital and small letters, at each place in its own. The two trees then hold the same nodes, and
they are compared here place by place and letter by letter. Every lookup finds the same node in the
same way in both, whatever the spelling in which it is asked, and a value converts in the same way
between types whatever the spelling of their classes. On the other hand identifiers that differ in
more than case can be declared side by side.
-/

namespace Simula

/-! ## Letters -/

/-- The texts differ at most in the case of ASCII letters. -/
def CaseVariants (a b : String) : Prop :=
  List.Forall₂ (fun c d => c.toLower = d.toLower) a.toList b.toList

instance (a b : String) : Decidable (CaseVariants a b) :=
  inferInstanceAs (Decidable (List.Forall₂ ..))

/-- Texts that differ in case only are stored under one spelling. -/
theorem upperCase_eq_iff (a b : String) : upperCase a = upperCase b ↔ CaseVariants a b := by
  rw [upperCase, upperCase, String.ofList_inj, CaseVariants, ← List.forall₂_eq_eq_eq,
    List.forall₂_map_left_iff, List.forall₂_map_right_iff]
  simp only [toUpper_eq_iff]

namespace CaseVariants

/-- An identifier is a variant of itself. -/
theorem refl (a : String) : CaseVariants a a := (upperCase_eq_iff a a).mp rfl

/-- Variants are the same as the same identifiers. -/
theorem same {i j : String} (h : CaseVariants i j) (x : String) :
    CaseRule.insensitive.same j x = CaseRule.insensitive.same i x := by
  simp only [CaseRule.same, CaseRule.normalize, (upperCase_eq_iff i j).mpr h]

end CaseVariants

/-! ## Trees in another spelling

Two trees are compared node by node and field by field. An identifier may be spelled in another way
wherever it stands, and all else is the same. -/

/-- The types differ at most in the spelling of a class. -/
inductive Ty.Respelled : Ty → Ty → Prop
  | unchanged (ty : Ty) : Respelled ty ty
  | reference {a b : String} (h : CaseVariants a b) : Respelled (.reference a) (.reference b)

/-- The lists hold the same nodes, each under a spelling of one identifier. -/
def DeclarationList.Respelled (l m : DeclarationList) : Prop :=
  List.Forall₂ (fun d e => CaseVariants d.1 e.1 ∧ d.2 = e.2) l.entries.toList m.entries.toList

/-- Labels and statements are given by their nodes and have no spelling here. -/
structure Body.Respelled (a b : Body) : Prop where
  declarations : a.declarations.Respelled b.declarations
  labels : a.labels = b.labels
  statements : a.statements = b.statements

structure ClassParts.Respelled (a b : ClassParts) : Prop where
  prefixName : Option.Rel CaseVariants a.prefixName b.prefixName
  prefixClass : a.prefixClass = b.prefixClass
  parameters : a.parameters = b.parameters
  virtuals : a.virtuals = b.virtuals
  hidden : a.hidden = b.hidden
  guarded : a.guarded = b.guarded
  body : a.body.Respelled b.body

structure Connection.Respelled (a b : Connection) : Prop where
  declaredIn : a.declaredIn = b.declaredIn
  inspected : a.inspected = b.inspected
  whenClass : Option.Rel CaseVariants a.whenClass b.whenClass
  classDeclaration : a.classDeclaration = b.classDeclaration
  statement : a.statement = b.statement

inductive Declaration.Respelled : Declaration → Declaration → Prop
  | external (moduleKind : Kind) (file : String) (module : Option NodeId) :
    Respelled (.external moduleKind file module) (.external moduleKind file module)
  | classDeclaration {c d : ClassParts} (h : c.Respelled d) :
    Respelled (.classDeclaration c) (.classDeclaration d)
  | procedure {r s : Ty} {a b : Body} (parameters : Array NodeId) (hresult : r.Respelled s)
    (hbody : a.Respelled b) : Respelled (.procedure r parameters a) (.procedure s parameters b)
  | block {a b : Body} (h : a.Respelled b) : Respelled (.block a) (.block b)
  | simpleVariable {a b : Ty} (constant : Option NodeId) (h : a.Respelled b) :
    Respelled (.simpleVariable a constant) (.simpleVariable b constant)
  | array {a b : Ty} (dimensions : UInt8) (h : a.Respelled b) :
    Respelled (.array a dimensions) (.array b dimensions)
  | parameter {a b : Ty} (mode : ParameterMode) (kind : ParameterKind) (h : a.Respelled b) :
    Respelled (.parameter a mode kind) (.parameter b mode kind)
  | label (index : Nat) : Respelled (.label index) (.label index)
  | hiddenSpec (protectedBy : Option NodeId) :
    Respelled (.hiddenSpec protectedBy) (.hiddenSpec protectedBy)
  | protectedSpec (hiddenBy : Option NodeId) :
    Respelled (.protectedSpec hiddenBy) (.protectedSpec hiddenBy)
  | virtualSpec {a b : Ty} (kind : VirtualKind) (h : a.Respelled b) :
    Respelled (.virtualSpec kind a) (.virtualSpec kind b)

inductive Statement.Respelled : Statement → Statement → Prop
  | unchanged (form : Statement) : Respelled form form
  | labeled {labels labels' : List String} (statement : NodeId)
    (h : List.Forall₂ CaseVariants labels labels') :
    Respelled (.labeled labels statement) (.labeled labels' statement)

inductive Expression.Respelled : Expression → Expression → Prop
  | unchanged (form : Expression) : Respelled form form
  | nameUse {i j : String} (arguments : List NodeId) (h : CaseVariants i j) :
    Respelled (.nameUse i arguments) (.nameUse j arguments)
  | generator {c d : String} (arguments : List NodeId) (h : CaseVariants c d) :
    Respelled (.generator c arguments) (.generator d arguments)
  | remote {i j : String} (object : NodeId) (arguments : List NodeId) (h : CaseVariants i j) :
    Respelled (.remote object i arguments) (.remote object j arguments)
  | qualified {c d : String} (object : NodeId) (h : CaseVariants c d) :
    Respelled (.qualified object c) (.qualified object d)
  | relation {c d : String} (op : RelationOp) (object : NodeId) (h : CaseVariants c d) :
    Respelled (.relation op object c) (.relation op object d)

/-- The contents differ at most in the spelling of identifiers, which includes that of the type
recorded on an expression. -/
inductive NodeData.Respelled : NodeData → NodeData → Prop
  | pending : Respelled .pending .pending
  | declaration {i j : String} {a b : Declaration} (scope : Option NodeId)
    (hname : CaseVariants i j) (hform : a.Respelled b) :
    Respelled (.declaration i scope a) (.declaration j scope b)
  | connection {a b : Connection} (h : a.Respelled b) : Respelled (.connection a) (.connection b)
  | statement {a b : Statement} (h : a.Respelled b) : Respelled (.statement a) (.statement b)
  | expression {a b : Expression} {ty ty' : Ty} (hform : a.Respelled b) (hty : ty.Respelled ty') :
    Respelled (.expression a ty) (.expression b ty')

structure Node.Respelled (m n : Node) : Prop where
  line : m.line = n.line
  data : m.data.Respelled n.data

/-- The trees ignore case and differ at most in the spelling of identifiers. -/
structure Tree.Respelled (t u : Tree) : Prop where
  ignoresCase : t.caseRule = .insensitive
  ignoresCase' : u.caseRule = .insensitive
  nodes : List.Forall₂ Node.Respelled t.nodes.toList u.nodes.toList

/-! ## What is read of a node -/

/-- Related options are continued alike by related functions. -/
theorem bind_eq_of_rel {α β : Type} {r : α → α → Prop} {f g : α → Option β}
    (hfg : ∀ a b, r a b → g b = f a) {a b : Option α} (h : Option.Rel r a b) :
    b.bind g = a.bind f := by
  cases h with
  | some h => exact hfg _ _ h
  | none => rfl

/-- A respelled list has the same declarations under an identifier. -/
theorem DeclarationList.Respelled.find? {l m : DeclarationList} (h : l.Respelled m) (x : String) :
    m.find? .insensitive x = l.find? .insensitive x := by
  rw [DeclarationList.find?, DeclarationList.find?, ← Array.find?_toList, ← Array.find?_toList]
  rw [DeclarationList.Respelled] at h
  generalize l.entries.toList = ds, m.entries.toList = es at h
  induction h with
  | nil => rfl
  | @cons d e ds es hde _ ih =>
    rw [List.find?_cons, List.find?_cons, hde.1.same]
    cases CaseRule.insensitive.same d.1 x with
    | true => exact congrArg some hde.2.symm
    | false => exact ih

/-- The nodes lead a lookup to the same nodes. -/
structure NodeData.LinkedAlike (d e : NodeData) : Prop where
  parameters : e.parameters = d.parameters
  declaredIn : e.declaredIn? = d.declaredIn?
  protectedBy : e.protectedBy? = d.protectedBy?
  searched : ∀ scope, e.searchedClass? scope = d.searchedClass? scope
  connection : e.isConnection = d.isConnection
  module : e.loadedModule? = d.loadedModule?
  isClass : e.class?.isSome = d.class?.isSome

namespace NodeData.Respelled

variable {d e : NodeData} (h : d.Respelled e)
include h

/-- The identifiers of respelled nodes are variants of each other. -/
theorem identifier? : Option.Rel CaseVariants d.identifier? e.identifier? := by
  cases h with
  | declaration _ hname _ => exact .some hname
  | @expression form _ _ _ hform _ =>
    cases hform with
    | unchanged =>
      cases form with
      | nameUse i _ => exact .some (.refl i)
      | _ => exact .none
    | nameUse _ hname => exact .some hname
    | _ => exact .none
  | _ => exact .none

/-- The common parts of respelled scopes are respelled. -/
theorem body? : Option.Rel Body.Respelled d.body? e.body? := by
  cases h with
  | declaration _ _ hform =>
    cases hform with
    | classDeclaration hparts => exact .some hparts.body
    | procedure _ _ hbody => exact .some hbody
    | block hbody => exact .some hbody
    | _ => exact .none
  | _ => exact .none

/-- The parts of respelled classes are respelled. -/
theorem class? : Option.Rel ClassParts.Respelled d.class? e.class? := by
  cases h with
  | declaration _ _ hform =>
    cases hform with
    | classDeclaration hparts => exact .some hparts
    | _ => exact .none
  | _ => exact .none

/-- Respelled nodes have the same links. -/
theorem linkedAlike : d.LinkedAlike e := by
  cases h with
  | declaration _ _ hform =>
    cases hform with
    | classDeclaration hparts =>
      exact ⟨congrArg Array.toList hparts.parameters.symm, rfl, rfl, fun _ => rfl, rfl, rfl, rfl⟩
    | _ => exact ⟨rfl, rfl, rfl, fun _ => rfl, rfl, rfl, rfl⟩
  | connection hblock =>
    have hclass := congrArg (Option.map (true, ·)) hblock.classDeclaration.symm
    exact ⟨rfl, hblock.declaredIn.symm, rfl, fun _ => hclass, rfl, rfl, rfl⟩
  | _ => exact ⟨rfl, rfl, rfl, fun _ => rfl, rfl, rfl, rfl⟩

end NodeData.Respelled

/-! ## What is read of a tree -/

namespace Tree.Respelled

variable {t u : Tree} (h : t.Respelled u)
include h

/-- Respelled trees have the same number of nodes. -/
theorem size : u.size = t.size := h.nodes.length_eq.symm

/-- Their nodes are respelled one by one. -/
theorem data (id : NodeId) : (t.data id).Respelled (u.data id) := by
  by_cases hid : id < t.size
  · have hid' : id < u.size := h.size ▸ hid
    have hnode : (t.nodes[id]).Respelled u.nodes[id] :=
      h.nodes.get (i := id) hid hid'
    rw [data_of_node (Array.getElem?_eq_getElem hid), data_of_node (Array.getElem?_eq_getElem hid')]
    exact hnode.data
  · have hid' : ¬ id < u.size := h.size ▸ hid
    rw [data_of_size_le (Nat.le_of_not_lt hid), data_of_size_le (Nat.le_of_not_lt hid')]
    exact .pending

/-- A list of nodes has the same first node with an identifier. -/
theorem findNamed (ids : List NodeId) (x : String) : u.findNamed ids x = t.findNamed ids x := by
  rw [Tree.findNamed, Tree.findNamed]
  congr 1
  funext id
  have hname : Option.Rel CaseVariants (t.identifier? id) (u.identifier? id) :=
    (h.data id).identifier?
  generalize t.identifier? id = i, u.identifier? id = j at hname
  cases hname with
  | some hname => simp only [sameIdentifier, h.ignoresCase, h.ignoresCase', hname.same]
  | none => rfl

/-- What respelled scopes tell alike is told alike by the trees. -/
theorem bodyPart {β : Type} {f g : Body → Option β}
    (hfg : ∀ a b : Body, a.Respelled b → g b = f a) (id : NodeId) :
    (u.data id).body?.bind g = (t.data id).body?.bind f :=
  bind_eq_of_rel hfg (h.data id).body?

/-- What respelled classes tell alike is told alike by the trees. -/
theorem classPart {β : Type} {f g : ClassParts → Option β}
    (hfg : ∀ a b : ClassParts, a.Respelled b → g b = f a) (c : NodeId) :
    (u.class? c).bind g = (t.class? c).bind f :=
  bind_eq_of_rel hfg (h.data c).class?

/-- A scope offers the same under an identifier. -/
theorem lookupLocal (scope : NodeId) (x : String) :
    u.lookupLocal scope x = t.lookupLocal scope x := by
  have hdeclared : (u.data scope).declarations?.bind (·.find? u.caseRule x) =
      (t.data scope).declarations?.bind (·.find? t.caseRule x) := by
    rw [NodeData.declarations?, NodeData.declarations?, Option.bind_map, Option.bind_map,
      h.ignoresCase, h.ignoresCase']
    exact h.bodyPart (fun a b hab => hab.declarations.find? x) scope
  have hlabel : (u.data scope).labels?.bind (fun l => u.findNamed l.own.toList x) =
      (t.data scope).labels?.bind fun l => t.findNamed l.own.toList x := by
    rw [NodeData.labels?, NodeData.labels?, Option.bind_map, Option.bind_map]
    refine h.bodyPart (fun a b hab => ?_) scope
    simp only [Function.comp_apply, hab.labels, h.findNamed]
  have hvirtual : (u.data scope).class?.bind (fun c => u.findNamed c.virtuals.toList x) =
      (t.data scope).class?.bind fun c => t.findNamed c.virtuals.toList x :=
    h.classPart (fun a b hab => by rw [hab.virtuals, h.findNamed]) scope
  simp only [Tree.lookupLocal]
  rw [hdeclared, hlabel, hvirtual, h.findNamed, (h.data scope).linkedAlike.parameters]

/-- Every node answers lookups in the same way in either spelling. -/
theorem sameAnswers : t.SameAnswers u := by
  have hlinks := fun id => (h.data id).linkedAlike
  exact {
    size := h.size
    lookupLocal := by
      funext scope x
      exact h.lookupLocal scope x
    hiddenSpec := by
      funext c x
      exact h.classPart (fun a b hab => by rw [hab.hidden, h.findNamed]) c
    protectedSpec := by
      funext c x
      exact h.classPart (fun a b hab => by rw [hab.guarded, h.findNamed]) c
    prefixClass := funext (h.classPart fun _ _ hab => hab.prefixClass.symm)
    protectedBy := funext fun id => (hlinks id).protectedBy
    declaredIn := funext fun id => (hlinks id).declaredIn
    searched := funext fun id => (hlinks id).searched id
    connection := fun id => (hlinks id).connection
    effective := by
      funext id
      rw [effective_eq, effective_eq, (hlinks id).module]
    isClass := funext fun id => (hlinks id).isClass }

/-- Variants are the same identifier in a respelled tree. -/
theorem sameIdentifier {x y : String} (hxy : CaseVariants x y) : u.sameIdentifier y x = true := by
  rw [Tree.sameIdentifier, h.ignoresCase', hxy.same, CaseRule.same_self]

/-- Variants name the same class. -/
theorem find_classView {x y : String} (hxy : CaseVariants x y) (scope : NodeId) :
    (u.classView scope).find y = (u.classView scope).find x :=
  lookupClass_congr (h.sameIdentifier hxy) scope

end Tree.Respelled

/-! ## Conversions -/

namespace Ty.Respelled

variable {a a' b b' : Ty} (ha : a.Respelled a') (hb : b.Respelled b')

include ha in
/-- Respelled types are the same in upper case. -/
theorem folded : a'.folded = a.folded := by
  cases ha with
  | unchanged => rfl
  | reference h => simp only [Ty.folded, Ty.reference, Option.map_some, (upperCase_eq_iff ..).mpr h]

include ha in
/-- A respelled type is undefined only if the type is. -/
theorem isUndefined : a'.isUndefined = a.isUndefined := by cases ha <;> rfl

include ha in
/-- A respelled type is arithmetic only if the type is. -/
theorem isArithmetic : a'.isArithmetic = a.isArithmetic := by cases ha <;> rfl

section

variable {classes : ClassView}
  (hfind : ∀ x y, CaseVariants x y → classes.find y = classes.find x)
include ha hb hfind

/-- Respelled references are subordinate to each other as the references are. -/
theorem isSubReference : a'.isSubReference classes b' = a.isSubReference classes b := by
  cases ha with
  | unchanged =>
    cases hb with
    | unchanged => rfl
    | reference hb =>
      cases a with
      | ref c => cases c <;> simp only [Ty.reference, Ty.isSubReference, hfind _ _ hb]
      | _ => rfl
  | reference ha =>
    cases hb with
    | unchanged =>
      cases b with
      | ref c => cases c <;> simp only [Ty.reference, Ty.isSubReference, hfind _ _ ha]
      | _ => rfl
    | reference hb => simp only [Ty.reference, Ty.isSubReference, hfind _ _ ha, hfind _ _ hb]

/-- Respelled types are converted as the types are. -/
theorem conversionTo : a'.conversionTo classes b' = a.conversionTo classes b := by
  rw [Ty.conversionTo, Ty.conversionTo, Ty.same, Ty.same, ha.folded, hb.folded, ha.isArithmetic,
    hb.isArithmetic, hb.isUndefined, ha.isSubReference hb hfind, hb.isSubReference ha hfind]

end

end Ty.Respelled

/-! ## Identifiers side by side -/

/-- Two identifiers go into a list one after the other if and only if neither is there yet and they
are not the same. -/
theorem DeclarationList.insert?_insert? (l : DeclarationList) (rule : CaseRule) (a b : String)
    (i j : NodeId) :
    ((l.insert? rule a i).bind (·.insert? rule b j)).isSome = true ↔
      (∀ e ∈ l.entries, rule.normalize e.1 ≠ rule.normalize a ∧
        rule.normalize e.1 ≠ rule.normalize b) ∧ rule.normalize a ≠ rule.normalize b := by
  simp only [insert?_eq, CaseRule.same_iff]
  by_cases ha : ∃ e ∈ l.entries, rule.normalize e.1 = rule.normalize a
  · rw [if_pos ha]
    obtain ⟨e, he, hsame⟩ := ha
    exact iff_of_false nofun fun hfree => (hfree.1 e he).1 hsame
  · rw [if_neg ha, Option.bind_some, Option.isSome_ite']
    constructor
    · intro hfree
      refine ⟨fun e he => ⟨fun hsame => ha ⟨e, he, hsame⟩, fun hsame => ?_⟩, fun hsame => ?_⟩
      · exact hfree ⟨e, Array.mem_push_of_mem _ he, hsame⟩
      · exact hfree ⟨(a, i), Array.mem_push_self, hsame⟩
    · rintro ⟨hfree, hab⟩ ⟨e, he, hsame⟩
      rcases Array.mem_push.mp he with he | rfl
      · exact (hfree e he).2 hsame
      · exact hab hsame

namespace Tree

/-- **Spelling does not matter where case is ignored.** Let two trees differ only in the case of
ASCII letters in their identifiers, wherever these stand, and let an identifier be asked for in two
spellings. Then the search for a protected specification, the search for an attribute, the lookup
from a scope, the access through a reference and the lookup of a class find the same nodes in the
same way, and a value converts in the same way between types whose classes are spelled in either
way. Two identifiers can be declared side by side in a list that has neither if and only if they are
stored in different spellings, and in these trees that is if and only if they differ in more than
case. -/
theorem lookups_respelled {t u : Tree} (h : t.Respelled u) {x y : String}
    (hxy : CaseVariants x y) :
    (∀ c, u.findProtected c y = t.findProtected c x) ∧
    (∀ c remote, u.findAttribute c y remote = t.findAttribute c x remote) ∧
    (∀ scope, u.resolve scope y = t.resolve scope x) ∧
    (∀ scope c, u.resolveRemote scope c y = t.resolveRemote scope c x) ∧
    (∀ scope, u.lookupClass scope y = t.lookupClass scope x) ∧
    (∀ scope (a a' b b' : Ty), a.Respelled a' → b.Respelled b' →
      a'.conversionTo (u.classView scope) b' = a.conversionTo (t.classView scope) b) ∧
    (∀ (rule : CaseRule) (l : DeclarationList) (a b : String) (i j : NodeId),
      ((l.insert? rule a i).bind (·.insert? rule b j)).isSome = true ↔
        (∀ e ∈ l.entries, rule.normalize e.1 ≠ rule.normalize a ∧
          rule.normalize e.1 ≠ rule.normalize b) ∧ rule.normalize a ≠ rule.normalize b) ∧
    (∀ a b, t.normalize a ≠ t.normalize b ↔ ¬ CaseVariants a b) := by
  -- In the second tree both spellings find the same, and for one spelling both trees answer alike.
  have hsame := h.sameIdentifier hxy
  have hanswers := h.sameAnswers
  refine ⟨fun c => ?_, fun c remote => ?_, fun scope => ?_, fun scope c => ?_, fun scope => ?_,
    fun scope a a' b b' ha hb => ?_, fun rule l => l.insert?_insert? rule, fun a b => ?_⟩
  · rw [findProtected_congr hsame, hanswers.findProtected]
  · rw [findAttribute_congr hsame, hanswers.findAttribute]
  · rw [resolve_congr hsame, hanswers.resolve]
  · rw [resolveRemote_congr hsame, hanswers.resolveRemote]
  · rw [lookupClass_congr hsame, hanswers.lookupClass]
  · rw [ha.conversionTo hb fun _ _ hxy => h.find_classView hxy scope, hanswers.classView]
  · rw [normalize, normalize, h.ignoresCase]
    exact not_congr (upperCase_eq_iff a b)

/-- Three classes, each the prefix of the next: the first has an attribute `size`, the second
protects it and the third hides it. A connection block is connected to the third. -/
def quietRing : Tree where
  nodes := #[
    ⟨1, .declaration "main" none (.block
      { declarations := ⟨#[("link", 1), ("head", 3), ("ring", 5)]⟩ })⟩,
    ⟨2, .declaration "link" (some 0) (.classDeclaration
      { body := { declarations := ⟨#[("size", 2)]⟩ } })⟩,
    ⟨3, .declaration "size" (some 1) (.simpleVariable (.reference "ring") none)⟩,
    ⟨4, .declaration "head" (some 0) (.classDeclaration
      { prefixName := some "link", prefixClass := some 1, guarded := #[4] })⟩,
    ⟨5, .declaration "size" (some 3) (.protectedSpec none)⟩,
    ⟨6, .declaration "ring" (some 0) (.classDeclaration
      { prefixName := some "head", prefixClass := some 3, hidden := #[6] })⟩,
    ⟨7, .declaration "size" (some 5) (.hiddenSpec none)⟩,
    ⟨8, .connection { declaredIn := some 0, whenClass := some "ring", classDeclaration := some 5 }⟩]

/-- The same classes, with every identifier spelled in another way at each place. -/
def loudRing : Tree where
  nodes := #[
    ⟨1, .declaration "Main" none (.block
      { declarations := ⟨#[("LINK", 1), ("Head", 3), ("rING", 5)]⟩ })⟩,
    ⟨2, .declaration "Link" (some 0) (.classDeclaration
      { body := { declarations := ⟨#[("SiZe", 2)]⟩ } })⟩,
    ⟨3, .declaration "Size" (some 1) (.simpleVariable (.reference "RING") none)⟩,
    ⟨4, .declaration "HEAD" (some 0) (.classDeclaration
      { prefixName := some "lINK", prefixClass := some 1, guarded := #[4] })⟩,
    ⟨5, .declaration "sIZE" (some 3) (.protectedSpec none)⟩,
    ⟨6, .declaration "Ring" (some 0) (.classDeclaration
      { prefixName := some "hEAD", prefixClass := some 3, hidden := #[6] })⟩,
    ⟨7, .declaration "SIZE" (some 5) (.hiddenSpec none)⟩,
    ⟨8, .connection { declaredIn := some 0, whenClass := some "RinG", classDeclaration := some 5 }⟩]

/-- The two rings differ in the spelling of their identifiers only. -/
theorem quietRing_respelled : quietRing.Respelled loudRing where
  ignoresCase := rfl
  ignoresCase' := rfl
  nodes := by
    refine .cons ⟨rfl, .declaration _ (by decide) (.block ⟨?_, rfl, rfl⟩)⟩ ?_
    · exact .cons (by decide) (.cons (by decide) (.cons (by decide) .nil))
    refine .cons ⟨rfl, .declaration _ (by decide) (.classDeclaration
      ⟨.none, rfl, rfl, rfl, rfl, rfl, .cons (by decide) .nil, rfl, rfl⟩)⟩ ?_
    refine .cons ⟨rfl, .declaration _ (by decide) (.simpleVariable _ (.reference (by decide)))⟩ ?_
    refine .cons ⟨rfl, .declaration _ (by decide) (.classDeclaration
      ⟨.some (by decide), rfl, rfl, rfl, rfl, rfl, .nil, rfl, rfl⟩)⟩ ?_
    refine .cons ⟨rfl, .declaration _ (by decide) (.protectedSpec _)⟩ ?_
    refine .cons ⟨rfl, .declaration _ (by decide) (.classDeclaration
      ⟨.some (by decide), rfl, rfl, rfl, rfl, rfl, .nil, rfl, rfl⟩)⟩ ?_
    refine .cons ⟨rfl, .declaration _ (by decide) (.hiddenSpec _)⟩ ?_
    exact .cons ⟨rfl, .connection ⟨rfl, rfl, .some (by decide), rfl, rfl⟩⟩ .nil

/-- In either spelling the connection block finds the attribute of the first class behind the hidden
specification, and the third class is a subclass of the first. -/
theorem lookups_loudRing :
    quietRing.Respelled loudRing ∧ CaseVariants "size" "SIze" ∧
    loudRing.resolve 7 "SIze" =
      { declaration := some 2, searchScope := 7, foundIn := some 7, declaredIn := some 1,
        behind := true, connected := true } ∧
    (Ty.reference "LINk").conversionTo (loudRing.classView 7) (.reference "rinG") =
      .convertRef := by
  have hsize : CaseVariants "size" "SIze" := by decide
  obtain ⟨-, -, hresolve, -, -, hconversion, -⟩ := lookups_respelled quietRing_respelled hsize
  refine ⟨quietRing_respelled, hsize, ?_, ?_⟩
  · rw [hresolve]
    decide +kernel
  · rw [hconversion 7 (.reference "link") (.reference "LINk") (.reference "ring")
      (.reference "rinG") (.reference (by decide)) (.reference (by decide))]
    decide +kernel

end Tree

end Simula
