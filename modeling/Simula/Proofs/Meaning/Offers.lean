import Simula.Meaning
import Simula.Proofs.Tree.Nodes

/-!
# What nodes offer to a lookup

A lookup reads two things. It compares the identifiers that scopes offer, and it follows links: to
the scope around a scope, to the prefix of a class, to the connected class of a connection block and
to the protected specification of a hidden one. Here the links are taken away. Two trees whose nodes
are alike but for their links, their types and the numbers of their labels offer the same under
every identifier.
-/

namespace Simula

/-- The common part of a scope without what is computed from its labels. -/
def Body.offered (b : Body) : Body := { b with labels := { own := b.labels.own } }

/-- A declaration without its links. -/
def Declaration.offered : Declaration → Declaration
  | classDeclaration c =>
    classDeclaration { c with prefixClass := none, body := c.body.offered }
  | procedure result parameters body => procedure result parameters body.offered
  | block body => block body.offered
  | label _ => label 0
  | hiddenSpec _ => hiddenSpec none
  | protectedSpec _ => protectedSpec none
  | d => d

/-- What a node shows to a lookup apart from its links. Only a name can be mistaken for a
declaration among the other nodes. -/
def NodeData.offered : NodeData → NodeData
  | declaration identifier _ form => declaration identifier none form.offered
  | connection block => connection { block with declaredIn := none, classDeclaration := none }
  | expression (.nameUse identifier _) _ => expression (.nameUse identifier []) .undefined
  | _ => pending

namespace NodeData

/-- A node shows its identifier. -/
@[simp] theorem identifier?_offered (d : NodeData) : d.offered.identifier? = d.identifier? := by
  rcases d with _ | _ | _ | _ | ⟨form, _⟩
  case expression => cases form <;> rfl
  all_goals rfl

/-- A scope shows its declarations. -/
@[simp] theorem declarations?_offered (d : NodeData) :
    d.offered.declarations? = d.declarations? := by
  rcases d with _ | ⟨_, _, form⟩ | _ | _ | ⟨form, _⟩
  case declaration | expression => cases form <;> rfl
  all_goals rfl

/-- A class or procedure shows its parameters. -/
@[simp] theorem parameters_offered (d : NodeData) : d.offered.parameters = d.parameters := by
  rcases d with _ | ⟨_, _, form⟩ | _ | _ | ⟨form, _⟩
  case declaration | expression => cases form <;> rfl
  all_goals rfl

/-- A scope shows its own labels. -/
@[simp] theorem ownLabels_offered (d : NodeData) :
    d.offered.labels?.map (·.own) = d.labels?.map (·.own) := by
  rcases d with _ | ⟨_, _, form⟩ | _ | _ | ⟨form, _⟩
  case declaration | expression => cases form <;> rfl
  all_goals rfl

/-- A class shows all its parts but its prefix class and what is computed of its labels. -/
theorem class?_offered (d : NodeData) : d.offered.class? =
    d.class?.map fun c => { c with prefixClass := none, body := c.body.offered } := by
  rcases d with _ | ⟨_, _, form⟩ | _ | _ | ⟨form, _⟩
  case declaration | expression => cases form <;> rfl
  all_goals rfl

/-- A node shows whether it is a class. -/
@[simp] theorem isClass_offered (d : NodeData) : d.offered.class?.isSome = d.class?.isSome := by
  rw [class?_offered, Option.isSome_map]

/-- A node shows the type that it declares. -/
@[simp] theorem declaredType_offered (d : NodeData) :
    d.offered.declaredType = d.declaredType := by
  rcases d with _ | ⟨_, _, form⟩ | _ | _ | ⟨form, _⟩
  case declaration | expression => cases form <;> rfl
  all_goals rfl

/-- The module behind an external declaration that is loaded. -/
def loadedModule? : NodeData → Option NodeId
  | declaration _ _ (.external _ _ module) => module
  | _ => none

/-- An external declaration shows the module behind it. -/
@[simp] theorem loadedModule?_offered (d : NodeData) :
    d.offered.loadedModule? = d.loadedModule? := by
  rcases d with _ | ⟨_, _, form⟩ | _ | _ | ⟨form, _⟩
  case declaration | expression => cases form <;> rfl
  all_goals rfl

/-- The protected specification recorded in a hidden one. -/
def protectedBy? : NodeData → Option NodeId
  | declaration _ _ (.hiddenSpec p) => p
  | _ => none

/-- Whether a node is a connection block. -/
def isConnection : NodeData → Bool
  | connection _ => true
  | _ => false

/-- A node shows whether it is a connection block. -/
@[simp] theorem isConnection_offered (d : NodeData) : d.offered.isConnection = d.isConnection := by
  rcases d with _ | ⟨_, _, form⟩ | _ | _ | ⟨form, _⟩
  case expression => cases form <;> rfl
  all_goals rfl

/-- The class that a lookup searches in a scope, and whether from outside. -/
def searchedClass? (scope : NodeId) : NodeData → Option (Bool × NodeId)
  | connection c => c.classDeclaration.map (true, ·)
  | declaration _ _ (.classDeclaration _) => some (false, scope)
  | _ => none

/-- Whether a lookup can find something in a node or go on from it: declarations and connection
blocks. -/
def isPlace : NodeData → Bool
  | declaration _ _ _ | connection _ => true
  | _ => false

/-- A node shows whether it is a place. -/
@[simp] theorem isPlace_offered (d : NodeData) : d.offered.isPlace = d.isPlace := by
  rcases d with _ | _ | _ | _ | ⟨form, _⟩
  case expression => cases form <;> rfl
  all_goals rfl

/-- Classes are places. -/
theorem isPlace_of_class {d : NodeData} (h : d.class?.isSome) : d.isPlace = true := by
  rcases d with _ | _ | _ | _ | _ <;> first | rfl | cases h

/-- What has a scope is a place. -/
theorem isPlace_of_declaredIn {d : NodeData} {scope : NodeId} (h : d.declaredIn? = some scope) :
    d.isPlace = true := by
  rcases d with _ | _ | _ | _ | _ <;> first | rfl | cases h

/-- Connection blocks are places. -/
theorem isPlace_of_isConnection {d : NodeData} (h : d.isConnection = true) : d.isPlace = true := by
  rcases d with _ | _ | _ | _ | _ <;> first | rfl | cases h

end NodeData

namespace Tree

/-! The lookups in one node, by the parts of it that they read. -/

/-- A node stands for itself unless a module has been loaded behind it. -/
theorem effective_eq (t : Tree) (id : NodeId) :
    t.effective id = (t.data id).loadedModule?.getD id := by
  rw [effective]
  rcases t.data id with _ | ⟨_, _, form⟩ | _ | _ | _
  case declaration =>
    cases form with
    | external kind file module => cases module <;> rfl
    | _ => rfl
  all_goals rfl

/-- A scope offers declarations first, then parameters, labels and virtual specifications. -/
theorem lookupLocal_eq (t : Tree) (scope : NodeId) (x : String) : t.lookupLocal scope x =
    ((t.data scope).declarations?.bind (·.find? t.caseRule x) <|>
      t.findNamed (t.data scope).parameters x <|>
      ((t.data scope).labels?.map (·.own)).bind (fun own => t.findNamed own.toList x) <|>
      ((t.class? scope).map (·.virtuals)).bind fun virtuals => t.findNamed virtuals.toList x) := by
  rw [Option.bind_map, Option.bind_map]
  rfl

/-- A hidden specification is looked for in the list of hidden ones. -/
theorem hiddenSpec?_eq (t : Tree) (c : NodeId) (x : String) : t.hiddenSpec? c x =
    ((t.class? c).map (·.hidden)).bind fun hidden => t.findNamed hidden.toList x := by
  rw [Option.bind_map]
  rfl

/-- A protected specification is looked for in the list of protected ones. -/
theorem protectedSpec?_eq (t : Tree) (c : NodeId) (x : String) : t.protectedSpec? c x =
    ((t.class? c).map (·.guarded)).bind fun guarded => t.findNamed guarded.toList x := by
  rw [Option.bind_map]
  rfl

/-- Only places offer something. -/
theorem isPlace_of_lookupLocal {t : Tree} {scope d : NodeId} {x : String}
    (h : t.lookupLocal scope x = some d) : (t.data scope).isPlace = true := by
  rw [lookupLocal] at h
  revert h
  rcases t.data scope with _ | _ | _ | _ | _
  case declaration | connection => exact fun _ => rfl
  all_goals exact nofun

/-- The two trees offer the same to lookups, apart from links. -/
structure SameOffers (t t' : Tree) : Prop where
  caseRule : t'.caseRule = t.caseRule
  offered : ∀ id, (t'.data id).offered = (t.data id).offered

namespace SameOffers

variable {t t₁ t₂ : Tree}

/-- A tree offers what it offers. -/
theorem refl (t : Tree) : t.SameOffers t := ⟨rfl, fun _ => rfl⟩

/-- Offers that two steps leave alone stay the same over both. -/
theorem trans (h : t.SameOffers t₁) (h' : t₁.SameOffers t₂) : t.SameOffers t₂ :=
  ⟨h'.caseRule.trans h.caseRule, fun id => (h'.offered id).trans (h.offered id)⟩

/-- A change that shows in no offer. -/
theorem update (t : Tree) (id : NodeId) {f : NodeData → NodeData}
    (hf : ∀ d, (f d).offered = d.offered) : t.SameOffers (t.update id f) where
  caseRule := rfl
  offered i := view_update t id hf i

/-- A new node that offers nothing. -/
theorem push (t : Tree) {n : Node} (hn : n.data.offered = .pending) : t.SameOffers (t.push n) where
  caseRule := rfl
  offered i := by
    rw [data_push]
    split
    · next hi => rw [hn, hi, data_of_size_le (Nat.le_refl _)]; rfl
    · rfl

section

variable {t' : Tree} (h : t.SameOffers t')
include h

/-- Whatever is told from the offer of a node is the same in both trees. -/
theorem read {β : Type} (f : NodeData → β) (hf : ∀ d, f d.offered = f d) (id : NodeId) :
    f (t'.data id) = f (t.data id) := by
  rw [← hf, h.offered, hf]

/-- The parts of a class apart from its links. -/
theorem classPart {β : Type} (f : ClassParts → β)
    (hf : ∀ c, f { c with prefixClass := none, body := c.body.offered } = f c) (id : NodeId) :
    (t'.class? id).map f = (t.class? id).map f := by
  refine h.read (fun d => d.class?.map f) (fun d => ?_) id
  rw [NodeData.class?_offered, Option.map_map]
  exact congrArg (d.class?.map ·) (funext hf)

/-- The same nodes are classes. -/
theorem isClass (id : NodeId) : t'.isClass id = t.isClass id :=
  h.read (·.class?.isSome) NodeData.isClass_offered id

/-- Nodes declare the same types. -/
theorem declaredType (id : NodeId) : (t'.data id).declaredType = (t.data id).declaredType :=
  h.read _ NodeData.declaredType_offered id

/-- Nodes stand for the same nodes. -/
theorem effective (id : NodeId) : t'.effective id = t.effective id := by
  rw [effective_eq, effective_eq, h.read _ NodeData.loadedModule?_offered id]

/-- A list of nodes has the same first node with an identifier. -/
theorem findNamed (ids : List NodeId) (x : String) : t'.findNamed ids x = t.findNamed ids x := by
  have hidentifier : t'.identifier? = t.identifier? :=
    funext (h.read _ NodeData.identifier?_offered)
  simp only [Tree.findNamed, hidentifier, sameIdentifier, h.caseRule]

/-- A scope offers the same under an identifier. -/
theorem lookupLocal (scope : NodeId) (x : String) :
    t'.lookupLocal scope x = t.lookupLocal scope x := by
  simp only [lookupLocal_eq, h.read _ NodeData.declarations?_offered scope,
    h.read _ NodeData.parameters_offered scope,
    h.read (fun d => d.labels?.map (·.own)) NodeData.ownLabels_offered scope,
    h.classPart (·.virtuals) (fun _ => rfl) scope, h.findNamed, h.caseRule]

/-- A class hides the same identifiers. -/
theorem hiddenSpec? (c : NodeId) (x : String) : t'.hiddenSpec? c x = t.hiddenSpec? c x := by
  simp only [hiddenSpec?_eq, h.classPart (·.hidden) (fun _ => rfl) c, h.findNamed]

/-- A class protects the same identifiers. -/
theorem protectedSpec? (c : NodeId) (x : String) :
    t'.protectedSpec? c x = t.protectedSpec? c x := by
  simp only [protectedSpec?_eq, h.classPart (·.guarded) (fun _ => rfl) c, h.findNamed]

end

end SameOffers

end Tree

end Simula
