import Simula.Tree.PrefixChain
import Simula.Ty.Conversion

/-!
# The meaning of identifiers

An identifier is looked up in the scopes around its use, from the inside out. A class is
searched along its prefix chain; a hidden specification met on the way makes the search
continue behind the class that protects the identifier. A connection block offers the
attributes of its class as if they were accessed through a reference.

Every walk is bounded by the size of the tree, so it ends on damaged trees too.
-/

namespace Simula

/-- An attribute found in a class or one of its prefixes. -/
structure Attribute where
  declaration : NodeId
  /-- The class on the prefix chain that declares it. -/
  declarer : NodeId
  /-- Whether the search passed behind a hidden specification. -/
  behind : Bool
  deriving DecidableEq, Repr

/-- What an identifier denotes at one place. -/
structure Meaning where
  /-- The declaration; an undefined identifier has none. -/
  declaration : Option NodeId := none
  /-- The scope in which the search started. -/
  searchScope : NodeId
  /-- The scope around the use in which the search succeeded. -/
  foundIn : Option NodeId := none
  /-- The scope that holds the declaration. -/
  declaredIn : Option NodeId := none
  /-- Whether the search passed behind a hidden specification. -/
  behind : Bool := false
  /-- Whether the declaration is an attribute of a connected object. -/
  connected : Bool := false
  deriving DecidableEq, Repr

/-- Whether an identifier denotes something. -/
def Meaning.isDefined (m : Meaning) : Bool := m.declaration.isSome

namespace Tree

/-- The first of some nodes that has the given identifier. -/
def findNamed (t : Tree) (ids : List NodeId) (identifier : String) : Option NodeId :=
  ids.find? fun id =>
    match t.identifier? id with
    | some i => t.sameIdentifier i identifier
    | none => false

/-- The node that a scope itself offers under an identifier: a declaration, a parameter, a
label or a virtual specification, in this order. -/
def lookupLocal (t : Tree) (scope : NodeId) (identifier : String) : Option NodeId :=
  let d := t.data scope
  (d.declarations?.bind fun l => l.find? t.caseRule identifier) <|>
    t.findNamed d.parameters identifier <|>
    (d.labels?.bind fun l => t.findNamed l.own.toList identifier) <|>
    (d.class?.bind fun c => t.findNamed c.virtuals.toList identifier)

/-- The hidden specification of an identifier in a class. -/
def hiddenSpec? (t : Tree) (c : NodeId) (identifier : String) : Option NodeId :=
  (t.class? c).bind fun c => t.findNamed c.hidden.toList identifier

/-- The protected specification of an identifier in a class. -/
def protectedSpec? (t : Tree) (c : NodeId) (identifier : String) : Option NodeId :=
  (t.class? c).bind fun c => t.findNamed c.guarded.toList identifier

/-- The protected specification found from a class upwards in at most `budget` steps. A class
that hides the identifier again is passed together with all classes up to the one that
protects it there. -/
def protectedAbove (t : Tree) (identifier : String) : Nat → Option NodeId → Option NodeId
  | _, none => none
  | 0, some _ => none
  | budget + 1, some c =>
    if (t.hiddenSpec? c identifier).isSome then
      match t.protectedSpec? c identifier <|>
          t.protectedAbove identifier budget (t.prefixClass? c) with
      | none => none
      | some spec =>
        t.protectedAbove identifier budget ((t.declaredIn? spec).bind t.prefixClass?)
    else
      match t.protectedSpec? c identifier with
      | some spec => some spec
      | none => t.protectedAbove identifier budget (t.prefixClass? c)

/-- The protected specification that a hidden specification of an identifier in a class
refers to: its own, or one found along its prefixes. -/
def findProtected (t : Tree) (c : NodeId) (identifier : String) : Option NodeId :=
  t.protectedSpec? c identifier <|>
    t.protectedAbove identifier t.size (t.prefixClass? c)

/-- The protected specification recorded in a hidden one. -/
def protectedBy? (t : Tree) (hidden : NodeId) : Option NodeId :=
  match t.data hidden with
  | .declaration _ _ (.hiddenSpec p) => p
  | _ => none

/-- The class whose protected specification belongs to a hidden one of a class. -/
def protectedDeclarer (t : Tree) (c hidden : NodeId) (identifier : String) : Option NodeId :=
  (t.protectedBy? hidden <|> t.findProtected c identifier).bind t.declaredIn?

/-- Searches a class and its prefixes in at most `steps` steps. `outside` tells whether hidden
specifications of the class count, `behind` whether one has been passed. -/
def searchAttribute (t : Tree) (identifier : String) :
    Nat → Bool → Bool → Option NodeId → Option Attribute
  | _, _, _, none => none
  | 0, _, _, some _ => none
  | steps + 1, outside, behind, some c =>
    match if outside then t.hiddenSpec? c identifier else none with
    | some hidden =>
      let next := (t.protectedDeclarer c hidden identifier).getD c
      t.searchAttribute identifier steps true true (t.prefixClass? next)
    | none =>
      match t.lookupLocal c identifier with
      | some declaration => some ⟨declaration, c, behind⟩
      | none => t.searchAttribute identifier steps true behind (t.prefixClass? c)

/-- The attribute of a class that an identifier denotes. Hidden specifications of the class
itself count only for an access through a reference. -/
def findAttribute (t : Tree) (c : NodeId) (identifier : String) (remote : Bool) :
    Option Attribute :=
  t.searchAttribute identifier t.size remote false (some c)

/-- The part of a list up to and including the first occurrence of a value. -/
def upTo (id : NodeId) : List NodeId → List NodeId
  | [] => []
  | c :: rest => if c = id then [c] else c :: upTo id rest

/-- Whether a class between `c` and the declaring class protects an identifier. -/
def isProtected (t : Tree) (c declarer : NodeId) (identifier : String) : Bool :=
  (upTo declarer (t.prefixChain c)).any fun d => (t.protectedSpec? d identifier).isSome

/-- The module behind an external declaration that is loaded; other nodes stand for themselves. -/
def effective (t : Tree) (id : NodeId) : NodeId :=
  match t.data id with
  | .declaration _ _ (.external _ _ (some module)) => module
  | _ => id

/-- What one scope offers under an identifier, and whether through a connected object. -/
def lookupScope (t : Tree) (scope : NodeId) (identifier : String) : Option (Attribute × Bool) :=
  match t.data scope with
  | .connection c =>
    (c.classDeclaration.bind fun d => t.findAttribute d identifier true).map (·, true)
  | .declaration _ _ (.classDeclaration _) =>
    (t.findAttribute scope identifier false).map (·, false)
  | _ => (t.lookupLocal scope identifier).map fun d => (⟨d, scope, false⟩, false)

/-- Looks an identifier up from a scope outwards in at most `steps` scopes. -/
def resolveFrom (t : Tree) (start : NodeId) (identifier : String) :
    Nat → Option NodeId → Meaning
  | _, none => { searchScope := start }
  | 0, some _ => { searchScope := start }
  | steps + 1, some scope =>
    match t.lookupScope scope identifier with
    | some (a, connected) =>
      { declaration := some (t.effective a.declaration)
        searchScope := start
        foundIn := some scope
        declaredIn := some a.declarer
        behind := a.behind
        connected := connected }
    | none => t.resolveFrom start identifier steps (t.declaredIn? scope)

/-- The meaning of an identifier as seen from a scope. -/
def resolve (t : Tree) (scope : NodeId) (identifier : String) : Meaning :=
  t.resolveFrom scope identifier t.size (some scope)

/-- The meaning of an attribute accessed through a reference to a class. -/
def resolveRemote (t : Tree) (scope c : NodeId) (identifier : String) : Meaning :=
  match t.findAttribute c identifier true with
  | some a =>
    { declaration := some (t.effective a.declaration)
      searchScope := scope
      foundIn := some c
      declaredIn := some a.declarer
      behind := a.behind }
  | none => { searchScope := scope }

/-- The innermost class around a scope, found in at most `steps` scopes. -/
def enclosingClassFrom (t : Tree) : Nat → Option NodeId → Option NodeId
  | _, none => none
  | 0, some _ => none
  | steps + 1, some scope =>
    if t.isClass scope then some scope else t.enclosingClassFrom steps (t.declaredIn? scope)

/-- The innermost class around a scope, the scope itself included. -/
def enclosingClass (t : Tree) (scope : NodeId) : Option NodeId :=
  t.enclosingClassFrom t.size (some scope)

/-- The class that an identifier denotes as seen from a scope. -/
def lookupClass (t : Tree) (scope : NodeId) (identifier : String) : Option NodeId :=
  (t.resolve scope identifier).declaration.filter t.isClass

/-- The classes as seen from a scope. -/
def classView (t : Tree) (scope : NodeId) : ClassView where
  find := t.lookupClass scope
  isSubclass := t.isSubclass

/-- Where class identifiers and prefix chains are the same, the classes seen from a scope are. -/
theorem classView_congr {t t' : Tree} {scope : NodeId}
    (hclass : ∀ x, t'.lookupClass scope x = t.lookupClass scope x)
    (hchain : ∀ c, t'.prefixChain c = t.prefixChain c) :
    t'.classView scope = t.classView scope := by
  rw [classView, classView, funext hclass]
  congr 1
  funext c d
  rw [isSubclass, isSubclass, hchain]

end Tree

end Simula
