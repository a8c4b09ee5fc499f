import Simula.Diagnostic
import Simula.Tree

/-!
# Building a syntax tree

Declarations, parameters, specifications, statements and labels are added to scopes one at a
time. An identifier is stored in the spelling of the tree's case rule when it is declared.

An operation that fails leaves the tree as far as it had been changed.
-/

namespace Simula

/-- An action on a tree, which keeps its changes when it fails. -/
abbrev TreeM := EStateM Error Tree

namespace Tree

/-- Adds a declaration to a scope, or tells why it was left out. The declaration gets its
normalized identifier and its scope in either case, unless it has no identifier at all. -/
def declare (t : Tree) (scope decl : NodeId) : Tree × Option Diagnostic :=
  match t.identifier? decl with
  | none => (t, some ((Finding.undeclarable (t.kind decl)).onLine (t.line decl)))
  | some written =>
    let identifier := t.normalize written
    let t := t.update decl fun d => (d.withIdentifier identifier).withDeclaredIn (some scope)
    match (t.data scope).declarations? with
    | none => (t, some (Finding.noDeclarationList.onLine (t.line decl)))
    | some list =>
      match list.insert? t.caseRule identifier decl with
      | some list =>
        (t.update scope fun d => d.modifyBody fun b => { b with declarations := list }, none)
      | none => (t, some ((Finding.duplicateDeclaration identifier).onLine (t.line decl)))

/-- Whether a node is a formal parameter. -/
def isParameter (t : Tree) (id : NodeId) : Bool := t.kind id == .parameter

/-- A class or procedure with one more parameter. -/
def withParameter (parameter : NodeId) : NodeData → NodeData
  | .declaration i s (.classDeclaration c) =>
    .declaration i s (.classDeclaration { c with parameters := c.parameters.push parameter })
  | .declaration i s (.procedure r ps b) => .declaration i s (.procedure r (ps.push parameter) b)
  | d => d

/-- Adds a parameter to a class or procedure. -/
def addParameter (scope parameter : NodeId) : TreeM Unit := do
  let t ← get
  match t.identifier? parameter with
  | none => throw (.internal .unnamedParameter)
  | some identifier =>
    if t.isParameter parameter then
      modify fun t => t.update parameter fun d =>
        (d.withIdentifier (t.normalize identifier)).withDeclaredIn (some scope)
    let kind := (← get).kind scope
    if kind.isModule then modify fun t => t.update scope (withParameter parameter)
    else throw (.internal (.noParameterList kind))

/-- A class with one more specification of the given kind, if that is a kind of specification. -/
def withSpecification (spec : NodeId) (kind : Kind) (c : ClassParts) : Option ClassParts :=
  match kind with
  | .hiddenSpec => some { c with hidden := c.hidden.push spec }
  | .protectedSpec => some { c with guarded := c.guarded.push spec }
  | .virtualSpec => some { c with virtuals := c.virtuals.push spec }
  | _ => none

/-- Adds a hidden, protected or virtual specification to a class. -/
def addSpecification (scope spec : NodeId) : TreeM Unit := do
  let t ← get
  let kind := t.kind spec
  match t.identifier? spec with
  | none => throw (.internal .unnamedSpecification)
  | some identifier =>
    modify fun t => t.update spec fun d =>
      (d.withIdentifier (t.normalize identifier)).withDeclaredIn (some scope)
    match (← get).class? scope with
    | none => throw (.internal .specificationOutsideClass)
    | some c =>
      match withSpecification spec kind c with
      | some c => modify fun t => t.update scope fun d => d.modifyClass fun _ => c
      | none => throw (.internal (.notASpecification kind))

/-- A scope or compound statement with one more statement. -/
def withStatement (statement : NodeId) : NodeData → NodeData
  | .statement (.compound ss) => .statement (.compound (ss.push statement))
  | d => d.modifyBody fun b => { b with statements := b.statements.push statement }

/-- Adds a statement to a scope or compound statement. -/
def addStatement (scope statement : NodeId) : TreeM Unit := do
  let kind := (← get).kind scope
  if kind.isModule || kind == .block || kind == .compoundStatement then
    modify fun t => t.update scope (withStatement statement)
  else throw (.internal (.noStatementList kind))

/-- Declares a label in a scope whose label list is not ready yet. -/
def addLabel (scope : NodeId) (identifier : String) (line : Nat) : TreeM NodeId := do
  let t ← get
  match (t.data scope).labels?.map (·.ready) with
  | none => throw (.internal (.noLabelList (t.kind scope)))
  | some true => throw (.internal (.labelAfterReady identifier))
  | some false =>
    let label := t.size
    let data := NodeData.declaration (t.normalize identifier) (some scope) (.label 0)
    modify fun t => (t.push ⟨line, data⟩).update scope fun d =>
      d.modifyBody fun b => { b with labels := b.labels.push label }
    return label

end Tree

end Simula
