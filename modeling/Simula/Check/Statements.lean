import Simula.Check.Typing
import Simula.Tree.Labels

/-!
# Checking scopes and statements

A scope is checked by checking its nested scopes and constants, then its statements, and at
last numbering its labels, after which none may be added. A connection block makes the
attributes of a class visible in its statement.

Like typing, the check follows nodes to a given depth.
-/

namespace Simula.CheckM

/-- Checks a condition, which must be of type boolean. -/
def checkCondition (depth : Nat) (scope condition : NodeId) : CheckM Unit := do
  let ty ← typeExpr depth scope condition
  unless ty.same .boolean || ty.isUndefined do
    report ((← tree).line condition) (.conditionNotBoolean ty)

/-- Checks the initial value of a constant declaration. -/
def checkConstantDeclaration (depth : Nat) (scope decl : NodeId) : CheckM Unit := do
  match (← tree).data decl with
  | .declaration _ _ (.simpleVariable declared (some constant)) =>
    let actual ← typeExpr depth scope constant
    requireAssignable actual declared scope ((← tree).line decl)
  | _ => pure ()

/-- The class whose attributes a connection block makes visible: the named one, or that of
the inspected object. -/
def connectedClass (whenClass : Option String) (objectType : Ty) (scope : NodeId)
    (line : Nat) : CheckM (Option NodeId) := do
  let t ← tree
  match whenClass, objectType with
  | some name, _ =>
    let found := t.lookupClass scope name
    if found.isNone then report line (.undefinedClass name)
    return found
  | none, .ref (some name) => return t.lookupClass scope name
  | none, .ref none => return none
  | none, .undefined => return none
  | none, other =>
    report line (.inspectedValue other)
    return none

/-- A connection block with its class, standing in a scope unless it already has one. -/
def withConnectedClass (c : Option NodeId) (scope : NodeId) : NodeData → NodeData
  | .connection b =>
    .connection { b with classDeclaration := c, declaredIn := b.declaredIn <|> some scope }
  | d => d

/-- Checks one branch of an inspect statement. -/
def checkConnection (checkStatement : NodeId → NodeId → CheckM Unit) (objectType : Ty)
    (scope connection : NodeId) : CheckM Unit := do
  let t ← tree
  match t.data connection with
  | .connection block =>
    let c ← connectedClass block.whenClass objectType scope (t.line connection)
    update connection (withConnectedClass c scope)
    match block.statement with
    | some statement => checkStatement connection statement
    | none => pure ()
  | _ => throw (.internal .notAConnection)

/-- Runs a step for each of some nodes in order. -/
def forEach (step : NodeId → CheckM Unit) : List NodeId → CheckM Unit
  | [] => pure ()
  | id :: rest => do
    step id
    forEach step rest

/-- Numbers the labels of a scope that has a label list and closes the list. -/
def finishLabels (scope : NodeId) : CheckM Unit := do
  if ((← tree).data scope).labels?.isSome then
    discard <| onTree (Tree.accumulatedLabels scope)
    modify fun s => { s with tree := (s.tree.markLabelsReady scope).1 }

/-- The node in a scope, unless it already stands in one. -/
def withScope (scope : NodeId) (d : NodeData) : NodeData :=
  if d.declaredIn?.isNone then d.withDeclaredIn (some scope) else d

mutual

/-- Checks a class, procedure or block to a given depth. -/
def checkScope : Nat → NodeId → CheckM Unit
  | 0, scope => throw (.internal (.endlessNesting scope))
  | depth + 1, scope => do
    let data := (← tree).data scope
    forEach (fun decl => do
      match (← tree).kind decl with
      | .classDeclaration | .procedure | .block => checkScope depth decl
      | .simpleVariable => checkConstantDeclaration depth scope decl
      | _ => pure ()) ((data.declarations?.map (·.nodes)).getD [])
    forEach (checkStatement depth scope) data.statements
    finishLabels scope

/-- Checks a statement seen from a scope to a given depth. -/
def checkStatement : Nat → NodeId → NodeId → CheckM Unit
  | 0, _, id => throw (.internal (.endlessNesting id))
  | depth + 1, scope, id => do
    let data := (← tree).data id
    match data with
    | .statement (.standalone e) => discard <| typeExpr depth scope e
    | .statement (.ifThenElse condition thenBranch elseBranch) =>
      checkCondition depth scope condition
      checkStatement depth scope thenBranch
      forEach (checkStatement depth scope) elseBranch.toList
    | .statement (.whileDo condition body) =>
      checkCondition depth scope condition
      checkStatement depth scope body
    | .statement (.goto target) => discard <| typeExpr depth scope target
    | .statement (.labeled _ inner) => checkStatement depth scope inner
    | .statement (.compound inner) => forEach (checkStatement depth scope) inner.toList
    | .statement (.inspect object connections otherwise) =>
      let objectType ← typeExpr depth scope object
      forEach (checkConnection (checkStatement depth) objectType scope) connections
      forEach (checkStatement depth scope) otherwise.toList
    | .statement .dummy => pure ()
    | .expression _ _ => discard <| typeExpr depth scope id
    | _ =>
      if data.body?.isSome then
        update id (withScope scope)
        checkScope depth id
      else throw (.internal (.notAStatement data.kind))

end

end Simula.CheckM
