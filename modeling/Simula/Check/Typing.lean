import Simula.Check.State

/-!
# Types of expressions

Every expression gets a type, which is stored in its node. An undefined type stands for an
expression in which a mistake has been reported; it causes no further reports where it is
used. An assignment whose value needs a conversion gets a conversion node around that value.

Typing follows the nodes below an expression to a given depth, so that it ends even when
nodes of a damaged tree contain each other. An assignment that is reached many times may gather
a long run of conversions. They keep the types they have, so a run of them is one level only.
-/

namespace Simula.CheckM

/-- Reports that two types do not go together. -/
def incompatible (line : Nat) (a b : Ty) : CheckM Unit := report line (.incompatibleTypes a b)

/-- How a value of one type reaches a variable of another in a scope. -/
def conversionIn (scope : NodeId) (source target : Ty) : CheckM ConversionKind :=
  return source.conversionTo ((← tree).classView scope) target

/-- Reports a value that cannot be assigned; a value of undefined type always can. -/
def requireAssignable (source target : Ty) (scope : NodeId) (line : Nat) : CheckM Unit := do
  unless source.isUndefined do
    if (← conversionIn scope source target) = .illegal then incompatible line source target

/-- The type of references to a class, under the identifier that the class itself has. -/
def classType (identifier : String) (scope : NodeId) (line : Nat) : CheckM Ty := do
  let t ← tree
  match t.lookupClass scope identifier with
  | some c => return .reference ((t.identifier? c).getD identifier)
  | none =>
    report line (.undefinedClass identifier)
    return .undefined

/-- The type of an identifier: that of the declaration it denotes. -/
def nameType (identifier : String) (scope : NodeId) (line : Nat) : CheckM Ty := do
  let t ← tree
  match (t.resolve scope identifier).declaration with
  | some d => return (t.data d).declaredType
  | none =>
    report line (.undefinedIdentifier identifier)
    return .undefined

/-- Reports unless both operands have a certain type. -/
def requireBoth (expected lhs rhs : Ty) (line : Nat) : CheckM Unit := do
  unless lhs.same expected && rhs.same expected do incompatible line lhs rhs

/-- The type of an arithmetic operation; dividing two integers gives a real. -/
def arithmeticType (op : BinaryOp) (lhs rhs : Ty) (scope : NodeId) (line : Nat) : CheckM Ty := do
  if lhs.isArithmetic && rhs.isArithmetic then
    let common := (lhs.common ((← tree).classView scope) rhs).getD .undefined
    return if op = .div && common.same .integer then .real else common
  else
    incompatible line lhs rhs
    return .undefined

/-- Whether two types have a common type in a scope. -/
def haveCommonType (scope : NodeId) (lhs rhs : Ty) : CheckM Bool :=
  return (lhs.common ((← tree).classView scope) rhs).isSome

/-- The type of an operation whose operands have the given types. -/
def binaryType (op : BinaryOp) (lhs rhs : Ty) (scope : NodeId) (line : Nat) : CheckM Ty := do
  if lhs.isUndefined || rhs.isUndefined then
    return if op.isArithmetic then .undefined else .boolean
  match op with
  | .intDiv =>
    requireBoth .integer lhs rhs line
    return .integer
  | .add | .sub | .mul | .div | .exp => arithmeticType op lhs rhs scope line
  | .and | .or | .imp | .eqv =>
    requireBoth .boolean lhs rhs line
    return .boolean
  | .concat =>
    requireBoth .text lhs rhs line
    return .text
  | .refEq | .refNe =>
    let common ← haveCommonType scope lhs rhs
    unless (lhs.isReference || lhs.same .text) && common do incompatible line lhs rhs
    return .boolean
  | .lt | .le | .eq | .ne | .gt | .ge =>
    unless ← haveCommonType scope lhs rhs do incompatible line lhs rhs
    return .boolean

/-- The type of an operation with one operand. -/
def unaryType (op : UnaryOp) (operand : Ty) (line : Nat) : CheckM Ty := do
  match op with
  | .not =>
    unless operand.same .boolean || operand.isUndefined do incompatible line operand .boolean
    return .boolean
  | .plus | .minus =>
    if operand.isArithmetic || operand.isUndefined then return operand
    else
      incompatible line operand .integer
      return .undefined

/-- An assignment of another value; other nodes stay as they are. -/
def withAssigned (value : NodeId) : NodeData → NodeData
  | .expression (.assignment op lhs _) ty => .expression (.assignment op lhs value) ty
  | d => d

/-- Puts a conversion around the value of an assignment. -/
def insertConversion (assignment rhs : NodeId) (kind : ConversionKind) (target : Ty)
    (line : Nat) : CheckM Unit :=
  modify fun s =>
    let (converted, tree) := s.tree.add line (.expression (.conversion rhs kind) target)
    { s with tree := tree.update assignment (withAssigned converted) }

/-- The type of an assignment, which is that of its target. -/
def assignmentType (assignment : NodeId) (op : AssignOp) (rhs : NodeId) (target value : Ty)
    (scope : NodeId) (line : Nat) : CheckM Ty := do
  unless value.isUndefined || target.isUndefined do
    match ← conversionIn scope value target with
    | .directAssignable => pure ()
    | .convertValue => insertConversion assignment rhs .convertValue target line
    | .convertRef => insertConversion assignment rhs .convertRef target line
    | .illegal =>
      match op with
      | .reference => report line (.illegalReferenceConversion value target)
      | .value => incompatible line value target
  return target

/-- Whether some class around a scope is `c` or a subclass of it, looking at most `steps`
classes outwards. -/
def insideSubclassFrom (t : Tree) (c : NodeId) : Nat → Option NodeId → Bool
  | _, none => false
  | 0, some _ => false
  | steps + 1, some d =>
    (t.prefixChain d).contains c ||
      insideSubclassFrom t c steps ((t.declaredIn? d).bind t.enclosingClass)

/-- Whether some class around a scope is `c` or a subclass of it. -/
def insideSubclass (t : Tree) (scope c : NodeId) : Bool :=
  insideSubclassFrom t c t.size (t.enclosingClass scope)

/-- The type of an attribute accessed through a reference. -/
def remoteType (object : Ty) (attr : String) (scope : NodeId) (line : Nat) : CheckM Ty := do
  match object with
  | .undefined => return .undefined
  | .ref (some name) =>
    let t ← tree
    match t.lookupClass scope name with
    | none =>
      report line (.undefinedClass name)
      return .undefined
    | some c =>
      let meaning := t.resolveRemote scope c attr
      match meaning.declaration, meaning.declaredIn with
      | some declaration, some declarer =>
        if t.isProtected c declarer attr && !insideSubclass t scope declarer then
          report line (.protectedAccess attr)
        return (t.data declaration).declaredType
      | _, _ =>
        report line (.undefinedAttribute attr name)
        return .undefined
  | other =>
    report line (.remoteThroughValue attr other)
    return .undefined

/-- Reports a test or qualification by a class that the object can never have. -/
def checkReferenceTest (test : ReferenceTest) (object target : Ty) (scope : NodeId)
    (line : Nat) : CheckM Unit := do
  unless object.isUndefined || target.isUndefined do
    if (← conversionIn scope object target) = .illegal || !object.isReference then
      report line (.illegalReferenceTest test object target)

/-- The expression under a run of conversions, at most `steps` of them. -/
def underConversionsWithin (t : Tree) : Nat → NodeId → NodeId
  | 0, id => id
  | steps + 1, id =>
    match t.data id with
    | .expression (.conversion expression _) _ => underConversionsWithin t steps expression
    | _ => id

/-- The expression under a run of conversions, which are at most all nodes of the tree. -/
def underConversions (t : Tree) (id : NodeId) : NodeId := underConversionsWithin t t.size id

/-- Types expressions one after the other. -/
def typeAll (typeOf : NodeId → CheckM Ty) : List NodeId → CheckM Unit
  | [] => pure ()
  | e :: rest => do
    discard <| typeOf e
    typeAll typeOf rest

/-- The type of an expression of the given form, `typeOf` typing the expressions below it. -/
def formType (typeOf : NodeId → CheckM Ty) (scope id : NodeId) (line : Nat) (stored : Ty) :
    Expression → CheckM Ty
  | .constant value => return value.ty
  | .nameUse identifier arguments => do
    typeAll typeOf arguments
    nameType identifier scope line
  | .binary op lhs rhs => do
    let l ← typeOf lhs
    let r ← typeOf rhs
    binaryType op l r scope line
  | .unary op operand => do unaryType op (← typeOf operand) line
  | .assignment op lhs rhs => do
    let target ← typeOf lhs
    let value ← typeOf rhs
    assignmentType id op rhs target value scope line
  | .generator className arguments => do
    typeAll typeOf arguments
    classType className scope line
  | .remote object attr arguments => do
    let o ← typeOf object
    typeAll typeOf arguments
    remoteType o attr scope line
  | .qualified object className => do
    let o ← typeOf object
    let target ← classType className scope line
    checkReferenceTest .qua o target scope line
    return target
  | .relation _ object className => do
    let o ← typeOf object
    let target ← classType className scope line
    checkReferenceTest .isIn o target scope line
    return .boolean
  | .conversion expression _ => do
    discard <| typeOf (underConversions (← tree) expression)
    return stored

/-- Types an expression seen from a scope, following at most `depth` levels of nodes, and
stores the type in the node. -/
def typeExpr : Nat → NodeId → NodeId → CheckM Ty
  | 0, _, id => throw (.internal (.endlessNesting id))
  | depth + 1, scope, id => do
    let t ← tree
    match t.data id with
    | .expression form stored =>
      let ty ← formType (typeExpr depth scope) scope id (t.line id) stored form
      update id fun d => d.withExpressionType ty
      return ty
    | _ => return .undefined

end Simula.CheckM
