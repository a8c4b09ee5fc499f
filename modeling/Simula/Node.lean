import Simula.Constant
import Simula.Error
import Simula.Operator

/-!
# Nodes of the syntax tree

A node is a declaration, a connection block, a statement or an expression, or it is pending
while its fields are still being read. Nodes refer to each other by number, so a class can
point at its prefix and a declaration at the scope around it without any node owning another.

Declarations share a name and an enclosing scope; expressions share a type, which is
undefined until the expression has been checked.
-/

namespace Simula

/-- The declarations of one scope in order, each under its own identifier. -/
structure DeclarationList where
  entries : Array (String × NodeId) := #[]
  deriving DecidableEq, Repr, Inhabited

namespace DeclarationList

/-- The declared nodes in order. -/
def nodes (l : DeclarationList) : List NodeId := l.entries.toList.map (·.2)

/-- The node declared under an identifier. -/
def find? (l : DeclarationList) (rule : CaseRule) (identifier : String) : Option NodeId :=
  (l.entries.find? fun e => rule.same e.1 identifier).map (·.2)

/-- Appends a declaration unless its identifier is taken. -/
def insert? (l : DeclarationList) (rule : CaseRule) (identifier : String) (id : NodeId) :
    Option DeclarationList :=
  if (l.find? rule identifier).isSome then none
  else some { l with entries := l.entries.push (identifier, id) }

/-- An identifier is taken if and only if an entry has it. -/
theorem insert?_eq (l : DeclarationList) (rule : CaseRule) (i : String) (id : NodeId) :
    l.insert? rule i id =
      if ∃ e ∈ l.entries, rule.same e.1 i = true then none
      else some ⟨l.entries.push (i, id)⟩ := by
  have hfind : (l.find? rule i).isSome = true ↔ ∃ e ∈ l.entries, rule.same e.1 i = true := by
    rw [find?, Option.isSome_map, Array.find?_isSome]
  rw [insert?]
  by_cases h : ∃ e ∈ l.entries, rule.same e.1 i = true
  · rw [if_pos (hfind.mpr h), if_pos h]
  · rw [if_neg fun hs => h (hfind.mp hs), if_neg h]

end DeclarationList

/-- The labels of one scope. The accumulated list holds those of all prefix classes too; it is
computed on demand and forgotten when a label is added. -/
structure LabelList where
  own : Array NodeId := #[]
  accumulated : Option (Array NodeId) := none
  /-- Once a list is ready for code generation no label may be added. -/
  ready : Bool := false
  deriving DecidableEq, Repr, Inhabited

/-- Appends a label to a list that is not ready yet. -/
def LabelList.push (l : LabelList) (label : NodeId) : LabelList :=
  if l.ready then l else { l with own := l.own.push label, accumulated := none }

/-- What a class, a procedure and a block have in common. -/
structure Body where
  declarations : DeclarationList := {}
  labels : LabelList := {}
  statements : Array NodeId := #[]
  deriving DecidableEq, Repr, Inhabited

/-- The parts of a class declaration. -/
structure ClassParts where
  /-- The prefix as written. -/
  prefixName : Option String := none
  /-- The class that the prefix denotes. -/
  prefixClass : Option NodeId := none
  parameters : Array NodeId := #[]
  virtuals : Array NodeId := #[]
  hidden : Array NodeId := #[]
  guarded : Array NodeId := #[]
  body : Body := {}
  deriving DecidableEq, Repr, Inhabited

/-- The forms of declarations. -/
inductive Declaration
  /-- A separately compiled module: its kind, its file, and the module once it is loaded. -/
  | external (moduleKind : Kind) (attributeFile : String) (module : Option NodeId)
  | classDeclaration (parts : ClassParts)
  | procedure (result : Ty) (parameters : Array NodeId) (body : Body)
  | block (body : Body)
  | simpleVariable (ty : Ty) (constant : Option NodeId)
  | array (ty : Ty) (dimensions : UInt8)
  | parameter (ty : Ty) (mode : ParameterMode) (kind : ParameterKind)
  /-- A label with its position, from 1, in the accumulated list of its scope. -/
  | label (index : Nat)
  | hiddenSpec (protectedBy : Option NodeId)
  | protectedSpec (hiddenBy : Option NodeId)
  | virtualSpec (kind : VirtualKind) (ty : Ty)
  deriving DecidableEq, Repr

/-- One branch of an inspect statement, inside which the attributes of a class are visible. -/
structure Connection where
  declaredIn : Option NodeId := none
  inspected : Option NodeId := none
  whenClass : Option String := none
  /-- The class whose attributes are visible, once it is known. -/
  classDeclaration : Option NodeId := none
  statement : Option NodeId := none
  deriving DecidableEq, Repr, Inhabited

/-- The forms of statements. -/
inductive Statement
  | standalone (expression : NodeId)
  | ifThenElse (condition thenBranch : NodeId) (elseBranch : Option NodeId)
  | whileDo (condition body : NodeId)
  | goto (target : NodeId)
  | labeled (labels : List String) (statement : NodeId)
  | compound (statements : Array NodeId)
  | inspect (object : NodeId) (connections : List NodeId) (otherwise : Option NodeId)
  | dummy
  deriving DecidableEq, Repr

/-- The forms of expressions. -/
inductive Expression
  | constant (value : Constant)
  /-- An identifier, with arguments when it is called or subscripted. -/
  | nameUse (identifier : String) (arguments : List NodeId)
  | binary (op : BinaryOp) (lhs rhs : NodeId)
  | unary (op : UnaryOp) (operand : NodeId)
  | assignment (op : AssignOp) (lhs rhs : NodeId)
  | generator (className : String) (arguments : List NodeId)
  | remote (object : NodeId) (attr : String) (arguments : List NodeId)
  | qualified (object : NodeId) (className : String)
  | relation (op : RelationOp) (object : NodeId) (className : String)
  | conversion (expression : NodeId) (kind : ConversionKind)
  deriving DecidableEq, Repr

/-- The content of a node. -/
inductive NodeData
  /-- A node whose fields have not been read yet. -/
  | pending
  | declaration (identifier : String) (declaredIn : Option NodeId) (form : Declaration)
  | connection (block : Connection)
  | statement (form : Statement)
  | expression (form : Expression) (ty : Ty)
  deriving DecidableEq, Repr, Inhabited

/-- A node of the tree: its source line and its content. -/
structure Node where
  line : Nat
  data : NodeData
  deriving DecidableEq, Repr, Inhabited

/-- The kind of a declaration. -/
def Declaration.kind : Declaration → Kind
  | external _ _ _ => .externalDeclaration
  | classDeclaration _ => .classDeclaration
  | procedure _ _ _ => .procedure
  | block _ => .block
  | simpleVariable _ _ => .simpleVariable
  | array _ _ => .array
  | parameter _ _ _ => .parameter
  | label _ => .label
  | hiddenSpec _ => .hiddenSpec
  | protectedSpec _ => .protectedSpec
  | virtualSpec _ _ => .virtualSpec

/-- The kind of a statement. -/
def Statement.kind : Statement → Kind
  | standalone _ => .standaloneExpression
  | ifThenElse _ _ _ => .ifStatement
  | whileDo _ _ => .whileStatement
  | goto _ => .gotoStatement
  | labeled _ _ => .labeledStatement
  | compound _ => .compoundStatement
  | inspect _ _ _ => .inspectStatement
  | dummy => .dummyStatement

/-- The kind of an expression. -/
def Expression.kind : Expression → Kind
  | constant _ => .constant
  | nameUse _ _ => .nameUse
  | binary _ _ _ => .binary
  | unary _ _ => .unary
  | assignment _ _ _ => .assignment
  | generator _ _ => .objectGenerator
  | remote _ _ _ => .remote
  | qualified _ _ => .qualifiedObject
  | relation _ _ _ => .objectRelation
  | conversion _ _ => .typeConversion

/-- The common part of the scopes that have one. -/
def Declaration.body? : Declaration → Option Body
  | classDeclaration c => some c.body
  | procedure _ _ b => some b
  | block b => some b
  | _ => none

/-- The declaration with its common part changed. -/
def Declaration.modifyBody (f : Body → Body) : Declaration → Declaration
  | classDeclaration c => classDeclaration { c with body := f c.body }
  | procedure t ps b => procedure t ps (f b)
  | block b => block (f b)
  | d => d

/-- The type of the quantity that a declaration introduces under an identifier. -/
def Declaration.declaredType (identifier : String) : Declaration → Ty
  | simpleVariable t _ | array t _ | parameter t _ _ | procedure t _ _ | virtualSpec _ t => t
  | label _ => .label
  | classDeclaration _ => .reference identifier
  | _ => .undefined

/-- The nodes below a scope's common part. -/
def Body.children (b : Body) : List NodeId :=
  b.declarations.nodes ++ b.labels.own.toList ++ b.statements.toList

/-- The nodes directly below a declaration. -/
def Declaration.children : Declaration → List NodeId
  | classDeclaration c =>
    c.parameters.toList ++ c.virtuals.toList ++ c.hidden.toList ++ c.guarded.toList ++
      c.body.children
  | procedure _ ps b => ps.toList ++ b.children
  | block b => b.children
  | simpleVariable _ c => c.toList
  | _ => []

/-- The nodes directly below a statement. -/
def Statement.children : Statement → List NodeId
  | standalone e => [e]
  | ifThenElse c t e => c :: t :: e.toList
  | whileDo c b => [c, b]
  | goto t => [t]
  | labeled _ s => [s]
  | compound ss => ss.toList
  | inspect o cs e => o :: (cs ++ e.toList)
  | dummy => []

/-- The nodes directly below an expression. -/
def Expression.children : Expression → List NodeId
  | constant _ => []
  | nameUse _ args => args
  | binary _ l r => [l, r]
  | unary _ e => [e]
  | assignment _ l r => [l, r]
  | generator _ args => args
  | remote o _ args => o :: args
  | qualified o _ => [o]
  | relation _ o _ => [o]
  | conversion e _ => [e]

namespace NodeData

/-- The kind of a node; a pending one has none yet. -/
def kind : NodeData → Kind
  | pending => .null
  | declaration _ _ d => d.kind
  | connection _ => .connectionBlock
  | statement s => s.kind
  | expression e _ => e.kind

/-- The identifier that a node declares or uses. -/
def identifier? : NodeData → Option String
  | declaration i _ _ => some i
  | expression (.nameUse i _) _ => some i
  | _ => none

/-- The scope in which a declaration or connection block stands. -/
def declaredIn? : NodeData → Option NodeId
  | declaration _ s _ => s
  | connection c => c.declaredIn
  | _ => none

/-- The node moved to another scope. -/
def withDeclaredIn (scope : Option NodeId) : NodeData → NodeData
  | declaration i _ d => declaration i scope d
  | connection c => connection { c with declaredIn := scope }
  | n => n

/-- The declaration under another identifier; other nodes stay as they are. -/
def withIdentifier (identifier : String) : NodeData → NodeData
  | declaration _ s d => declaration identifier s d
  | n => n

/-- The common part of a class, procedure or block. -/
def body? : NodeData → Option Body
  | declaration _ _ d => d.body?
  | _ => none

/-- The node with the common part of its scope changed. -/
def modifyBody (f : Body → Body) : NodeData → NodeData
  | declaration i s d => declaration i s (d.modifyBody f)
  | n => n

/-- The declaration list of a scope. -/
def declarations? (n : NodeData) : Option DeclarationList := n.body?.map (·.declarations)

/-- The label list of a scope. -/
def labels? (n : NodeData) : Option LabelList := n.body?.map (·.labels)

/-- The parts of a class declaration. -/
def class? : NodeData → Option ClassParts
  | declaration _ _ (.classDeclaration c) => some c
  | _ => none

/-- The node with the parts of its class changed. -/
def modifyClass (f : ClassParts → ClassParts) : NodeData → NodeData
  | declaration i s (.classDeclaration c) => declaration i s (.classDeclaration (f c))
  | n => n

/-- The parameters of a class or procedure. -/
def parameters : NodeData → List NodeId
  | declaration _ _ (.classDeclaration c) => c.parameters.toList
  | declaration _ _ (.procedure _ ps _) => ps.toList
  | _ => []

/-- The statements of a scope or compound statement. -/
def statements : NodeData → List NodeId
  | declaration _ _ (.classDeclaration c) => c.body.statements.toList
  | declaration _ _ (.procedure _ _ b) => b.statements.toList
  | declaration _ _ (.block b) => b.statements.toList
  | statement (.compound ss) => ss.toList
  | _ => []

/-- The type of the quantity that a node declares. -/
def declaredType : NodeData → Ty
  | declaration i _ d => d.declaredType i
  | _ => .undefined

/-- The type recorded on an expression. -/
def expressionType? : NodeData → Option Ty
  | expression _ t => some t
  | _ => none

/-- The expression with another type recorded; other nodes stay as they are. -/
def withExpressionType (t : Ty) : NodeData → NodeData
  | expression e _ => expression e t
  | n => n

/-- The nodes directly below a node, in the order of its fields. -/
def children : NodeData → List NodeId
  | declaration _ _ d => d.children
  | connection c => c.statement.toList
  | statement s => s.children
  | expression e _ => e.children
  | pending => []

end NodeData

end Simula
