import Simula.ObjectStream.Shape

/-!
# Record layouts

For every kind of node, the fields of its record in order, how a node is built from them and
how they are taken from a node. What a layout leaves out is not stored: the module behind an
external declaration and the accumulated labels of a scope are found again after loading.
-/

namespace Simula

/-- The record of one kind of node. -/
structure Layout where
  shapes : List Shape
  /-- The node with the given fields. -/
  build : Payload shapes → NodeData
  /-- The fields of a node of this kind. -/
  fields : NodeData → Option (Payload shapes)

/-- The common part of a scope from its stored fields. -/
def Body.ofFields (declarations : DeclarationList) (labels : List NodeId) (ready : Bool)
    (statements : List NodeId) : Body where
  declarations := declarations
  labels := { own := labels.toArray, ready := ready }
  statements := statements.toArray

namespace Layout

/-- The record of an external declaration. -/
def external : Layout where
  shapes := [.scalar .moduleName, .scalar .identifier, .link]
  build := fun ((i, k), file, s, ()) => .declaration i s (.external k file none)
  fields
    | .declaration i s (.external k file _) => some ((i, k), file, s, ())
    | _ => none

/-- The record of a class declaration. -/
def classDeclaration : Layout where
  shapes := [.scalar .identifier, .scalar .name, .link, .link, .children "parameter",
    .children "virtual specification", .children "hidden specification",
    .children "protected specification", .declarations, .children "label", .scalar .flag,
    .children "statement"]
  build := fun (i, p, s, c, params, virtuals, hidden, guarded, decls, labels, ready, stmts, ()) =>
    .declaration i s <| .classDeclaration
      { prefixName := p
        prefixClass := c
        parameters := params.toArray
        virtuals := virtuals.toArray
        hidden := hidden.toArray
        guarded := guarded.toArray
        body := .ofFields decls labels ready stmts }
  fields
    | .declaration i s (.classDeclaration c) =>
      some (i, c.prefixName, s, c.prefixClass, c.parameters.toList, c.virtuals.toList,
        c.hidden.toList, c.guarded.toList, c.body.declarations, c.body.labels.own.toList,
        c.body.labels.ready, c.body.statements.toList, ())
    | _ => none

/-- The record of a procedure declaration. -/
def procedure : Layout where
  shapes := [.scalar .identifier, .scalar .type, .link, .children "parameter", .declarations,
    .children "label", .scalar .flag, .children "statement"]
  build := fun (i, t, s, params, decls, labels, ready, stmts, ()) =>
    .declaration i s (.procedure t params.toArray (.ofFields decls labels ready stmts))
  fields
    | .declaration i s (.procedure t params b) =>
      some (i, t, s, params.toList, b.declarations, b.labels.own.toList, b.labels.ready,
        b.statements.toList, ())
    | _ => none

/-- The record of a block. -/
def block : Layout where
  shapes := [.scalar .identifier, .link, .declarations, .children "label", .scalar .flag,
    .children "statement"]
  build := fun (i, s, decls, labels, ready, stmts, ()) =>
    .declaration i s (.block (.ofFields decls labels ready stmts))
  fields
    | .declaration i s (.block b) =>
      some (i, s, b.declarations, b.labels.own.toList, b.labels.ready, b.statements.toList, ())
    | _ => none

/-- The record of a simple variable. -/
def simpleVariable : Layout where
  shapes := [.scalar .identifier, .scalar .type, .link, .link]
  build := fun (i, t, s, c, ()) => .declaration i s (.simpleVariable t c)
  fields
    | .declaration i s (.simpleVariable t c) => some (i, t, s, c, ())
    | _ => none

/-- The record of an array. -/
def array : Layout where
  shapes := [.scalar .identifier, .scalar .type, .scalar .byte, .link]
  build := fun (i, t, n, s, ()) => .declaration i s (.array t n)
  fields
    | .declaration i s (.array t n) => some (i, t, n, s, ())
    | _ => none

/-- The record of a parameter. -/
def parameter : Layout where
  shapes := [.scalar .identifier, .scalar .type, .scalar .parameterMode,
    .scalar .parameterKind, .link]
  build := fun (i, t, m, k, s, ()) => .declaration i s (.parameter t m k)
  fields
    | .declaration i s (.parameter t m k) => some (i, t, m, k, s, ())
    | _ => none

/-- The record of a label. -/
def label : Layout where
  shapes := [.scalar .identifier, .scalar .count, .link]
  build := fun (i, n, s, ()) => .declaration i s (.label n)
  fields
    | .declaration i s (.label n) => some (i, n, s, ())
    | _ => none

/-- The record of a hidden specification. -/
def hiddenSpec : Layout where
  shapes := [.scalar .identifier, .link, .link]
  build := fun (i, s, p, ()) => .declaration i s (.hiddenSpec p)
  fields
    | .declaration i s (.hiddenSpec p) => some (i, s, p, ())
    | _ => none

/-- The record of a protected specification. -/
def protectedSpec : Layout where
  shapes := [.scalar .identifier, .link, .link]
  build := fun (i, s, h, ()) => .declaration i s (.protectedSpec h)
  fields
    | .declaration i s (.protectedSpec h) => some (i, s, h, ())
    | _ => none

/-- The record of a virtual specification. -/
def virtualSpec : Layout where
  shapes := [.scalar .identifier, .scalar .virtualKind, .scalar .type, .link]
  build := fun (i, k, t, s, ()) => .declaration i s (.virtualSpec k t)
  fields
    | .declaration i s (.virtualSpec k t) => some (i, k, t, s, ())
    | _ => none

/-- The record of a connection block. -/
def connectionBlock : Layout where
  shapes := [.scalar .name, .link, .link, .link, .link]
  build := fun (w, s, o, c, b, ()) =>
    .connection
      { declaredIn := s, inspected := o, whenClass := w, classDeclaration := c, statement := b }
  fields
    | .connection c =>
      some (c.whenClass, c.declaredIn, c.inspected, c.classDeclaration, c.statement, ())
    | _ => none

/-- The record of an expression used as a statement. -/
def standalone : Layout where
  shapes := [.child "expression"]
  build := fun (e, ()) => .statement (.standalone e)
  fields
    | .statement (.standalone e) => some (e, ())
    | _ => none

/-- The record of a conditional statement. -/
def ifThenElse : Layout where
  shapes := [.child "condition", .child "then branch", .link]
  build := fun (c, t, e, ()) => .statement (.ifThenElse c t e)
  fields
    | .statement (.ifThenElse c t e) => some (c, t, e, ())
    | _ => none

/-- The record of a loop. -/
def whileDo : Layout where
  shapes := [.child "condition", .child "loop body"]
  build := fun (c, b, ()) => .statement (.whileDo c b)
  fields
    | .statement (.whileDo c b) => some (c, b, ())
    | _ => none

/-- The record of a jump. -/
def goto : Layout where
  shapes := [.child "goto target"]
  build := fun (e, ()) => .statement (.goto e)
  fields
    | .statement (.goto e) => some (e, ())
    | _ => none

/-- The record of a labeled statement. -/
def labeled : Layout where
  shapes := [.scalar .identifiers, .child "labeled statement"]
  build := fun (ls, s, ()) => .statement (.labeled ls s)
  fields
    | .statement (.labeled ls s) => some (ls, s, ())
    | _ => none

/-- The record of a compound statement. -/
def compound : Layout where
  shapes := [.children "statement"]
  build := fun (ss, ()) => .statement (.compound ss.toArray)
  fields
    | .statement (.compound ss) => some (ss.toList, ())
    | _ => none

/-- The record of an inspect statement. -/
def inspect : Layout where
  shapes := [.child "inspected object", .children "connection block", .link]
  build := fun (o, cs, e, ()) => .statement (.inspect o cs e)
  fields
    | .statement (.inspect o cs e) => some (o, cs, e, ())
    | _ => none

/-- The record of a statement that does nothing. -/
def dummy : Layout where
  shapes := []
  build := fun () => .statement .dummy
  fields
    | .statement .dummy => some ()
    | _ => none

/-- The record of a constant. -/
def constant : Layout where
  shapes := [.scalar .type, .scalar .constant]
  build := fun (t, c, ()) => .expression (.constant c) t
  fields
    | .expression (.constant c) t => some (t, c, ())
    | _ => none

/-- The record of an identifier with its arguments. -/
def nameUse : Layout where
  shapes := [.scalar .identifier, .scalar .type, .children "argument"]
  build := fun (i, t, args, ()) => .expression (.nameUse i args) t
  fields
    | .expression (.nameUse i args) t => some (i, t, args, ())
    | _ => none

/-- The record of an operation with two operands. -/
def binary : Layout where
  shapes := [.scalar .binaryOp, .scalar .type, .child "left operand", .child "right operand"]
  build := fun (op, t, l, r, ()) => .expression (.binary op l r) t
  fields
    | .expression (.binary op l r) t => some (op, t, l, r, ())
    | _ => none

/-- The record of an operation with one operand. -/
def unary : Layout where
  shapes := [.scalar .unaryOp, .scalar .type, .child "operand"]
  build := fun (op, t, e, ()) => .expression (.unary op e) t
  fields
    | .expression (.unary op e) t => some (op, t, e, ())
    | _ => none

/-- The record of an assignment. -/
def assignment : Layout where
  shapes := [.scalar .assignOp, .scalar .type, .child "assignment target",
    .child "assigned value"]
  build := fun (op, t, l, r, ()) => .expression (.assignment op l r) t
  fields
    | .expression (.assignment op l r) t => some (op, t, l, r, ())
    | _ => none

/-- The record of an object generator. -/
def generator : Layout where
  shapes := [.scalar .identifier, .scalar .type, .children "argument"]
  build := fun (c, t, args, ()) => .expression (.generator c args) t
  fields
    | .expression (.generator c args) t => some (c, t, args, ())
    | _ => none

/-- The record of a remote access. -/
def remote : Layout where
  shapes := [.scalar .identifier, .scalar .type, .child "remote object", .children "argument"]
  build := fun (i, t, o, args, ()) => .expression (.remote o i args) t
  fields
    | .expression (.remote o i args) t => some (i, t, o, args, ())
    | _ => none

/-- The record of a qualified object. -/
def qualified : Layout where
  shapes := [.scalar .identifier, .scalar .type, .child "qualified object"]
  build := fun (c, t, o, ()) => .expression (.qualified o c) t
  fields
    | .expression (.qualified o c) t => some (c, t, o, ())
    | _ => none

/-- The record of a test of an object's class. -/
def relation : Layout where
  shapes := [.scalar .relationOp, .scalar .identifier, .scalar .type, .child "tested object"]
  build := fun (op, c, t, o, ()) => .expression (.relation op o c) t
  fields
    | .expression (.relation op o c) t => some (op, c, t, o, ())
    | _ => none

/-- The record of a type conversion. -/
def conversion : Layout where
  shapes := [.scalar .conversionKind, .scalar .type, .child "converted expression"]
  build := fun (k, t, e, ()) => .expression (.conversion e k) t
  fields
    | .expression (.conversion e k) t => some (k, t, e, ())
    | _ => none

end Layout

/-- The record layout of a kind; the two sentinel kinds have none. -/
def Kind.layout? : Kind → Option Layout
  | null | objectReference => none
  | externalDeclaration => some .external
  | classDeclaration => some .classDeclaration
  | procedure => some .procedure
  | block => some .block
  | simpleVariable => some .simpleVariable
  | array => some .array
  | parameter => some .parameter
  | label => some .label
  | hiddenSpec => some .hiddenSpec
  | protectedSpec => some .protectedSpec
  | virtualSpec => some .virtualSpec
  | connectionBlock => some .connectionBlock
  | standaloneExpression => some .standalone
  | ifStatement => some .ifThenElse
  | whileStatement => some .whileDo
  | gotoStatement => some .goto
  | labeledStatement => some .labeled
  | compoundStatement => some .compound
  | inspectStatement => some .inspect
  | dummyStatement => some .dummy
  | constant => some .constant
  | nameUse => some .nameUse
  | binary => some .binary
  | unary => some .unary
  | assignment => some .assignment
  | objectGenerator => some .generator
  | remote => some .remote
  | qualifiedObject => some .qualified
  | objectRelation => some .relation
  | typeConversion => some .conversion

end Simula
