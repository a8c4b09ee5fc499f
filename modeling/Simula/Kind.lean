import Simula.Coded

/-!
# Node kinds

Every node of a syntax tree has one of thirty-two kinds. The position of a kind in the list
is the tag that stands for it in an attribute file.

The first two kinds never describe a node: one marks an absent object and the other a
reference back to an object already written. The rest fall into declarations, statements
and expressions.
-/

namespace Simula

/-- What a node of the syntax tree is. -/
inductive Kind
  | null
  | objectReference
  | externalDeclaration
  | classDeclaration
  | procedure
  | block
  | simpleVariable
  | array
  | parameter
  | label
  | hiddenSpec
  | protectedSpec
  | virtualSpec
  | connectionBlock
  | standaloneExpression
  | ifStatement
  | whileStatement
  | gotoStatement
  | labeledStatement
  | compoundStatement
  | inspectStatement
  | dummyStatement
  | constant
  | nameUse
  | binary
  | unary
  | assignment
  | objectGenerator
  | remote
  | qualifiedObject
  | objectRelation
  | typeConversion
  deriving DecidableEq, Repr, Inhabited

namespace Kind

/-- The name of a kind in listings and messages. -/
def name : Kind → String
  | null => "NULL"
  | objectReference => "ObjectReference"
  | externalDeclaration => "ExternalDeclaration"
  | classDeclaration => "Class"
  | procedure => "Procedure"
  | block => "Block"
  | simpleVariable => "SimpleVariable"
  | array => "Array"
  | parameter => "Parameter"
  | label => "Label"
  | hiddenSpec => "Hidden"
  | protectedSpec => "Protected"
  | virtualSpec => "Virtual"
  | connectionBlock => "ConnectionBlock"
  | standaloneExpression => "StandaloneExpression"
  | ifStatement => "If"
  | whileStatement => "While"
  | gotoStatement => "Goto"
  | labeledStatement => "Labeled"
  | compoundStatement => "Compound"
  | inspectStatement => "Inspect"
  | dummyStatement => "Dummy"
  | constant => "Constant"
  | nameUse => "Variable"
  | binary => "Binary"
  | unary => "Unary"
  | assignment => "Assignment"
  | objectGenerator => "ObjectGenerator"
  | remote => "Remote"
  | qualifiedObject => "QualifiedObject"
  | objectRelation => "ObjectRelation"
  | typeConversion => "TypeConversion"

instance : Coded Kind where
  all := [null, objectReference, externalDeclaration, classDeclaration, procedure, block,
    simpleVariable, array, parameter, label, hiddenSpec, protectedSpec, virtualSpec,
    connectionBlock, standaloneExpression, ifStatement, whileStatement, gotoStatement,
    labeledStatement, compoundStatement, inspectStatement, dummyStatement, constant, nameUse,
    binary, unary, assignment, objectGenerator, remote, qualifiedObject, objectRelation,
    typeConversion]
  name := name
  mem_all := by intro k; cases k <;> decide
  nodup_all := by decide
  length_all := by decide

instance : ToString Kind := ⟨name⟩

/-- The tag of a kind in attribute files. -/
def tag (k : Kind) : Nat := Coded.code k

/-- The kind that has the given tag. -/
def ofTag? (n : Nat) : Option Kind := Coded.ofCode? n

/-- The highest tag in use. -/
def maxTag : Nat := 31

/-- The kinds that mark the absence or the repetition of an object. -/
def isSentinel (k : Kind) : Bool := k.tag < 2

/-- The kinds of declarations, connection blocks included. -/
def isDeclaration (k : Kind) : Bool := 2 ≤ k.tag && k.tag < 14

/-- The kinds of statements. -/
def isStatement (k : Kind) : Bool := 14 ≤ k.tag && k.tag < 22

/-- The kinds of expressions. -/
def isExpression (k : Kind) : Bool := 22 ≤ k.tag

/-- The kinds that can be compiled on their own. -/
def isModule (k : Kind) : Bool := k == classDeclaration || k == procedure

end Kind

end Simula
