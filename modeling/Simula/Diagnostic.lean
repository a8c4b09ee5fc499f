import Simula.Kind
import Simula.Ty

/-!
# Diagnostics

A mistake in the compiled program does not end the check: it is reported with its line and
the check goes on, so one run finds as many mistakes as possible. A list of diagnostics
keeps them in the order of their discovery.

Each mistake the checker can find is a constructor of `Finding`, which fixes its code and
its wording.
-/

namespace Simula

/-- How grave a diagnostic is. -/
inductive Severity
  | warning
  | error
  | internal
  deriving DecidableEq, Repr

/-- The word for a severity in messages. -/
def Severity.word : Severity → String
  | warning => "warning"
  | error => "error"
  | internal => "internal error"

/-- One reported mistake; line 0 stands for an unknown line. -/
structure Diagnostic where
  severity : Severity
  line : Nat
  code : Option String
  message : String
  deriving DecidableEq, Repr

namespace Diagnostic

/-- Whether the diagnostic keeps a module from being accepted. -/
def isError (d : Diagnostic) : Bool := d.severity != .warning

/-- The diagnostic as one line of text. -/
def display (d : Diagnostic) : String :=
  "line " ++ toString d.line ++ ": " ++ d.severity.word ++
    (match d.code with
      | some c => "[" ++ c ++ "]"
      | none => "") ++
    ": " ++ d.message

end Diagnostic

/-- The tests that a reference conversion can belong to. -/
inductive ReferenceTest
  | qua
  | isIn
  deriving DecidableEq, Repr

/-- A mistake in a program. -/
inductive Finding
  | undefinedIdentifier (identifier : String)
  | undefinedClass (identifier : String)
  | undefinedAttribute (identifier className : String)
  | incompatibleTypes (a b : Ty)
  | hiddenUnprotected (identifier : String)
  | duplicateDeclaration (identifier : String)
  | protectedUndeclared (identifier : String)
  | prefixNotAClass (identifier : String)
  | circularPrefix (identifier : String)
  | conditionNotBoolean (found : Ty)
  | protectedAccess (identifier : String)
  | illegalReferenceConversion (source target : Ty)
  | illegalReferenceTest (test : ReferenceTest) (source target : Ty)
  | remoteThroughValue (identifier : String) (found : Ty)
  | inspectedValue (found : Ty)
  | undeclarable (kind : Kind)
  | noDeclarationList
  deriving DecidableEq, Repr

namespace Finding

/-- The stable code of a finding. -/
def code : Finding → Option String
  | undefinedIdentifier _ | undefinedClass _ | undefinedAttribute _ _ => some "E0101"
  | incompatibleTypes _ _ => some "E0102"
  | hiddenUnprotected _ => some "E0103"
  | duplicateDeclaration _ => some "W0104"
  | protectedUndeclared _ => some "E0105"
  | prefixNotAClass _ => some "E0106"
  | circularPrefix _ => some "E0107"
  | conditionNotBoolean _ => some "E0108"
  | protectedAccess _ => some "E0109"
  | illegalReferenceConversion _ _ | illegalReferenceTest _ _ _ => some "E0110"
  | remoteThroughValue _ _ | inspectedValue _ => some "E0111"
  | undeclarable _ | noDeclarationList => none

/-- How grave a finding is. -/
def severity : Finding → Severity
  | duplicateDeclaration _ => .warning
  | undeclarable _ | noDeclarationList => .internal
  | _ => .error

/-- The wording of a finding. -/
def message : Finding → String
  | undefinedIdentifier i => "undefined identifier " ++ i
  | undefinedClass i => "undefined class " ++ i
  | undefinedAttribute i c => "undefined identifier " ++ i ++ " in " ++ c
  | incompatibleTypes a b => "incompatible types " ++ a.display ++ " and " ++ b.display
  | hiddenUnprotected i => i ++ " specified HIDDEN without being PROTECTED"
  | duplicateDeclaration i => i ++ " is already declared in this scope"
  | protectedUndeclared i => i ++ " specified PROTECTED but not declared"
  | prefixNotAClass i => "prefix " ++ i ++ " is not a class"
  | circularPrefix i => "circular prefix chain through " ++ i
  | conditionNotBoolean t => "condition must be of type boolean, found " ++ t.display
  | protectedAccess i => i ++ " is protected and not visible here"
  | illegalReferenceConversion s t =>
    "illegal reference conversion from " ++ s.display ++ " to " ++ t.display
  | illegalReferenceTest test s t =>
    let shown := match test with
      | .qua => "qua"
      | .isIn => "is/in"
    "illegal reference conversion (" ++ shown ++ ") from " ++ s.display ++ " to " ++ t.display
  | remoteThroughValue i t =>
    "remote access to " ++ i ++ " through a value of type " ++ t.display
  | inspectedValue t => "cannot inspect a value of type " ++ t.display
  | undeclarable k => k.name ++ " cannot be declared"
  | noDeclarationList => "declaration added to a node without a declaration list"

/-- The diagnostic that reports a finding on a line. -/
def onLine (f : Finding) (line : Nat) : Diagnostic where
  severity := f.severity
  line := line
  code := f.code
  message := f.message

end Finding

/-- Diagnostics in the order in which they were reported. -/
structure Diagnostics where
  entries : Array Diagnostic := #[]
  deriving DecidableEq, Repr, Inhabited

namespace Diagnostics

/-- No diagnostics. -/
def empty : Diagnostics := {}

/-- Appends a diagnostic. -/
def report (ds : Diagnostics) (d : Diagnostic) : Diagnostics :=
  { ds with entries := ds.entries.push d }

/-- The number of diagnostics that keep a module from being accepted. -/
def errorCount (ds : Diagnostics) : Nat := ds.entries.countP Diagnostic.isError

/-- The number of warnings. -/
def warningCount (ds : Diagnostics) : Nat := ds.entries.countP fun d => !d.isError

/-- Whether any diagnostic keeps a module from being accepted. -/
def hasErrors (ds : Diagnostics) : Bool := ds.errorCount != 0

/-- The number of diagnostics with the given code. -/
def countCode (ds : Diagnostics) (code : String) : Nat :=
  ds.entries.countP fun d => d.code == some code

end Diagnostics

end Simula
