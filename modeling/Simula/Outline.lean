import Simula.Decimal.Shortest
import Simula.Graph.Traversal
import Simula.Tree

/-!
# Outlines of syntax trees

An outline shows a node and all nodes below it, one line each, indented by depth. A node that
has been shown already appears again only as a reference to its number, so shared nodes and
cycles are shown once.
-/

namespace Simula.Outline

/-- A literal value as it is shown. -/
def constantText : Constant → String
  | .null => "none"
  | .boolean b => if b then "true" else "false"
  | .character c => "'" ++ String.singleton c ++ "'"
  | .integer n => toString n
  | .real bits => Decimal.single.print bits.toNat
  | .longReal bits => Decimal.double.print bits.toNat
  | .text (some s) => Text.quoted s
  | .text none => "notext"

/-- What a node shows beside its kind and identifier. -/
def details : NodeData → String
  | .declaration _ _ (.classDeclaration c) =>
    match c.prefixName with
    | some p => " prefix " ++ p
    | none => ""
  | .declaration _ _ (.external k file _) => " " ++ k.name ++ " from " ++ file
  | .declaration _ _ (.simpleVariable t _) => " " ++ t.display
  | .expression (.constant c) _ => " " ++ constantText c
  | .expression (.binary op _ _) _ => " " ++ op.symbol
  | .expression (.remote _ attr _) _ => " ." ++ attr
  | .expression (.generator c _) _ => " new " ++ c
  | .expression (.qualified _ c) _ => " qua " ++ c
  | .expression (.relation op _ c) _ => " " ++ Coded.name op ++ " " ++ c
  | .connection b =>
    match b.whenClass with
    | some c => " when " ++ c
    | none => ""
  | _ => ""

/-- The identifier of a node as it is shown. -/
def identifierText (d : NodeData) : String :=
  match d.identifier? with
  | some i => " " ++ i
  | none => ""

/-- The type of an expression as it is shown; an undefined one is not. -/
def typeText (d : NodeData) : String :=
  match d.expressionType? with
  | some t => if t.isUndefined then "" else " : " ++ t.display
  | none => ""

/-- The blanks in front of a line. -/
def indentation (depth : Nat) : String := String.ofList (List.replicate (2 * depth) ' ')

/-- The line for one visit of a node. -/
def visitLine (t : Tree) (v : Graph.Visit) : String :=
  let d := t.data v.node
  if v.first then
    indentation v.depth ++ "#" ++ toString v.node ++ " " ++ d.kind.name ++ identifierText d ++ details d ++
      " (line " ++ toString (t.line v.node) ++ ")" ++ typeText d ++ "\n"
  else indentation v.depth ++ "-> #" ++ toString v.node ++ "\n"

/-- The outline of a node and all nodes below it. -/
def render (t : Tree) (root : NodeId) : String :=
  String.join ((Graph.traverse t.size t.children [root]).map (visitLine t))

end Simula.Outline
