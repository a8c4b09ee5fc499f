import Simula.Check.Prefixes
import Simula.Check.Specifications
import Simula.Check.Statements

/-!
# Checking a module

A check has four phases: the prefixes of all classes are resolved, circular prefix chains are
cut, hidden and protected specifications are paired, and then scopes, statements and
expressions are checked from the module downwards.
-/

namespace Simula

/-- A depth that no tree of the given size without circular nesting needs. On the way down a
node is met as a statement, then as a scope or an expression, and a run of conversions may
follow; one node more may be missing from the tree. -/
def nestingLimit (size : Nat) : Nat := 3 * (size + 1)

namespace CheckState

/-- Runs one phase on each of some classes. -/
def forClasses (phase : CheckState → NodeId → CheckState) (classes : List NodeId)
    (s : CheckState) : CheckState :=
  classes.foldl phase s

/-- The phases that concern classes as a whole. -/
def prepareClasses (s : CheckState) (module : NodeId) : CheckState :=
  let classes := s.tree.classesBelow module
  s |>.forClasses resolvePrefix classes
    |>.forClasses cutPrefixCycle classes
    |>.forClasses pairSpecifications classes

end CheckState

/-- Checks a module to a given depth. -/
def CheckM.checkWithin (depth : Nat) (module : NodeId) : CheckM Unit := do
  modify fun s => s.prepareClasses module
  CheckM.checkScope depth module

/-- Checks a module. -/
def CheckM.check (module : NodeId) : CheckM Unit := do
  CheckM.checkWithin (nestingLimit (← get).tree.size) module

end Simula
