import Simula.Tree

/-!
# Prefix chains

A class inherits from its prefix class, that one from its own, and so on. The chain of a class
lists it and its prefixes, innermost first, and stops before a class that it already has.
-/

namespace Simula.Tree

/-- The classes above `c` that are not in `seen`, at most `n` of them. -/
def prefixesAbove (t : Tree) : Nat → List NodeId → NodeId → List NodeId
  | 0, _, _ => []
  | n + 1, seen, c =>
    match t.prefixClass? c with
    | none => []
    | some p => if p ∈ seen then [] else p :: t.prefixesAbove n (p :: seen) p

/-- A class followed by its prefix classes, innermost first. -/
def prefixChain (t : Tree) (c : NodeId) : List NodeId := c :: t.prefixesAbove t.size [c] c

/-- Whether the first class is a strict subclass of the second. -/
def isSubclass (t : Tree) (sub sup : NodeId) : Bool := (t.prefixChain sub).tail.contains sup

end Simula.Tree
