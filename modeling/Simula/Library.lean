import Simula.Error
import Simula.Stream.Bytes

/-!
# Attribute libraries

A library serves attribute files by entry name. Entry names are built from a package, the
identifier of a module and an extension.
-/

namespace Simula

/-- The entry of the attribute file of a module. -/
def attributeEntry (package identifier : String) : String :=
  package ++ "/" ++ identifier ++ ".atr"

/-- The entry of the code of a class. -/
def codeUnitEntry (package name : String) : String := package ++ "/" ++ name ++ ".class"

/-- A source of attribute files. -/
structure AttributeLibrary where
  /-- The content of an entry. -/
  read : String → Except Error Bytes
  /-- A bound on the number of different entries in a chain of files that name each other. -/
  chainBound : Nat

end Simula
