import Simula.Library
import Simula.Table

/-!
# Packages

A package collects compiled entries in memory, in the order of their names, and serves what it
holds. An entry without content stands for a directory and cannot be read.
-/

namespace Simula

/-- Entry names are ordered character by character. -/
instance entryOrder : Trans (α := String) (· < ·) (· < ·) (· < ·) := ⟨String.lt_trans⟩

/-- A collection of entries; directories have no content. -/
abbrev Package := Table String (Option Bytes)

namespace Package

/-- Adds or replaces an entry. -/
def stage (p : Package) (entry : String) (content : Option Bytes) : Package :=
  p.insert entry content

/-- The content of an entry that has one. -/
def get? (p : Package) (entry : String) : Option Bytes := (p.find? entry).join

/-- Reads an entry. -/
def read (p : Package) (entry : String) : Except Error Bytes :=
  match p.get? entry with
  | some bytes => .ok bytes
  | none => .error (.missingAttributeFile entry)

/-- The package as a source of attribute files. -/
def library (p : Package) : AttributeLibrary where
  read := p.read
  chainBound := p.size

end Package

end Simula
