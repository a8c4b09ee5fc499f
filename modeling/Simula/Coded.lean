/-!
# Finite sets of coded values

Operators, parameter modes, node kinds and type tags are small closed sets. Each value
stands in attribute files as one byte and in listings under a fixed name.

The code of a value is its position in the list of all values, so decoding is a list
look-up, and the two laws below say that the pairing is exact in both directions.
-/

namespace Simula

/-- A closed set of values, listed in code order, each with the name it has in listings. -/
class Coded (α : Type) [DecidableEq α] where
  /-- Every value, in code order. -/
  all : List α
  /-- The name of a value in listings. -/
  name : α → String
  /-- No value is missing from the list. -/
  mem_all : ∀ a, a ∈ all
  /-- No value has two codes. -/
  nodup_all : all.Nodup
  /-- Every code fits in one byte. -/
  length_all : all.length ≤ 256

namespace Coded

variable {α : Type} [DecidableEq α] [Coded α]

/-- The code of a value: its position among all values. -/
def code (a : α) : Nat := (all : List α).idxOf a

/-- The value that has the given code. -/
def ofCode? (n : Nat) : Option α := (all : List α)[n]?

/-- The value that has the given name. -/
def ofName? (s : String) : Option α := (all : List α).find? (fun a => name a == s)

/-- Every code is below the number of values. -/
theorem code_lt_length (a : α) : code a < (all : List α).length :=
  List.idxOf_lt_length_of_mem (mem_all a)

/-- Every code is a byte value. -/
theorem code_lt (a : α) : code a < 256 :=
  Nat.lt_of_lt_of_le (code_lt_length a) length_all

/-- Decoding a value's code gives the value back. -/
@[simp] theorem ofCode?_code (a : α) : ofCode? (code a) = some a := by
  have h := code_lt_length a
  simp only [ofCode?, code] at h ⊢
  rw [List.getElem?_eq_getElem h, List.getElem_idxOf h]

/-- Only a value's own code decodes to it. -/
theorem code_of_ofCode? {n : Nat} {a : α} (h : ofCode? n = some a) : code a = n := by
  obtain ⟨hn, rfl⟩ := List.getElem?_eq_some_iff.mp h
  exact List.Nodup.idxOf_getElem nodup_all n hn

end Coded

end Simula
