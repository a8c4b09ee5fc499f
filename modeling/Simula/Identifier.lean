/-!
# Identifiers and the case rule

Identifiers are compared either letter for letter or with the case of ASCII letters
ignored. A session that ignores case stores declared identifiers in upper case.

Two spellings are the same identifier exactly when they normalize to the same text.
-/

namespace Simula

/-- The text with its ASCII letters in upper case; all other characters stay. -/
def upperCase (s : String) : String :=
  String.ofList (s.toList.map Char.toUpper)

/-- How spellings of identifiers compare. -/
inductive CaseRule
  | insensitive
  | sensitive
  deriving DecidableEq, Repr, Inhabited

namespace CaseRule

/-- The spelling under which a declared identifier is stored. -/
def normalize : CaseRule → String → String
  | sensitive, s => s
  | insensitive, s => upperCase s

/-- Whether two spellings name the same identifier. -/
def same (rule : CaseRule) (a b : String) : Bool :=
  rule.normalize a == rule.normalize b

/-- Sameness is equality of the stored spellings. -/
theorem same_iff (rule : CaseRule) (a b : String) :
    rule.same a b = true ↔ rule.normalize a = rule.normalize b := by
  simp [same]

/-- Every spelling names its own identifier. -/
@[simp] theorem same_self (rule : CaseRule) (a : String) : rule.same a a = true := by
  simp [same]

end CaseRule

end Simula
