import Simula.Identifier

/-!
# Letters in both cases

Identifiers are stored in capital letters where case is ignored. Only the ASCII letters have two
cases, and these are 32 places apart. So it makes no difference whether letters are compared by their
capital or by their small forms, and storing an identifier twice is storing it once.
-/

namespace Simula

/-- The capital form of a letter stands 32 places before it. -/
theorem toNat_toUpper (c : Char) :
    c.toUpper.toNat = if 97 ≤ c.toNat ∧ c.toNat ≤ 122 then c.toNat - 32 else c.toNat := by
  by_cases hsmall : 97 ≤ c.toNat ∧ c.toNat ≤ 122
  · have hletter : 'a'.val ≤ c.val ∧ c.val ≤ 'z'.val := hsmall
    have hupper : c.toUpper.val = c.val + ('A'.val - 'a'.val) := by
      unfold Char.toUpper
      rw [dif_pos hletter]
    have hshift : (c.val + ('A'.val - 'a'.val)).toNat = (c.toNat + 4294967264) % 4294967296 :=
      UInt32.toNat_add ..
    rw [if_pos hsmall, Char.toNat, hupper, hshift]
    omega
  · rw [if_neg hsmall]
    exact congrArg Char.toNat (dif_neg hsmall)

/-- The small form of a letter stands 32 places behind it. -/
theorem toNat_toLower (c : Char) :
    c.toLower.toNat = if 65 ≤ c.toNat ∧ c.toNat ≤ 90 then c.toNat + 32 else c.toNat := by
  by_cases hcapital : 65 ≤ c.toNat ∧ c.toNat ≤ 90
  · have hletter : c.val ≥ 'A'.val ∧ c.val ≤ 'Z'.val := hcapital
    have hlower : c.toLower.val = c.val + ('a'.val - 'A'.val) := by
      unfold Char.toLower
      rw [dif_pos hletter]
    have hshift : (c.val + ('a'.val - 'A'.val)).toNat = (c.toNat + 32) % 4294967296 :=
      UInt32.toNat_add ..
    rw [if_pos hcapital, Char.toNat, hlower, hshift]
    omega
  · rw [if_neg hcapital]
    exact congrArg Char.toNat (dif_neg hcapital)

/-- A capital form is its own capital form. -/
theorem toUpper_toUpper (c : Char) : c.toUpper.toUpper = c.toUpper := by
  rw [← Char.toNat_inj, toNat_toUpper c.toUpper, toNat_toUpper c]
  split <;> grind

/-- Letters with one capital form have one small form, and the other way round. -/
theorem toUpper_eq_iff (c d : Char) : c.toUpper = d.toUpper ↔ c.toLower = d.toLower := by
  rw [← Char.toNat_inj, ← Char.toNat_inj, toNat_toUpper, toNat_toUpper, toNat_toLower,
    toNat_toLower]
  split <;> split <;> grind

namespace CaseRule

/-- Storing an identifier twice is storing it once. -/
@[simp] theorem normalize_normalize (rule : CaseRule) (i : String) :
    rule.normalize (rule.normalize i) = rule.normalize i := by
  cases rule with
  | sensitive => rfl
  | insensitive =>
    simp only [normalize, upperCase, String.toList_ofList, List.map_map, Function.comp_def,
      toUpper_toUpper]

/-- A stored spelling names what the written one names. -/
@[simp] theorem same_normalize_left (rule : CaseRule) (i j : String) :
    rule.same (rule.normalize i) j = rule.same i j := by
  rw [same, same, normalize_normalize]

/-- A stored spelling is named by what names the written one. -/
@[simp] theorem same_normalize_right (rule : CaseRule) (i j : String) :
    rule.same i (rule.normalize j) = rule.same i j := by
  rw [same, same, normalize_normalize]

end CaseRule

end Simula
