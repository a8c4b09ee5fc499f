import Simula.Text.Units

/-!
# Texts and their units

Turning a text into units and back gives the text, and an accepted sequence of units is the one
that its text turns into. So texts and accepted sequences stand for each other exactly.
-/

namespace Simula.Text

/-- A character is never a half of a pair. -/
theorem toNat_notSurrogate (c : Char) : c.toNat < 0xD800 ∨ 0xDFFF < c.toNat ∧ c.toNat < 0x110000 :=
  c.valid

/-- The character of a valid code has that code. -/
theorem toNat_ofNat_valid {n : Nat} (h : n.isValidChar) : (Char.ofNat n).toNat = n := by
  rw [Char.ofNat, dif_pos h]
  rfl

/-- A small character is read back from its unit. -/
theorem ofUnits?_small {c : Char} (h : c.toNat < 0x10000) (rest : List UInt16) :
    ofUnits? (UInt16.ofNat c.toNat :: rest) = (ofUnits? rest).map (c :: ·) := by
  have hc := toNat_notSurrogate c
  have hu : (UInt16.ofNat c.toNat).toNat = c.toNat := by
    rw [UInt16.toNat_ofNat']
    omega
  have hlead : isLeading (UInt16.ofNat c.toNat) = false := by
    rw [isLeading, hu, ← Bool.not_eq_true, Bool.and_eq_true, decide_eq_true_eq, decide_eq_true_eq]
    omega
  have htrail : isTrailing (UInt16.ofNat c.toNat) = false := by
    rw [isTrailing, hu, ← Bool.not_eq_true, Bool.and_eq_true, decide_eq_true_eq, decide_eq_true_eq]
    omega
  rw [ofUnits?.eq_def]
  simp [hlead, htrail, hu]

/-- A large character is read back from its pair of units. -/
theorem ofUnits?_large {c : Char} (h : ¬ c.toNat < 0x10000) (rest : List UInt16) :
    ofUnits? (UInt16.ofNat (0xD800 + (c.toNat - 0x10000) / 0x400) ::
      UInt16.ofNat (0xDC00 + (c.toNat - 0x10000) % 0x400) :: rest) =
      (ofUnits? rest).map (c :: ·) := by
  have hc := toNat_notSurrogate c
  generalize hu : UInt16.ofNat (0xD800 + (c.toNat - 0x10000) / 0x400) = u
  generalize hv : UInt16.ofNat (0xDC00 + (c.toNat - 0x10000) % 0x400) = v
  have hu : u.toNat = 0xD800 + (c.toNat - 0x10000) / 0x400 := by
    rw [← hu, UInt16.toNat_ofNat']
    omega
  have hv : v.toNat = 0xDC00 + (c.toNat - 0x10000) % 0x400 := by
    rw [← hv, UInt16.toNat_ofNat']
    omega
  have hlead : isLeading u = true := by
    rw [isLeading, hu, Bool.and_eq_true, decide_eq_true_eq, decide_eq_true_eq]
    omega
  have htrail : isTrailing v = true := by
    rw [isTrailing, hv, Bool.and_eq_true, decide_eq_true_eq, decide_eq_true_eq]
    omega
  have hpair : pairChar u v = c := by
    have : 0x10000 + (u.toNat - 0xD800) * 0x400 + (v.toNat - 0xDC00) = c.toNat := by omega
    rw [pairChar, this, Char.ofNat_toNat]
  rw [ofUnits?.eq_def]
  simp [hlead, htrail, hpair]

/-- The units of a text are read back as the text. -/
theorem ofUnits?_toUnits (s : List Char) : ofUnits? (toUnits s) = some s := by
  induction s with
  | nil => rfl
  | cons c s ih =>
    rw [toUnits, List.flatMap_cons, ← toUnits, charUnits]
    split
    · next h =>
      rw [List.singleton_append, ofUnits?_small h, ih]
      rfl
    · next h =>
      rw [List.cons_append, List.singleton_append, ofUnits?_large h, ih]
      rfl

/-- A unit that is no half of a pair is the unit of its character. -/
theorem charUnits_ofNat {u : UInt16} (hl : isLeading u = false) (ht : isTrailing u = false) :
    charUnits (Char.ofNat u.toNat) = [u] := by
  have hu := u.toNat_lt
  have hvalid : u.toNat.isValidChar := by
    rw [isLeading, ← Bool.not_eq_true, Bool.and_eq_true, decide_eq_true_eq, decide_eq_true_eq] at hl
    rw [isTrailing, ← Bool.not_eq_true, Bool.and_eq_true, decide_eq_true_eq,
      decide_eq_true_eq] at ht
    unfold Nat.isValidChar
    omega
  have hn := toNat_ofNat_valid hvalid
  rw [charUnits, hn, if_pos (by omega), UInt16.ofNat_toNat]

/-- The two halves of a pair are the units of its character. -/
theorem charUnits_pairChar {u v : UInt16} (hl : isLeading u = true) (ht : isTrailing v = true) :
    charUnits (pairChar u v) = [u, v] := by
  simp only [isLeading, isTrailing, Bool.and_eq_true, decide_eq_true_eq] at hl ht
  have hvalid : (0x10000 + (u.toNat - 0xD800) * 0x400 + (v.toNat - 0xDC00)).isValidChar := by
    unfold Nat.isValidChar
    omega
  have hn := toNat_ofNat_valid hvalid
  rw [charUnits, pairChar, hn, if_neg (by omega)]
  have hu : 0xD800 + (0x10000 + (u.toNat - 0xD800) * 0x400 + (v.toNat - 0xDC00) - 0x10000) / 0x400 =
      u.toNat := by omega
  have hv : 0xDC00 + (0x10000 + (u.toNat - 0xD800) * 0x400 + (v.toNat - 0xDC00) - 0x10000) % 0x400 =
      v.toNat := by omega
  rw [hu, hv, UInt16.ofNat_toNat, UInt16.ofNat_toNat]

/-- An accepted sequence of units is that of its text. -/
theorem toUnits_of_ofUnits? {us : List UInt16} {s : List Char} (h : ofUnits? us = some s) :
    toUnits s = us := by
  fun_induction ofUnits? us generalizing s with
  | case1 =>
    cases h
    rfl
  | case2 => cases h
  | case3 u hl v rest ht ih =>
    obtain ⟨s', hs', rfl⟩ := Option.map_eq_some_iff.mp h
    rw [toUnits, List.flatMap_cons, ← toUnits, charUnits_pairChar hl ht, ih hs']
    rfl
  | case4 => cases h
  | case5 => cases h
  | case6 u rest hl ht ih =>
    obtain ⟨s', hs', rfl⟩ := Option.map_eq_some_iff.mp h
    rw [toUnits, List.flatMap_cons, ← toUnits,
      charUnits_ofNat (by simpa using hl) (by simpa using ht), ih hs']
    rfl

end Simula.Text
