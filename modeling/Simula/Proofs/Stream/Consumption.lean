import Simula.Proofs.Stream.Parsing

/-!
# What reading a value consumes

A decoder takes bytes off the front of its input and nothing else: what it leaves is an end of what
it was given, also when it fails. Tags, numbers and counts that are read take a fixed number of
bytes.
-/

namespace Simula

/-- The second input is what remains of the first. -/
def Bytes.LeadsTo (input rest : Bytes) : Prop := rest <:+ input

/-- A decoder that parses takes bytes off the front of its input. -/
theorem Parses.consumes {α : Type} {faults : Error → Prop} {d : Decoder α} (h : Parses faults d) :
    Follows Bytes.LeadsTo d := h.leaves

namespace Decoder

/-- A tag that has been read is the first byte. -/
theorem kind_eq_ok {input rest : Bytes} {k : Kind} : kind input = .ok k rest ↔
    ∃ b : UInt8, input = b :: rest ∧ Kind.ofTag? b.toNat = some k := by
  constructor
  · intro h
    obtain ⟨b, input', hb, hk⟩ := bind_eq_ok.mp h
    cases input with
    | nil => cases hb
    | cons b' input =>
      cases hb
      cases htag : Kind.ofTag? b.toNat with
      | none =>
        rw [htag] at hk
        cases hk
      | some k' =>
        rw [htag] at hk
        cases hk
        exact ⟨b, rfl, htag⟩
  · rintro ⟨b, rfl, htag⟩
    have hbyte : byte (b :: rest) = .ok b rest := rfl
    rw [kind, bind_of_ok hbyte, htag]
    rfl

/-- A tag that has been read takes one byte. -/
theorem length_of_kind {input rest : Bytes} {k : Kind} (h : kind input = .ok k rest) :
    input.length = rest.length + 1 := by
  obtain ⟨b, rfl, -⟩ := kind_eq_ok.mp h
  rfl

/-- A number that has been read takes two bytes. -/
theorem length_of_short {input rest : Bytes} {n : Int} (h : short input = .ok n rest) :
    input.length = rest.length + 2 := by
  obtain ⟨m, input', hm, h⟩ := bind_eq_ok.mp h
  obtain ⟨-, rfl⟩ := pure_eq_ok.mp h
  rw [(nat_eq_ok hm).1, List.length_append, Bytes.length_ofNat, Nat.add_comm]

/-- A count that has been read takes two bytes. -/
theorem length_of_count {input rest : Bytes} {n : Nat} (h : count input = .ok n rest) :
    input.length = rest.length + 2 := by
  obtain ⟨m, input', hm, h⟩ := bind_eq_ok.mp h
  rw [length_of_short hm]
  split at h
  · cases h
    rfl
  · cases h

/-- A text that has been read takes two bytes at least. -/
theorem length_of_string {input rest : Bytes} {s : Option String}
    (h : string input = .ok s rest) : rest.length + 2 ≤ input.length := by
  obtain ⟨n, input', hn, hrest⟩ := bind_eq_ok.mp h
  have hsuffix : rest <:+ input' := (stringBehind_parses n).consumes.of_ok hrest
  have hle := hsuffix.length_le
  rw [length_of_short hn]
  omega

end Decoder

end Simula
