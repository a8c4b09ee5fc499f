import Simula.ObjectStream.Shape
import Simula.Proofs.Stream.Numbers
import Simula.Proofs.Stream.Text

/-!
# Codes of texts, types and constants

The codecs of the values that are built from numbers: texts, types, constants, and the fields of
a record that are stored in place. Every value is kept except an integer constant, which is cut
to sixteen bits. The name of a module is read back only when its kind is that of a module.
-/

namespace Simula

namespace Decoder

/-- The bytes of units are grouped back into the units. -/
theorem units_unitBytes (us : List UInt16) : units (Encoder.unitBytes us) = us := by
  induction us with
  | nil => rfl
  | cons u us ih =>
    have hu := u.toNat_lt
    have hunit : UInt16.ofNat
        ((UInt8.ofNat (u.toNat / 256)).toNat * 256 + (UInt8.ofNat u.toNat).toNat) = u := by
      have hsum :
          (UInt8.ofNat (u.toNat / 256)).toNat * 256 + (UInt8.ofNat u.toNat).toNat = u.toNat := by
        rw [UInt8.toNat_ofNat', UInt8.toNat_ofNat']
        omega
      rw [hsum, UInt16.ofNat_toNat]
    rw [Encoder.unitBytes, List.flatMap_cons, ← Encoder.unitBytes]
    simp only [Bytes.ofNat, Bytes.capacity, Nat.one_mul, Nat.div_one, List.cons_append,
      List.nil_append, units, ih, hunit]

/-- An even number of bytes is the bytes of its units. -/
theorem unitBytes_units : ∀ {bs : Bytes} {n : Nat}, bs.length = 2 * n →
    Encoder.unitBytes (units bs) = bs ∧ (units bs).length = n
  | [], 0, _ => ⟨rfl, rfl⟩
  | [], n + 1, h => by simp at h
  | [_], n, h => by
    simp only [List.length_singleton] at h
    omega
  | a :: b :: bs, 0, h => by simp at h
  | a :: b :: bs, n + 1, h => by
    have ha := a.toNat_lt
    have hb := b.toNat_lt
    have hlen : bs.length = 2 * n := by
      simp only [List.length_cons] at h
      omega
    obtain ⟨hbs, hn⟩ := unitBytes_units hlen
    have hu : (UInt16.ofNat (a.toNat * 256 + b.toNat)).toNat = a.toNat * 256 + b.toNat := by
      rw [UInt16.toNat_ofNat']
      omega
    have hhigh : UInt8.ofNat ((a.toNat * 256 + b.toNat) / 256) = a := by
      have : (a.toNat * 256 + b.toNat) / 256 = a.toNat := by omega
      rw [this, UInt8.ofNat_toNat]
    have hlow : UInt8.ofNat (a.toNat * 256 + b.toNat) = b := by
      apply UInt8.toNat_inj.mp
      rw [UInt8.toNat_ofNat']
      omega
    constructor
    · rw [units, Encoder.unitBytes, List.flatMap_cons, ← Encoder.unitBytes, hbs, hu]
      simp only [Bytes.ofNat, Bytes.capacity, Nat.one_mul, Nat.div_one, List.cons_append,
        List.nil_append, hhigh, hlow]
    · rw [units, List.length_cons, hn]

/-- Units take two bytes each. -/
theorem length_unitBytes (us : List UInt16) : (Encoder.unitBytes us).length = 2 * us.length := by
  induction us with
  | nil => rfl
  | cons u us ih =>
    rw [Encoder.unitBytes, List.flatMap_cons, ← Encoder.unitBytes, List.length_append,
      Bytes.length_ofNat, ih, List.length_cons]
    omega

/-- A text is read from its units, once its length is known to be there. -/
theorem string_units {n : Int} {s : List Char} (hn : n = (Text.toUnits s).length + 1) :
    Decoder.Reads (do
      if n = 0 then return none
      if n < 0 then throw (.protocol (.lengthPrefix n))
      let bytes ← take (2 * (n.toNat - 1))
      match Text.ofUnits? (units bytes) with
      | some s => return some (String.ofList s)
      | none => throw (.protocol .brokenText)) (Encoder.unitBytes (Text.toUnits s))
      (some (String.ofList s)) := by
  have h0 : ¬ n = 0 := by omega
  have hneg : ¬ n < 0 := by omega
  have hlen : 2 * (n.toNat - 1) = (Encoder.unitBytes (Text.toUnits s)).length := by
    rw [length_unitBytes]
    omega
  simp only [if_neg h0, if_neg hneg, hlen]
  refine (take_reads _).map fun rest => ?_
  rw [units_unitBytes, Text.ofUnits?_toUnits]
  rfl

end Decoder

/-- Texts are kept, and the absent one stays absent. -/
theorem string_codec : Codec Encoder.string Decoder.string id where
  read {s out out'} h := by
    cases s with
    | none =>
      obtain ⟨bs, hbs, hr⟩ := short_codec.read h
      exact ⟨bs, hbs, hr.map fun rest => rfl⟩
    | some s =>
      obtain ⟨_, out₁, h₁, -⟩ := bind_eq_ok.mp h
      obtain ⟨bs, hbs, hr⟩ := short_codec.read h₁
      refine ⟨_, hbs.then (Encoder.bytes_appends _), ?_⟩
      have hs := Decoder.string_units (s := s.toList) rfl
      rw [String.ofList_toList] at hs
      exact hr.then hs
  write {input s rest} h := by
    obtain ⟨n, s₁, hn, h₁⟩ := bind_eq_ok.mp h
    obtain ⟨bs, hinput, hbs⟩ := short_codec.write hn
    split at h₁
    · next h0 =>
      obtain ⟨rfl, rfl⟩ := pure_eq_ok.mp h₁
      exact ⟨bs, hinput, by rwa [h0] at hbs⟩
    · next h0 =>
      split at h₁
      · cases h₁
      · next hneg =>
        obtain ⟨taken, s₂, htaken, h₂⟩ := bind_eq_ok.mp h₁
        obtain ⟨hs₁, hlen⟩ := Decoder.take_eq_ok htaken
        cases hu : Text.ofUnits? (Decoder.units taken) with
        | none =>
          simp only [hu] at h₂
          cases h₂
        | some cs =>
          simp only [hu] at h₂
          obtain ⟨rfl, rfl⟩ := pure_eq_ok.mp h₂
          obtain ⟨hbytes, hcount⟩ := Decoder.unitBytes_units hlen
          have hunits := Text.toUnits_of_ofUnits? hu
          refine ⟨bs ++ taken, by rw [hinput, hs₁, List.append_assoc], ?_⟩
          have hlength : ((Text.toUnits (String.ofList cs).toList).length : Int) + 1 = n := by
            rw [String.toList_ofList, hunits, hcount]
            omega
          have happ : (Encoder.bytes (Encoder.unitBytes
              (Text.toUnits (String.ofList cs).toList))).Appends taken := by
            rw [String.toList_ofList, hunits, hbytes]
            exact Encoder.bytes_appends taken
          exact Encoder.Appends.then (by rw [hlength]; exact hbs) happ

/-- Types are kept, with the spelling of their classes. -/
theorem type_codec : Codec Encoder.type Decoder.type id where
  read {t out out'} h := by
    obtain ⟨_, out₁, htag, h₁⟩ := bind_eq_ok.mp h
    obtain ⟨bs, hbs, hr⟩ := typeTag_codec.read htag
    cases t with
    | ref c =>
      obtain ⟨cs, hcs, hc⟩ := string_codec.read h₁
      exact ⟨_, hbs.then hcs, hr.then (hc.map fun _ => rfl)⟩
    | _ => exact ⟨bs, hbs, hr.map fun _ => rfl⟩
  write {input t rest} h := by
    obtain ⟨tag, s, htag, h₁⟩ := bind_eq_ok.mp h
    obtain ⟨bs, hinput, hbs⟩ := typeTag_codec.write htag
    cases tag with
    | ref =>
      obtain ⟨c, s₁, hc, h₂⟩ := bind_eq_ok.mp h₁
      obtain ⟨rfl, rfl⟩ := pure_eq_ok.mp h₂
      obtain ⟨cs, hs, hcs⟩ := string_codec.write hc
      exact ⟨bs ++ cs, by rw [hinput, hs, List.append_assoc], hbs.then hcs⟩
    | _ =>
      obtain ⟨rfl, rfl⟩ := pure_eq_ok.mp h₁
      exact ⟨bs, hinput, hbs⟩

/-- What an attribute file keeps of a constant: of an integer the lowest sixteen bits, as a
signed number, and of anything else all. -/
def Constant.kept : Constant → Constant
  | .integer n => .integer (Int.bmod n 65536)
  | c => c

namespace Decoder

/-- A character in one unit is read back. -/
theorem character_reads {c : Char} (h : c.toNat < 65536) :
    character.Reads (Bytes.ofNat 2 c.toNat) c := by
  have hvalid : c.toNat.isValidChar := c.valid
  refine (nat_reads_of_lt (by rwa [capacity_two])).map fun rest => ?_
  rw [if_pos hvalid, Char.ofNat_toNat]
  rfl

/-- A character that is read stands in the input as one unit. -/
theorem character_eq_ok {c : Char} {input rest : Bytes} (h : character input = .ok c rest) :
    input = Bytes.ofNat 2 c.toNat ++ rest ∧ c.toNat < 65536 := by
  obtain ⟨n, s, hn, h₁⟩ := bind_eq_ok.mp h
  obtain ⟨hinput, hlt⟩ := nat_eq_ok hn
  split at h₁
  · next hvalid =>
    obtain ⟨rfl, rfl⟩ := pure_eq_ok.mp h₁
    rw [Text.toNat_ofNat_valid hvalid]
    exact ⟨hinput, by rwa [capacity_two] at hlt⟩
  · cases h₁

end Decoder

/-- Any integer is stored as its lowest sixteen bits. -/
theorem short_reads_mod (n : Int) :
    Decoder.short.Reads (Bytes.ofNat 2 (n % 65536).toNat) (Int.bmod n 65536) := by
  refine (Decoder.nat_reads 2 _).map fun rest => ?_
  have hmod : (((n % 65536).toNat % Bytes.capacity 2 : Nat) : Int) = n % 65536 := by
    rw [capacity_two]
    omega
  have hbmod : Int.bmod (n % 65536) 65536 = Int.bmod n 65536 := by
    rw [Int.bmod_def, Int.bmod_def]
    split <;> split <;> omega
  rw [pure_apply, hmod, hbmod]

/-- A type tag and a value behind it are read back if the value is. -/
theorem typeTag_then {α : Type} {tag : TypeTag} {value : Encoder Unit} {f : TypeTag → Decoder α}
    {a : α} {out out' : Output}
    (h : (do Encoder.coded tag; value : Encoder Unit) out = .ok () out')
    (hvalue : ∀ {out₁}, value out₁ = .ok () out' → ∃ bs, value.Appends bs ∧ (f tag).Reads bs a) :
    ∃ bs, Encoder.Appends (do Encoder.coded tag; value) bs ∧
      Decoder.Reads (Decoder.typeTag >>= f) bs a := by
  obtain ⟨_, out₁, htag, h₁⟩ := bind_eq_ok.mp h
  obtain ⟨bs, hbs, hr⟩ := typeTag_codec.read htag
  obtain ⟨cs, hcs, hc⟩ := hvalue h₁
  exact ⟨_, hbs.then hcs, hr.then hc⟩

/-- A constant that has been written is read back but for the upper bits of an integer. -/
theorem constant_read {c : Constant} {out out' : Output}
    (h : Encoder.constant c out = .ok () out') :
    ∃ bs, (Encoder.constant c).Appends bs ∧ Decoder.constant.Reads bs c.kept := by
  cases c with
  | null =>
    obtain ⟨bs, hbs, hr⟩ := typeTag_codec.read h
    exact ⟨bs, hbs, hr.map fun _ => rfl⟩
  | boolean b =>
    refine typeTag_then h fun hb => ?_
    obtain ⟨bs, hbs, hr⟩ := flag_codec.read hb
    exact ⟨bs, hbs, hr.map fun _ => rfl⟩
  | character c =>
    by_cases hlt : c.toNat < 65536
    · simp only [Encoder.constant, if_pos hlt] at h ⊢
      exact typeTag_then h fun _ =>
        ⟨_, Encoder.bytes_appends _, (Decoder.character_reads hlt).map fun _ => rfl⟩
    · simp only [Encoder.constant, if_neg hlt] at h
      cases h
  | integer n =>
    exact typeTag_then h fun _ =>
      ⟨_, Encoder.bytes_appends _, (short_reads_mod n).map fun _ => rfl⟩
  | real bits =>
    refine typeTag_then h fun _ =>
      ⟨_, Encoder.bytes_appends _, (Decoder.nat_reads_of_lt bits.toNat_lt).map fun _ => ?_⟩
    rw [UInt32.ofNat_toNat]
    rfl
  | longReal bits =>
    refine typeTag_then h fun _ =>
      ⟨_, Encoder.bytes_appends _, (Decoder.nat_reads_of_lt bits.toNat_lt).map fun _ => ?_⟩
    rw [UInt64.ofNat_toNat]
    rfl
  | text s =>
    refine typeTag_then h fun hs => ?_
    obtain ⟨bs, hbs, hr⟩ := string_codec.read hs
    exact ⟨bs, hbs, hr.map fun _ => rfl⟩

/-- A constant that is read would be written in the same bytes. -/
theorem constant_write {input rest : Bytes} {c : Constant}
    (h : Decoder.constant input = .ok c rest) :
    ∃ bs, input = bs ++ rest ∧ (Encoder.constant c).Appends bs := by
  obtain ⟨tag, s, htag, h₁⟩ := bind_eq_ok.mp h
  obtain ⟨bs, hinput, hbs⟩ := typeTag_codec.write htag
  -- Every sort of constant has its value in `s`, behind the tag.
  have hthen : ∀ cs, s = cs ++ rest → (Encoder.constant c).Appends (bs ++ cs) →
      ∃ bs, input = bs ++ rest ∧ (Encoder.constant c).Appends bs := by
    intro cs hs happ
    exact ⟨bs ++ cs, by rw [hinput, hs, List.append_assoc], happ⟩
  cases tag with
  | undefined =>
    obtain ⟨rfl, rfl⟩ := pure_eq_ok.mp h₁
    exact ⟨bs, hinput, hbs⟩
  | boolean =>
    obtain ⟨b, s₁, hb, h₂⟩ := bind_eq_ok.mp h₁
    obtain ⟨rfl, rfl⟩ := pure_eq_ok.mp h₂
    obtain ⟨cs, hs, hcs⟩ := flag_codec.write hb
    exact hthen cs hs (hbs.then hcs)
  | character =>
    obtain ⟨b, s₁, hb, h₂⟩ := bind_eq_ok.mp h₁
    obtain ⟨rfl, rfl⟩ := pure_eq_ok.mp h₂
    obtain ⟨hs, hlt⟩ := Decoder.character_eq_ok hb
    refine hthen _ hs ?_
    rw [Encoder.constant, if_pos hlt]
    exact hbs.then (Encoder.bytes_appends _)
  | integer =>
    obtain ⟨b, s₁, hb, h₂⟩ := bind_eq_ok.mp h₁
    obtain ⟨rfl, rfl⟩ := pure_eq_ok.mp h₂
    obtain ⟨cs, hs, hcs⟩ := short_codec.write hb
    rw [Encoder.short, if_pos (Decoder.fitsShort_of_short hb)] at hcs
    exact hthen cs hs (hbs.then hcs)
  | real =>
    obtain ⟨b, s₁, hb, h₂⟩ := bind_eq_ok.mp h₁
    obtain ⟨rfl, rfl⟩ := pure_eq_ok.mp h₂
    obtain ⟨hs, hlt⟩ := Decoder.nat_eq_ok hb
    refine hthen _ hs (hbs.then ?_)
    have hmod : b % 2 ^ 32 = b := Nat.mod_eq_of_lt hlt
    rw [UInt32.toNat_ofNat', hmod]
    exact Encoder.bytes_appends _
  | longReal =>
    obtain ⟨b, s₁, hb, h₂⟩ := bind_eq_ok.mp h₁
    obtain ⟨rfl, rfl⟩ := pure_eq_ok.mp h₂
    obtain ⟨hs, hlt⟩ := Decoder.nat_eq_ok hb
    refine hthen _ hs (hbs.then ?_)
    have hmod : b % 2 ^ 64 = b := Nat.mod_eq_of_lt hlt
    rw [UInt64.toNat_ofNat', hmod]
    exact Encoder.bytes_appends _
  | text =>
    obtain ⟨b, s₁, hb, h₂⟩ := bind_eq_ok.mp h₁
    obtain ⟨rfl, rfl⟩ := pure_eq_ok.mp h₂
    obtain ⟨cs, hs, hcs⟩ := string_codec.write hb
    exact hthen cs hs (hbs.then hcs)
  | _ => cases h₁

/-- Constants are kept but for the upper bits of integers. -/
theorem constant_codec : Codec Encoder.constant Decoder.constant Constant.kept :=
  ⟨constant_read, constant_write⟩

namespace Scalar

/-- Identifiers are kept. -/
theorem identifier_codec : Codec (fun s => Encoder.string (some s)) takeIdentifier id where
  read h := by
    obtain ⟨bs, hbs, hr⟩ := string_codec.read h
    exact ⟨bs, hbs, hr.map fun _ => rfl⟩
  write {input s rest} h := by
    obtain ⟨found, s₁, hfound, h₁⟩ := bind_eq_ok.mp h
    obtain ⟨bs, hinput, hbs⟩ := string_codec.write hfound
    cases found with
    | none => cases h₁
    | some s' =>
      obtain ⟨rfl, rfl⟩ := pure_eq_ok.mp h₁
      exact ⟨bs, hinput, hbs⟩

/-- Identifiers one after the other are kept. -/
theorem putIdentifiers_read {ss : List String} {out out' : Output}
    (h : putIdentifiers ss out = .ok () out') :
    ∃ bs, (putIdentifiers ss).Appends bs ∧ (takeIdentifiers ss.length).Reads bs ss := by
  induction ss generalizing out with
  | nil => exact ⟨[], fun out => by simp [putIdentifiers], fun rest => rfl⟩
  | cons s ss ih =>
    obtain ⟨_, out₁, hs, hss⟩ := bind_eq_ok.mp h
    obtain ⟨bs, hbs, hr⟩ := identifier_codec.read hs
    obtain ⟨cs, hcs, hrs⟩ := ih hss
    exact ⟨bs ++ cs, hbs.then hcs, hr.then (hrs.map fun _ => rfl)⟩

/-- Identifiers that are read would be written in the same bytes. -/
theorem putIdentifiers_write {n : Nat} {ss : List String} {input rest : Bytes}
    (h : takeIdentifiers n input = .ok ss rest) :
    ss.length = n ∧ ∃ bs, input = bs ++ rest ∧ (putIdentifiers ss).Appends bs := by
  induction n generalizing ss input with
  | zero =>
    obtain ⟨rfl, rfl⟩ := pure_eq_ok.mp h
    exact ⟨rfl, [], rfl, fun out => by simp [putIdentifiers]⟩
  | succ n ih =>
    obtain ⟨s, s₁, hs, h₁⟩ := bind_eq_ok.mp h
    obtain ⟨ss', s₂, hss, h₂⟩ := bind_eq_ok.mp h₁
    obtain ⟨rfl, rfl⟩ := pure_eq_ok.mp h₂
    obtain ⟨bs, hinput, hbs⟩ := identifier_codec.write hs
    obtain ⟨hlen, cs, hs₁, hcs⟩ := ih hss
    exact ⟨by rw [List.length_cons, hlen], bs ++ cs, by rw [hinput, hs₁, List.append_assoc],
      hbs.then hcs⟩

/-- Lists of identifiers are kept. -/
theorem identifiers_codec : Codec (put identifiers) (take identifiers) id where
  read {ss _ _} h := by
    obtain ⟨_, out₁, hn, hss⟩ := bind_eq_ok.mp h
    obtain ⟨bs, hbs, hr⟩ := count_codec.read hn
    obtain ⟨cs, hcs, hrs⟩ := putIdentifiers_read hss
    exact ⟨bs ++ cs, hbs.then hcs, hr.then hrs⟩
  write {input ss rest} h := by
    obtain ⟨n, s₁, hn, h₁⟩ := bind_eq_ok.mp h
    obtain ⟨bs, hinput, hbs⟩ := count_codec.write hn
    obtain ⟨rfl, cs, hs₁, hcs⟩ := putIdentifiers_write h₁
    exact ⟨bs ++ cs, by rw [hinput, hs₁, List.append_assoc], hbs.then hcs⟩

/-- What a record keeps of a field that is stored in place. -/
def kept : (s : Scalar) → s.Value → s.Value
  | constant, c => c.kept
  | _, v => v

/-- Whether a field that is stored in place can be read back: the name of a module only with the
kind of a module. -/
def Readable : (s : Scalar) → s.Value → Prop
  | moduleName, (_, k) => k.isModule = true
  | _, _ => True

/-- The name of a module with the kind of a module is read back. -/
theorem takeModuleName_reads {s : String} {k : Kind} {bs cs : Bytes}
    (hs : takeIdentifier.Reads bs s) (hk : Decoder.kind.Reads cs k) (h : k.isModule = true) :
    takeModuleName.Reads (bs ++ cs) (s, k) := by
  refine hs.then (hk.map fun rest => ?_)
  rw [if_pos h, pure_apply]

/-- The name of a module with another kind is refused. -/
theorem takeModuleName_refuses {s : String} {k : Kind} {bs cs : Bytes}
    (hs : takeIdentifier.Reads bs s) (hk : Decoder.kind.Reads cs k) (h : ¬ k.isModule = true)
    (rest : Bytes) : ∃ e s', takeModuleName (bs ++ cs ++ rest) = .error e s' := by
  refine ⟨.protocol (.notAModule s k), rest, ?_⟩
  unfold takeModuleName
  rw [List.append_assoc, bind_of_ok (hs _), bind_of_ok (hk _), if_neg h, throw_apply]

/-- A scalar field that has been written is read back if it can be, and is refused otherwise. -/
theorem read_put {s : Scalar} {v : s.Value} {out out' : Output}
    (h : s.put v out = .ok () out') :
    ∃ bs, (s.put v).Appends bs ∧ (s.Readable v → s.take.Reads bs (s.kept v)) ∧
      (¬ s.Readable v → ∀ rest, ∃ e s', s.take (bs ++ rest) = .error e s') := by
  -- All fields but the name of a module have a codec and can always be read.
  have always : ∀ {s : Scalar} {v : s.Value}, s.Readable v →
      (∃ bs, (s.put v).Appends bs ∧ s.take.Reads bs (s.kept v)) →
      ∃ bs, (s.put v).Appends bs ∧ (s.Readable v → s.take.Reads bs (s.kept v)) ∧
        (¬ s.Readable v → ∀ rest, ∃ e s', s.take (bs ++ rest) = .error e s') := by
    rintro s v hv ⟨bs, hbs, hr⟩
    exact ⟨bs, hbs, fun _ => hr, fun hn => absurd hv hn⟩
  cases s with
  | moduleName =>
    obtain ⟨s, k⟩ := v
    obtain ⟨_, out₁, hs, hk⟩ := bind_eq_ok.mp h
    obtain ⟨bs, hbs, hr⟩ := identifier_codec.read hs
    obtain ⟨cs, hcs, hrk⟩ := kind_codec.read hk
    exact ⟨bs ++ cs, hbs.then hcs, takeModuleName_reads hr hrk, takeModuleName_refuses hr hrk⟩
  | identifier => exact always trivial (identifier_codec.read h)
  | name => exact always trivial (string_codec.read h)
  | identifiers => exact always trivial (identifiers_codec.read h)
  | byte => exact always trivial (byte_codec.read h)
  | count => exact always trivial (count_codec.read h)
  | flag => exact always trivial (flag_codec.read h)
  | type => exact always trivial (type_codec.read h)
  | constant => exact always trivial (constant_codec.read h)
  | _ => exact always trivial ((coded_codec _).read h)

/-- A scalar field that is read would be written in the same bytes. -/
theorem write_take {s : Scalar} {v : s.Value} {input rest : Bytes}
    (h : s.take input = .ok v rest) : ∃ bs, input = bs ++ rest ∧ (s.put v).Appends bs := by
  cases s with
  | moduleName =>
    obtain ⟨s, s₁, hs, h₁⟩ := bind_eq_ok.mp h
    obtain ⟨k, s₂, hk, h₂⟩ := bind_eq_ok.mp h₁
    obtain ⟨bs, hinput, hbs⟩ := identifier_codec.write hs
    obtain ⟨cs, hs₁, hcs⟩ := kind_codec.write hk
    split at h₂
    · obtain ⟨rfl, rfl⟩ := pure_eq_ok.mp h₂
      exact ⟨bs ++ cs, by rw [hinput, hs₁, List.append_assoc], hbs.then hcs⟩
    · cases h₂
  | identifier => exact identifier_codec.write h
  | name => exact string_codec.write h
  | identifiers => exact identifiers_codec.write h
  | byte => exact byte_codec.write h
  | count => exact count_codec.write h
  | flag => exact flag_codec.write h
  | type => exact type_codec.write h
  | constant => exact constant_codec.write h
  | _ => exact (coded_codec _).write h

end Scalar

end Simula
