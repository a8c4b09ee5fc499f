import Simula.Proofs.Effects
import Simula.Stream.Decoder
import Simula.Stream.Encoder

/-!
# Codes of numbers

An encoder appends the same bytes wherever it runs, and a decoder that accepts some bytes does so
whatever follows them. A codec is an encoder with a decoder that undo each other in both
directions: what has been written is read back, and what is read would be written in the same
bytes. Here are the codecs of bytes, numbers and closed sets.
-/

namespace Simula

namespace Output

/-- Writing nothing leaves an output as it is. -/
@[simp]
theorem append_nil (out : Output) : out ++ ([] : Bytes) = out := rfl

/-- Bytes written in two parts are written as a whole. -/
theorem append_append (out : Output) (bs cs : Bytes) : out ++ bs ++ cs = out ++ (bs ++ cs) := by
  have hsink : out.sink ++ bs ++ cs = out.sink ++ (bs ++ cs) := Array.ext' (by simp)
  have hwritten : out.written + bs.length + cs.length = out.written + (bs ++ cs).length := by
    rw [List.length_append, Nat.add_assoc]
  exact (Output.mk.injEq ..).mpr ⟨hsink, hwritten⟩

/-- A new output has no bytes. -/
@[simp]
theorem toList_new : ({} : Output).toList = [] := rfl

/-- The bytes of an output end with those written last. -/
@[simp]
theorem toList_append (out : Output) (bs : Bytes) : (out ++ bs).toList = out.toList ++ bs :=
  Array.toList_appendList

/-- The position moves by as many places as bytes are written. -/
@[simp]
theorem position_append (out : Output) (bs : Bytes) :
    (out ++ bs).position = out.position + bs.length :=
  rfl

/-- What has been written is known from the whole. -/
theorem append_cancel {out : Output} {bs cs : Bytes} (h : out ++ bs = out ++ cs) : bs = cs := by
  have hlist := congrArg toList h
  simp only [toList_append] at hlist
  exact List.append_cancel_left hlist

end Output

/-- The encoder appends these bytes, whatever has been written before. -/
def Encoder.Appends (e : Encoder Unit) (bs : Bytes) : Prop := ∀ out, e out = .ok () (out ++ bs)

/-- The decoder reads these bytes as a value, whatever follows them. -/
def Decoder.Reads {α : Type} (d : Decoder α) (bs : Bytes) (a : α) : Prop :=
  ∀ rest, d (bs ++ rest) = .ok a rest

/-- An encoder and a decoder that undo each other, up to what the format keeps of a value. -/
structure Codec {α : Type} (put : α → Encoder Unit) (take : Decoder α) (kept : α → α) : Prop where
  /-- What has been written is read back. -/
  read : ∀ {a out out'}, put a out = .ok () out' → ∃ bs, (put a).Appends bs ∧ take.Reads bs (kept a)
  /-- What is read would be written in the same bytes. -/
  write : ∀ {input a rest}, take input = .ok a rest → ∃ bs, input = bs ++ rest ∧ (put a).Appends bs

/-- A successful encoder that appends known bytes has appended those. -/
theorem Encoder.Appends.eq {e : Encoder Unit} {bs : Bytes} (h : e.Appends bs)
    {out out' : Output} (h' : e out = .ok () out') : out' = out ++ bs := by
  rw [h out] at h'
  cases h'
  rfl

/-- Encoders one after the other append their bytes one after the other. -/
theorem Encoder.Appends.then {e f : Encoder Unit} {bs cs : Bytes} (he : e.Appends bs)
    (hf : f.Appends cs) : Encoder.Appends (do e; f) (bs ++ cs) := by
  intro out
  rw [bind_of_ok (he out), hf, Output.append_append]

/-- A byte string is appended as it is. -/
theorem Encoder.bytes_appends (bs : Bytes) : (Encoder.bytes bs).Appends bs := fun _ => rfl

/-- Decoders one after the other read their bytes one after the other. -/
theorem Decoder.Reads.then {α β : Type} {d : Decoder α} {f : α → Decoder β} {bs cs : Bytes}
    {a : α} {b : β} (hd : d.Reads bs a) (hf : (f a).Reads cs b) :
    Decoder.Reads (d >>= f) (bs ++ cs) b := by
  intro rest
  rw [List.append_assoc, bind_of_ok (hd (cs ++ rest)), hf]

/-- A value computed from what is read needs no more bytes. -/
theorem Decoder.Reads.map {α β : Type} {d : Decoder α} {f : α → Decoder β} {bs : Bytes}
    {a : α} {b : β} (hd : d.Reads bs a) (hf : ∀ rest, f a rest = .ok b rest) :
    Decoder.Reads (d >>= f) bs b := by
  intro rest
  rw [bind_of_ok (hd rest), hf]

namespace Bytes

/-- The first byte counts for as much as the bytes after it have values. -/
theorem toNat_cons (b : UInt8) (bs : Bytes) :
    toNat (b :: bs) = b.toNat * capacity bs.length + toNat bs := by
  rw [toNat, List.foldl_cons, foldl_eq, Nat.zero_mul, Nat.zero_add]

/-- Every width has a value. -/
theorem capacity_pos (width : Nat) : 0 < capacity width := by
  induction width with
  | zero => decide
  | succ width ih =>
    rw [capacity]
    omega

/-- Bytes stand for fewer than the values of their width. -/
theorem toNat_lt (bs : Bytes) : toNat bs < capacity bs.length := by
  induction bs with
  | nil => decide
  | cons b bs ih =>
    rw [toNat_cons, List.length_cons, capacity]
    have hb := b.toNat_lt
    calc b.toNat * capacity bs.length + toNat bs
        < (b.toNat + 1) * capacity bs.length := by rw [Nat.add_mul, Nat.one_mul]; omega
      _ ≤ 256 * capacity bs.length := Nat.mul_le_mul_right _ (by omega)
      _ = capacity bs.length * 256 := Nat.mul_comm _ _

/-- Multiples of the capacity of a width leave no trace in it. -/
theorem ofNat_add_mul (width k n : Nat) : ofNat width (k * capacity width + n) = ofNat width n := by
  induction width generalizing k with
  | zero => rfl
  | succ width ih =>
    have hk : k * capacity (width + 1) = k * 256 * capacity width := by
      rw [capacity, Nat.mul_comm (capacity width), Nat.mul_assoc]
    have hdiv : (k * 256 * capacity width + n) / capacity width = k * 256 + n / capacity width := by
      rw [Nat.add_comm, Nat.add_mul_div_right _ _ (capacity_pos width), Nat.add_comm]
    rw [ofNat, ofNat, hk, ih, hdiv]
    congr 1
    apply UInt8.toNat_inj.mp
    rw [UInt8.toNat_ofNat', UInt8.toNat_ofNat']
    omega

/-- Writing the number of some bytes in their width gives the bytes. -/
theorem ofNat_toNat (bs : Bytes) : ofNat bs.length (toNat bs) = bs := by
  induction bs with
  | nil => rfl
  | cons b bs ih =>
    have hdiv : (b.toNat * capacity bs.length + toNat bs) / capacity bs.length = b.toNat := by
      rw [Nat.add_comm, Nat.add_mul_div_right _ _ (capacity_pos _),
        Nat.div_eq_of_lt (toNat_lt bs), Nat.zero_add]
    rw [List.length_cons, ofNat, toNat_cons, ofNat_add_mul, ih, hdiv, UInt8.ofNat_toNat]

end Bytes

namespace Decoder

/-- Any bytes are read as themselves. -/
theorem take_reads (bs : Bytes) : (take bs.length).Reads bs bs := by
  intro rest
  simp [take]

/-- What is taken stands at the front of the input. -/
theorem take_eq_ok {n : Nat} {input bs rest : Bytes} (h : take n input = .ok bs rest) :
    input = bs ++ rest ∧ bs.length = n := by
  simp only [take] at h
  split at h
  · next hn =>
    cases h
    exact ⟨(List.take_append_drop n input).symm, hn⟩
  · cases h

/-- A number is read back modulo the capacity of its width. -/
theorem nat_reads (width n : Nat) :
    (nat width).Reads (Bytes.ofNat width n) (n % Bytes.capacity width) := by
  have h := take_reads (Bytes.ofNat width n)
  rw [Bytes.length_ofNat] at h
  refine h.map fun rest => ?_
  rw [pure_apply, Bytes.toNat_ofNat]

/-- A number that fits its width is read back. -/
theorem nat_reads_of_lt {width n : Nat} (h : n < Bytes.capacity width) :
    (nat width).Reads (Bytes.ofNat width n) n := by
  have hreads := nat_reads width n
  rwa [Nat.mod_eq_of_lt h] at hreads

/-- A number that is read stands in the input in its width. -/
theorem nat_eq_ok {width n : Nat} {input rest : Bytes} (h : nat width input = .ok n rest) :
    input = Bytes.ofNat width n ++ rest ∧ n < Bytes.capacity width := by
  obtain ⟨bs, s, hbs, hn⟩ := bind_eq_ok.mp h
  obtain ⟨hinput, rfl⟩ := take_eq_ok hbs
  cases hn
  exact ⟨by rw [Bytes.ofNat_toNat, hinput], Bytes.toNat_lt bs⟩

end Decoder

/-- Bytes are stored as they are. -/
theorem byte_codec : Codec Encoder.byte Decoder.byte id where
  read {a _ _} _ := ⟨[a], Encoder.bytes_appends [a], fun _ => rfl⟩
  write {input a rest} h := by
    cases input with
    | nil => cases h
    | cons b bs =>
      cases h
      exact ⟨_, rfl, Encoder.bytes_appends _⟩

/-- A number that fits is appended in two bytes. -/
theorem Encoder.short_appends {n : Int} (h : fitsShort n = true) :
    (Encoder.short n).Appends (Bytes.ofNat 2 (n % 65536).toNat) := by
  rw [Encoder.short, if_pos h]
  exact Encoder.bytes_appends _

/-- Only a number that fits is written. -/
theorem Encoder.fitsShort_of_short {n : Int} {out out' : Output}
    (h : Encoder.short n out = .ok () out') : fitsShort n = true := by
  unfold Encoder.short at h
  split at h
  · assumption
  · cases h

/-- Fitting in two bytes is lying between the bounds. -/
theorem fitsShort_iff (n : Int) : fitsShort n = true ↔ -32768 ≤ n ∧ n ≤ 32767 := by
  rw [fitsShort, Bool.and_eq_true, decide_eq_true_eq, decide_eq_true_eq]
  unfold maxShort
  omega

/-- Two bytes hold the numbers below 65536. -/
theorem capacity_two : Bytes.capacity 2 = 65536 := by decide

/-- Numbers that fit in two bytes are kept. -/
theorem short_codec : Codec Encoder.short Decoder.short id where
  read {n _ _} h := by
    have hn := Encoder.fitsShort_of_short h
    refine ⟨_, Encoder.short_appends hn, (Decoder.nat_reads 2 _).map fun rest => ?_⟩
    have hb := (fitsShort_iff n).mp hn
    have hkept : Int.bmod (((n % 65536).toNat % Bytes.capacity 2 : Nat) : Int) 65536 = n := by
      rw [capacity_two, Int.bmod_def]
      split <;> omega
    rw [pure_apply, hkept, id]
  write {input n rest} h := by
    obtain ⟨m, s, hm, hn⟩ := bind_eq_ok.mp h
    obtain ⟨hinput, hlt⟩ := Decoder.nat_eq_ok hm
    obtain ⟨rfl, rfl⟩ := pure_eq_ok.mp hn
    rw [capacity_two] at hlt
    have hm' : ((Int.bmod m 65536) % 65536).toNat = m := by
      rw [Int.bmod_def]
      split <;> omega
    have hfits : fitsShort (Int.bmod m 65536) = true := by
      rw [fitsShort_iff, Int.bmod_def]
      split <;> omega
    exact ⟨_, hinput, by simpa only [hm'] using Encoder.short_appends hfits⟩

/-- A number that has been read fits in two bytes. -/
theorem Decoder.fitsShort_of_short {n : Int} {input rest : Bytes}
    (h : Decoder.short input = .ok n rest) : fitsShort n = true := by
  obtain ⟨bs, -, hbs⟩ := short_codec.write h
  exact Encoder.fitsShort_of_short (hbs {})

/-- Counts are kept. -/
theorem count_codec : Codec Encoder.count Decoder.count id where
  read {n out out'} h := by
    unfold Encoder.count at h ⊢
    split at h
    · next hn =>
      obtain ⟨bs, hbs, hr⟩ := short_codec.read h
      refine ⟨bs, by rwa [if_pos hn], hr.map fun rest => ?_⟩
      simp only [id, if_pos (Int.natCast_nonneg n)]
      rfl
    · cases h
  write {input n rest} h := by
    obtain ⟨m, s, hm, hn⟩ := bind_eq_ok.mp h
    obtain ⟨bs, hinput, hbs⟩ := short_codec.write hm
    split at hn
    · next h0 =>
      cases hn
      have hfits := (fitsShort_iff m).mp (Decoder.fitsShort_of_short hm)
      refine ⟨bs, hinput, ?_⟩
      rw [Encoder.count, if_pos (by unfold maxShort; omega), Int.toNat_of_nonneg h0]
      exact hbs
    · cases hn

/-- A count that has been read fits in two bytes. -/
theorem Decoder.count_le {n : Nat} {input rest : Bytes} (h : Decoder.count input = .ok n rest) :
    n ≤ maxShort := by
  obtain ⟨m, s, hm, hn⟩ := bind_eq_ok.mp h
  have hfits := (fitsShort_iff m).mp (Decoder.fitsShort_of_short hm)
  split at hn
  · cases hn
    unfold maxShort
    omega
  · cases hn

/-- Truth values are kept. -/
theorem flag_codec : Codec Encoder.flag Decoder.flag id where
  read {b _ _} _ := by
    refine ⟨_, Encoder.bytes_appends _, fun rest => ?_⟩
    cases b <;> rfl
  write {input b rest} h := by
    obtain ⟨c, s, hc, hb⟩ := bind_eq_ok.mp h
    obtain ⟨bs, hinput, hbs⟩ := byte_codec.write hc
    split at hb
    · next hc0 =>
      cases hb
      subst hc0
      exact ⟨bs, hinput, hbs⟩
    · split at hb
      · next hc1 =>
        cases hb
        subst hc1
        exact ⟨bs, hinput, hbs⟩
      · cases hb

section

variable {α : Type} [DecidableEq α] [Coded α]

/-- The code of a value survives in a byte. -/
theorem toNat_ofNat_code (a : α) : (UInt8.ofNat (Coded.code a)).toNat = Coded.code a := by
  rw [UInt8.toNat_ofNat']
  exact Nat.mod_eq_of_lt (Coded.code_lt a)

/-- A byte that decodes to a value is the byte of its code. -/
theorem ofNat_code_of_ofCode? {b : UInt8} {a : α} (h : Coded.ofCode? b.toNat = some a) :
    UInt8.ofNat (Coded.code a) = b := by
  rw [Coded.code_of_ofCode? h, UInt8.ofNat_toNat]

/-- Reading the byte of a value's code and looking the code up gives the value. -/
theorem byte_code_reads {β : Type} (a : α) (b : β) (f : UInt8 → Decoder β)
    (hf : ∀ c rest, Coded.ofCode? c.toNat = some a → f c rest = .ok b rest) :
    Decoder.Reads (Decoder.byte >>= f) [UInt8.ofNat (Coded.code a)] b := by
  refine Decoder.Reads.map (a := UInt8.ofNat (Coded.code a)) (fun _ => rfl) fun rest => hf _ _ ?_
  rw [toNat_ofNat_code, Coded.ofCode?_code]

/-- Values of a closed set are kept by a decoder that accepts exactly the known codes. -/
theorem code_codec {f : UInt8 → Decoder α}
    (known : ∀ {b a} rest, Coded.ofCode? b.toNat = some a → f b rest = .ok a rest)
    (unknown : ∀ {b} rest, (Coded.ofCode? b.toNat : Option α) = none →
      ∃ e s, f b rest = .error e s) :
    Codec (Encoder.coded (α := α)) (Decoder.byte >>= f) id where
  read {a _ _} _ :=
    ⟨_, Encoder.bytes_appends _, byte_code_reads a a f fun _ rest hc => known rest hc⟩
  write {input a rest} h := by
    obtain ⟨c, s, hc, hn⟩ := bind_eq_ok.mp h
    obtain ⟨bs, hinput, hbs⟩ := byte_codec.write hc
    cases ha : (Coded.ofCode? c.toNat : Option α) with
    | none =>
      obtain ⟨e, s', he⟩ := unknown s ha
      rw [he] at hn
      cases hn
    | some a' =>
      rw [known s ha] at hn
      cases hn
      exact ⟨bs, hinput, by rwa [Encoder.coded, ofNat_code_of_ofCode? ha]⟩

/-- Operators, modes and the like are kept. -/
theorem coded_codec (what : String) : Codec (Encoder.coded (α := α)) (Decoder.coded α what) id :=
  code_codec (fun rest h => by rw [h]; rfl) (fun rest h => by rw [h]; exact ⟨_, _, rfl⟩)

end

/-- Every tag of a kind may be written. -/
theorem Encoder.kind_eq (k : Kind) : Encoder.kind k = Encoder.coded k := by
  have h : Coded.code k < 32 := Coded.code_lt_length k
  have htag : (decide ((0 : Int) ≤ k.tag) && decide ((k.tag : Int) ≤ Kind.maxTag)) = true := by
    rw [Bool.and_eq_true, decide_eq_true_eq, decide_eq_true_eq]
    unfold Kind.tag Kind.maxTag
    omega
  rw [Encoder.kind, Encoder.kindTag, if_pos htag]
  rfl

/-- Kinds are kept. -/
theorem kind_codec : Codec Encoder.kind Decoder.kind id := by
  have hkind : Encoder.kind = Encoder.coded := funext Encoder.kind_eq
  rw [hkind]
  exact code_codec (fun rest h => by rw [Kind.ofTag?, h]; rfl)
    (fun rest h => by rw [Kind.ofTag?, h]; exact ⟨_, _, rfl⟩)

/-- The tag of a kind is one byte. -/
theorem Encoder.kind_appends (k : Kind) : (Encoder.kind k).Appends [UInt8.ofNat k.tag] := by
  rw [Encoder.kind_eq]
  exact Encoder.bytes_appends _

/-- The byte of a tag is read as its kind. -/
theorem Decoder.kind_reads (k : Kind) : Decoder.kind.Reads [UInt8.ofNat k.tag] k := by
  obtain ⟨bs, happ, hread⟩ := kind_codec.read (Encoder.kind_appends k {})
  rw [Output.append_cancel (happ.eq (Encoder.kind_appends k {}))]
  exact hread

/-- The tags of types are kept. -/
theorem typeTag_codec : Codec Encoder.coded Decoder.typeTag id :=
  code_codec (fun rest h => by rw [h]; rfl) (fun rest h => by rw [h]; exact ⟨_, _, rfl⟩)

end Simula
