import Mathlib.Algebra.GroupWithZero.Nat
import Mathlib.Data.List.Forall2
import Simula.Proofs.Stream.Values
import Simula.Stream.Item

/-!
# Streams of primitive items

Items that are written one after the other are read back by their sorts alone: nothing separates
them, and each leaves to the next exactly what follows it. How many bytes a write adds can be told
from the item, also when the write fails.
-/

namespace Simula

/-- The number of sixteen-bit units of a text: two for a character beyond `0xFFFF`, one for any
other. -/
def Text.unitCount (s : String) : Nat :=
  (s.toList.map fun c => if c.toNat ≤ 0xFFFF then 1 else 2).sum

/-- A text has as many units as are counted for it. -/
theorem Text.length_toUnits (s : String) : (toUnits s.toList).length = unitCount s := by
  rw [toUnits, unitCount, List.length_flatMap]
  congr 2
  funext c
  by_cases hc : c.toNat < 0x10000
  · rw [charUnits, if_pos hc, if_pos (Nat.le_of_lt_succ hc)]
    rfl
  · rw [charUnits, if_neg hc, if_neg (fun hle => hc (Nat.lt_succ_of_le hle))]
    rfl

/-- There are texts of any length. -/
theorem Text.exists_unitCount (n : Nat) : ∃ text, unitCount text = n := by
  refine ⟨String.ofList (List.replicate n 'a'), ?_⟩
  rw [unitCount, String.toList_ofList, List.map_replicate, List.sum_replicate_nat]
  exact Nat.mul_one n

/-! ## Failures -/

namespace Encoder

/-- A number that does not fit is refused before anything is written. -/
theorem short_of_not_fits {n : Int} (h : fitsShort n = false) (out : Output) :
    short n out = .error (.range n) out := by
  rw [short, h]
  rfl

/-- The length of a text has room for 32766 units. -/
theorem fitsShort_unitCount (s : String) :
    fitsShort ((Text.toUnits s.toList).length + 1) = decide (Text.unitCount s ≤ 32766) := by
  rw [Text.length_toUnits, Bool.eq_iff_iff, fitsShort_iff, decide_eq_true_eq]
  omega

/-- A text with too many units is refused before anything is written. -/
theorem string_of_long {s : String} (h : 32766 < Text.unitCount s) (out : Output) :
    string (some s) out = .error (.range (Text.unitCount s + 1)) out := by
  have hfits := (fitsShort_unitCount s).trans (decide_eq_false (Nat.not_le.mpr h))
  rw [← Text.length_toUnits]
  exact bind_of_error (short_of_not_fits hfits out)

/-- The bytes of a text that is not too long. -/
theorem string_appends {s : String} (h : Text.unitCount s ≤ 32766) :
    ∃ bs, (string (some s)).Appends bs ∧ bs.length = 2 + 2 * Text.unitCount s := by
  have hfits := (fitsShort_unitCount s).trans (decide_eq_true h)
  refine ⟨_, (short_appends hfits).then (bytes_appends _), ?_⟩
  rw [List.length_append, Bytes.length_ofNat, Decoder.length_unitBytes, Text.length_toUnits]

/-- Only a text with more than 32766 units is refused. -/
theorem string_fails_iff (s : Option String) (out : Output) :
    (∃ e out', string s out = .error e out') ↔
      ∃ text, s = some text ∧ 32766 < Text.unitCount text := by
  refine ⟨fun ⟨e, out', hfail⟩ => ?_, fun ⟨text, htext, hlong⟩ => ?_⟩
  · cases s with
    | none => cases hfail
    | some text =>
      refine ⟨text, rfl, Nat.lt_of_not_le fun hle => ?_⟩
      obtain ⟨bs, happends, -⟩ := string_appends hle
      rw [happends out] at hfail
      cases hfail
  · subst htext
    exact ⟨_, _, string_of_long hlong out⟩

/-- Only a character that takes two units is refused as a constant. -/
theorem character_fails_iff (c : Char) (out : Output) :
    (∃ e out', constant (.character c) out = .error e out') ↔ 0xFFFF < c.toNat := by
  rw [constant]
  split
  · next hc =>
    constructor
    · rintro ⟨e, out', hfail⟩
      have happends : Encoder.Appends (do
          coded TypeTag.character
          bytes (Bytes.ofNat 2 c.toNat)) _ := (bytes_appends _).then (bytes_appends _)
      cases (happends out).symm.trans hfail
    · exact fun hwide => absurd hc (Nat.not_lt.mpr hwide)
  · next hc => exact ⟨fun _ => Nat.le_of_not_lt hc, fun _ => ⟨_, out, rfl⟩⟩

end Encoder

/-! ## Bytes added -/

/-- Whether it succeeds or fails, the encoder leaves what has been written before, with that many
bytes behind it. -/
def Encoder.Adds (e : Encoder Unit) (n : Nat) : Prop :=
  ∀ out, ∃ bs : Bytes, leaves e out = out ++ bs ∧ bs.length = n

namespace Encoder.Adds

/-- Appended bytes are added. -/
theorem of_appends {e : Encoder Unit} {bs : Bytes} (h : e.Appends bs) : e.Adds bs.length :=
  fun out => ⟨bs, leaves_of_ok (h out), rfl⟩

/-- Doing nothing adds nothing. -/
theorem nothing : Encoder.Adds (pure ()) 0 := fun out => ⟨[], out.append_nil.symm, rfl⟩

/-- An encoder that always fails adds nothing. -/
theorem of_error {e : Encoder Unit} (h : ∀ out, ∃ err, e out = .error err out) : e.Adds 0 := by
  intro out
  obtain ⟨err, herr⟩ := h out
  exact ⟨[], by rw [leaves_of_error herr, Output.append_nil], rfl⟩

/-- Bytes that are there before an encoder starts count in any case. -/
theorem after {e f : Encoder Unit} {bs : Bytes} {n : Nat} (he : e.Appends bs) (hf : f.Adds n) :
    Encoder.Adds (do e; f) (bs.length + n) := by
  intro out
  obtain ⟨cs, hcs, hlen⟩ := hf (out ++ bs)
  refine ⟨bs ++ cs, ?_, by rw [List.length_append, hlen]⟩
  rw [leaves_bind_of_ok (he out), hcs, Output.append_append]

end Encoder.Adds

/-- The number of bytes that writing a text adds. -/
def Text.width : Option String → Nat
  | none => 2
  | some s => if unitCount s ≤ 32766 then 2 + 2 * unitCount s else 0

/-- The number of bytes that writing a type adds. The tag of a reference stays when the class
identifier is too long. -/
def Ty.width : Ty → Nat
  | .ref className => 1 + Text.width className
  | _ => 1

/-- The number of bytes that writing a constant adds. -/
def Constant.width : Constant → Nat
  | .null => 1
  | .boolean _ => 2
  | .character c => if c.toNat ≤ 0xFFFF then 3 else 0
  | .integer _ => 3
  | .real _ => 5
  | .longReal _ => 9
  | .text s => 1 + Text.width s

/-- The number of bytes that writing an item adds. -/
def Item.width : Item → Nat
  | .byte _ | .flag _ | .kind _ => 1
  | .short n => if -32768 ≤ n ∧ n ≤ 32767 then 2 else 0
  | .count n => if n ≤ 32767 then 2 else 0
  | .string s => Text.width s
  | .type t => t.width
  | .constant c => c.width

namespace Encoder

/-- A short number takes two bytes if it is in range, and otherwise none. -/
theorem short_adds (n : Int) : (short n).Adds (if -32768 ≤ n ∧ n ≤ 32767 then 2 else 0) := by
  split
  · next hn => exact .of_appends (short_appends ((fitsShort_iff n).mpr hn))
  · next hn =>
    have hfits : fitsShort n = false := Bool.eq_false_iff.mpr fun h => hn ((fitsShort_iff n).mp h)
    exact .of_error fun out => ⟨_, short_of_not_fits hfits out⟩

/-- A count takes two bytes if it is in range, and otherwise none. -/
theorem count_adds (n : Nat) : (count n).Adds (if n ≤ 32767 then 2 else 0) := by
  rw [count]
  split
  · next hn =>
    have hshort := short_adds n
    unfold maxShort at hn
    rwa [if_pos (by omega)] at hshort ⊢
  · next hn =>
    rw [if_neg (show ¬ n ≤ 32767 from hn)]
    exact .of_error fun out => ⟨_, rfl⟩

/-- A text takes as many bytes as its width tells. -/
theorem string_adds (s : Option String) : (string s).Adds (Text.width s) := by
  cases s with
  | none => exact short_adds 0
  | some s =>
    rw [Text.width]
    split
    · next hs =>
      obtain ⟨bs, happends, hlen⟩ := string_appends hs
      exact hlen ▸ .of_appends happends
    · next hs => exact .of_error fun out => ⟨_, string_of_long (Nat.lt_of_not_le hs) out⟩

/-- A type takes as many bytes as its width tells. -/
theorem type_adds (t : Ty) : (type t).Adds t.width := by
  cases t with
  | ref className => exact .after (bytes_appends _) (string_adds className)
  | _ => exact .after (bytes_appends _) .nothing

/-- A constant takes as many bytes as its width tells. -/
theorem constant_adds (c : Constant) : (constant c).Adds c.width := by
  cases c with
  | character c =>
    rw [constant, Constant.width]
    split
    · next hc =>
      rw [if_pos (Nat.le_of_lt_succ hc)]
      exact .after (bytes_appends _) (.of_appends (bytes_appends _))
    · next hc =>
      rw [if_neg fun hle => hc (Nat.lt_succ_of_le hle)]
      exact .of_error fun out => ⟨_, rfl⟩
  | null => exact .of_appends (bytes_appends _)
  | text s => exact .after (bytes_appends _) (string_adds s)
  | _ => exact .after (bytes_appends _) (.of_appends (bytes_appends _))

end Encoder

namespace Item

/-- An item adds as many bytes as it is wide. -/
theorem put_adds (i : Item) : i.put.Adds i.width := by
  cases i with
  | byte b => exact .of_appends (Encoder.bytes_appends [b])
  | flag b => exact .of_appends (Encoder.bytes_appends _)
  | kind k => exact .of_appends (Encoder.kind_appends k)
  | short n => exact Encoder.short_adds n
  | count n => exact Encoder.count_adds n
  | string s => exact Encoder.string_adds s
  | type t => exact Encoder.type_adds t
  | constant c => exact Encoder.constant_adds c

/-- The output after writes one after the other, whether each of them succeeds or fails. -/
def putAll (items : List Item) (out : Output) : Output :=
  items.foldl (fun out i => leaves i.put out) out

/-- Writes one after the other, failing ones among them, add up. -/
theorem putAll_adds (items : List Item) (out : Output) :
    ∃ bs : Bytes, putAll items out = out ++ bs ∧ bs.length = (items.map width).sum := by
  induction items generalizing out with
  | nil => exact ⟨[], out.append_nil.symm, rfl⟩
  | cons i items ih =>
    obtain ⟨bs, hbs, hlen⟩ := i.put_adds out
    obtain ⟨cs, hcs, hlens⟩ := ih (out ++ bs)
    refine ⟨bs ++ cs, ?_, ?_⟩
    · rw [putAll, List.foldl_cons, hbs, ← Output.append_append]
      exact hcs
    · rw [List.length_append, hlen, hlens, List.map_cons, List.sum_cons]

/-- Writes move the position by as many places as they add bytes behind those that are there. -/
theorem position_putAll (items : List Item) (out : Output) :
    ∃ bs : Bytes, (putAll items out).toList = out.toList ++ bs ∧
      bs.length = (items.map width).sum ∧
      (putAll items out).position = out.position + bs.length := by
  obtain ⟨bs, hbs, hlen⟩ := putAll_adds items out
  refine ⟨bs, ?_, hlen, ?_⟩
  · rw [hbs, Output.toList_append]
  · rw [hbs, Output.position_append]

/-! ## Reading back -/

/-- The second item is what the first one is read back as. Only an integer constant may differ: it
comes back as the number of sixteen bits with sign that is congruent to it. -/
def ReadsAs : Item → Item → Prop
  | .constant (.integer n), back =>
    ∃ m : Int, back = .constant (.integer m) ∧ -32768 ≤ m ∧ m ≤ 32767 ∧ (65536 : Int) ∣ m - n
  | i, back => back = i

/-- The one constant that is changed is an integer. -/
theorem readsAs_constant (c : Constant) : ReadsAs (.constant c) (.constant c.kept) := by
  cases c with
  | integer n =>
    have hlow := Int.le_bmod (x := n) (m := 65536) (by decide)
    have hhigh := Int.bmod_lt (x := n) (m := 65536) (by decide)
    refine ⟨Int.bmod n 65536, rfl, by omega, by omega, ?_⟩
    exact Int.dvd_bmod_sub_self
  | _ => rfl

/-- An item that has been written is read back, whatever stands around it. -/
theorem take_reads_put {i : Item} {out out' : Output} (h : i.put out = .ok () out') :
    ∃ bs back, i.put.Appends bs ∧ (take i.sort).Reads bs back ∧ i.ReadsAs back := by
  -- All sorts but one keep every value.
  have same : ∀ {α : Type} {put : α → Encoder Unit} {d : Decoder α} {item : α → Item} {a : α},
      Codec put d id → put a out = .ok () out' → (item a).ReadsAs (item a) →
      ∃ bs back, (put a).Appends bs ∧ Decoder.Reads (do return item (← d)) bs back ∧
        (item a).ReadsAs back := by
    intro α put d item a hcodec hput hsame
    obtain ⟨bs, happends, hreads⟩ := hcodec.read hput
    exact ⟨bs, item a, happends, hreads.map fun _ => rfl, hsame⟩
  cases i with
  | byte b => exact same byte_codec h rfl
  | short n => exact same short_codec h rfl
  | count n => exact same count_codec h rfl
  | flag b => exact same flag_codec h rfl
  | string s => exact same string_codec h rfl
  | kind k => exact same kind_codec h rfl
  | type t => exact same type_codec h rfl
  | constant c =>
    obtain ⟨bs, happends, hreads⟩ := constant_codec.read h
    exact ⟨bs, _, happends, hreads.map fun _ => rfl, readsAs_constant c⟩

/-- Items that have been written are read back one after the other. -/
theorem mapM_take_reads {items : List Item} {out out' : Output}
    (h : items.forM put out = .ok () out') :
    ∃ (bs : Bytes) (values : List Item), out' = out ++ bs ∧
      Decoder.Reads ((items.map sort).mapM take) bs values ∧
      List.Forall₂ ReadsAs items values := by
  induction items generalizing out with
  | nil =>
    obtain ⟨-, rfl⟩ := pure_eq_ok.mp h
    exact ⟨[], [], out.append_nil.symm, fun rest => rfl, .nil⟩
  | cons i items ih =>
    obtain ⟨_, out₁, hi, hitems⟩ := bind_eq_ok.mp h
    obtain ⟨bs, back, happends, hreads, hback⟩ := take_reads_put hi
    obtain ⟨cs, values, hout, hrest, hvalues⟩ := ih hitems
    refine ⟨bs ++ cs, back :: values, ?_, ?_, .cons hback hvalues⟩
    · rw [hout, happends.eq hi, Output.append_append]
    · rw [List.map_cons, List.mapM_cons]
      exact hreads.then (hrest.map fun _ => rfl)

/-- **Primitive streams.** Items whose writes all succeed are read back by their sorts, to the last
byte. A text is refused exactly if it has more than 32766 units, and then nothing is written. A
character constant is refused exactly if it takes two units. Any writes, failing ones among them,
move the position by the number of bytes that they add, and so the position of an output that was
new is at all times the number of bytes written. -/
theorem streams_round_trip :
    (∀ (items : List Item) (out : Output), items.forM put {} = .ok () out →
      ∃ values, (items.map sort).mapM take out.toList = .ok values [] ∧
        List.Forall₂ ReadsAs items values) ∧
    (∀ (s : Option String) (out : Output),
      ((∃ e out', (string s).put out = .error e out') ↔
        ∃ text, s = some text ∧ 32766 < Text.unitCount text) ∧
      ∀ text, s = some text → 32766 < Text.unitCount text →
        (string s).put out = .error (.range (Text.unitCount text + 1)) out) ∧
    (∀ (c : Char) (out : Output),
      (∃ e out', (constant (.character c)).put out = .error e out') ↔ 0xFFFF < c.toNat) ∧
    (∀ (items : List Item) (out : Output), ∃ bs : Bytes,
      (putAll items out).toList = out.toList ++ bs ∧ bs.length = (items.map width).sum ∧
      (putAll items out).position = out.position + bs.length) ∧
    ∀ items : List Item, (putAll items {}).position = (putAll items {}).toList.length := by
  refine ⟨fun items out h => ?_, fun s out => ⟨Encoder.string_fails_iff s out, ?_⟩,
    Encoder.character_fails_iff, position_putAll, fun items => ?_⟩
  · obtain ⟨bs, values, rfl, hreads, hvalues⟩ := mapM_take_reads h
    refine ⟨values, ?_, hvalues⟩
    rw [Output.toList_append, ← List.append_nil bs]
    exact hreads []
  · rintro text rfl hlong
    exact Encoder.string_of_long hlong out
  · obtain ⟨bs, hbytes, -, hposition⟩ := position_putAll items {}
    rw [hposition, hbytes, List.length_append]
    rfl

/-- Items of all sorts, with an absent text beside an empty one, a character that takes two units
and an integer that does not fit. -/
def assorted : List Item :=
  [.byte 255, .short (-2), .string none, .string (some ""), .string (some "a𝄞"), .count 32767,
    .flag true, .kind .classDeclaration, .type (.ref (some "Point")), .constant (.integer 70000),
    .constant (.real 0x7FC00000), .constant (.text none)]

/-- The assorted items are read back, the integer as 4464, and a text of 32767 units is
refused. -/
theorem assorted_round_trip :
    (∃ out values, assorted.forM put {} = .ok () out ∧
      (assorted.map sort).mapM take out.toList = .ok values [] ∧
      List.Forall₂ ReadsAs assorted values ∧ values[9]? = some (.constant (.integer 4464)) ∧
      values.eraseIdx 9 = assorted.eraseIdx 9) ∧
    ∃ text, Text.unitCount text = 32767 ∧
      (string (some text)).put {} = .error (.range 32768) {} := by
  have hwritten : succeedsWith (assorted.forM put) {} (fun _ out =>
      succeedsWith ((assorted.map sort).mapM take) out.toList fun values _ =>
        values[9]? = some (.constant (.integer 4464)) &&
        values.eraseIdx 9 = assorted.eraseIdx 9) = true := by
    decide +kernel
  obtain ⟨_, out, hout, hread⟩ := exists_of_succeedsWith hwritten
  obtain ⟨values, _, hvalues, htest⟩ := exists_of_succeedsWith hread
  obtain ⟨values', hvalues', hback⟩ := streams_round_trip.1 assorted out hout
  obtain ⟨rfl, -⟩ : values' = values ∧ _ := by
    rw [hvalues'] at hvalues
    exact EStateM.Result.ok.inj hvalues
  rw [Bool.and_eq_true, decide_eq_true_eq, decide_eq_true_eq] at htest
  refine ⟨⟨out, values', hout, hvalues', hback, htest.1, htest.2⟩, ?_⟩
  obtain ⟨text, htext⟩ := Text.exists_unitCount 32767
  have hlong := (streams_round_trip.2.1 (some text) {}).2 text rfl (by rw [htext]; decide)
  rw [htext] at hlong
  exact ⟨text, htext, hlong⟩

end Item

end Simula
