/-!
# Bytes of natural numbers

Numbers of more than one byte are stored with the most significant byte first.

Writing a number in a given width keeps its remainder modulo the number of values of that
width; reading folds the bytes back, so reading what was written gives that remainder.
-/

namespace Simula

/-- A byte string. -/
abbrev Bytes := List UInt8

namespace Bytes

/-- The number of values that fit in `width` bytes. -/
def capacity : Nat → Nat
  | 0 => 1
  | width + 1 => capacity width * 256

/-- The lowest `width` bytes of a number, most significant first. -/
def ofNat : Nat → Nat → Bytes
  | 0, _ => []
  | width + 1, n => UInt8.ofNat (n / capacity width) :: ofNat width n

/-- The number that a byte string stands for, most significant byte first. -/
def toNat (bytes : Bytes) : Nat :=
  bytes.foldl (fun n b => n * 256 + b.toNat) 0

/-- Writing in a given width produces that many bytes. -/
@[simp] theorem length_ofNat (width n : Nat) : (ofNat width n).length = width := by
  induction width with
  | zero => rfl
  | succ width ih => rw [ofNat, List.length_cons, ih]

/-- Folding bytes onto a number shifts it by their count. -/
theorem foldl_eq (bytes : Bytes) (n : Nat) :
    bytes.foldl (fun n b => n * 256 + b.toNat) n = n * capacity bytes.length + toNat bytes := by
  induction bytes generalizing n with
  | nil => simp [toNat, capacity]
  | cons b rest ih =>
    have h : toNat (b :: rest) = b.toNat * capacity rest.length + toNat rest := by
      rw [toNat, List.foldl_cons, ih, Nat.zero_mul, Nat.zero_add]
    rw [List.foldl_cons, ih, h, List.length_cons, capacity, Nat.add_mul, Nat.mul_assoc,
      Nat.mul_comm 256, Nat.add_assoc]

/-- Reading a written number gives its remainder modulo the capacity of the width. -/
theorem toNat_ofNat (width n : Nat) : toNat (ofNat width n) = n % capacity width := by
  induction width with
  | zero => rw [capacity, Nat.mod_one]; rfl
  | succ width ih =>
    have h : toNat (ofNat (width + 1) n) =
        n / capacity width % 256 * capacity width + toNat (ofNat width n) := by
      rw [ofNat, toNat, List.foldl_cons, foldl_eq, length_ofNat, Nat.zero_mul, Nat.zero_add]
      rfl
    rw [h, ih, capacity, Nat.mod_mul, Nat.mul_comm, Nat.add_comm]

end Bytes

end Simula
