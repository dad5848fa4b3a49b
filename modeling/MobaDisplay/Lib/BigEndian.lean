import MobaDisplay.Lib.CxxString

/-!
# Numbers as bytes, the most significant one first

`bigEndian n v` writes the last `n` bytes of a number, `ofBigEndian` reads a number of
any width. What was written is read back where it fits into the width.
-/

namespace BigEndian

open Cxx (Bytes)

/-- The `n` lowest bytes of `v`, from the highest to the lowest. -/
def bigEndian : Nat → Nat → Bytes
  | 0, _ => []
  | c + 1, v => UInt8.ofNat ((v >>> (8 * c)) % 256) :: bigEndian c v

/-- Each byte, shifted by eight for every byte after it. -/
def ofBigEndian : Bytes → Nat
  | [] => 0
  | b :: bs => (b.toNat <<< (8 * bs.length)) + ofBigEndian bs

@[simp] theorem length_bigEndian (n v : Nat) : (bigEndian n v).length = n := by
  induction n with
  | zero => rfl
  | succ c ih => rw [bigEndian, List.length_cons, ih]

theorem two_pow_eight_mul (c : Nat) : 2 ^ (8 * c) = 256 ^ c := by
  rw [Nat.pow_mul]

theorem ofBigEndian_cons (b : UInt8) (bs : Bytes) :
    ofBigEndian (b :: bs) = b.toNat * 256 ^ bs.length + ofBigEndian bs := by
  rw [ofBigEndian, Nat.shiftLeft_eq, two_pow_eight_mul]

/-- A number of `n` bytes is below `256 ^ n`. -/
theorem ofBigEndian_lt (bs : Bytes) : ofBigEndian bs < 256 ^ bs.length := by
  induction bs with
  | nil => simp [ofBigEndian]
  | cons b bs ih =>
      have hb : b.toNat < 256 := b.toNat_lt
      rw [ofBigEndian_cons, List.length_cons, Nat.pow_succ]
      nlinarith

/-- **Writing and reading** leaves what fits. -/
theorem ofBigEndian_bigEndian (n v : Nat) : ofBigEndian (bigEndian n v) = v % 256 ^ n := by
  induction n with
  | zero => simp [bigEndian, ofBigEndian, Nat.mod_one]
  | succ c ih =>
      have hbyte : (UInt8.ofNat ((v >>> (8 * c)) % 256)).toNat = v / 256 ^ c % 256 := by
        rw [UInt8.toNat_ofNat', Nat.shiftRight_eq_div_pow, two_pow_eight_mul]
        omega
      rw [bigEndian, ofBigEndian_cons, ih, length_bigEndian, hbyte, Nat.pow_succ, Nat.mod_mul]
      ring

theorem ofBigEndian_bigEndian_of_lt {n v : Nat} (h : v < 256 ^ n) :
    ofBigEndian (bigEndian n v) = v := by
  rw [ofBigEndian_bigEndian, Nat.mod_eq_of_lt h]

end BigEndian
