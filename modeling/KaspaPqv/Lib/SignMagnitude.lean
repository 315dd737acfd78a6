import KaspaPqv.Lib.Bytes
import Mathlib.Data.Nat.Log
import Mathlib.Data.Int.Order.Basic

/-!
# Little-endian sign-magnitude numbers

The numbers of a Bitcoin-like script: the magnitude, least significant byte first,
with the top bit of the last byte as the sign. A number has one minimal encoding
(`encodeNum`), on as few bytes as leave the sign bit free, and may be laid out on
any larger width (`signMagnitude`). An operand of an arithmetic opcode must be the
minimal encoding of its value, on at most eight bytes (`decodeNum`).

## What is proved

* `numValue_signMagnitude` — a layout whose width leaves the sign bit free reads
  back as its value.
* `decodeNum_encodeNum` — every number below `2 ^ 63` in magnitude is a valid operand.
* `numValue_pad` — a zero byte on top turns any string into the number it spells,
  the sign bit being clear.
-/

namespace KaspaPqv.Lib

/-- How many bytes the minimal encoding of a magnitude takes, its sign bit included. -/
def numWidth (m : ℕ) : ℕ := if m = 0 then 0 else (m.log2 + 1) / 8 + 1

/-- The magnitude of `v` on `w` bytes, with the sign in the top bit. -/
def signMagnitude (w : ℕ) (v : ℤ) : Bytes :=
  leBytes w (v.natAbs + if v < 0 then 2 ^ (8 * w - 1) else 0)

/-- The minimal encoding of a number. Zero is the empty string. -/
def encodeNum (v : ℤ) : Bytes := signMagnitude (numWidth v.natAbs) v

/-- The number a string stands for, minimal or not. -/
def numValue (bs : Bytes) : ℤ :=
  if leNat bs < 2 ^ (8 * bs.length - 1) then leNat bs
  else -((leNat bs - 2 ^ (8 * bs.length - 1) : ℕ) : ℤ)

/-- A string read as an operand: the minimal encoding of a number, on at most eight bytes. -/
def decodeNum (bs : Bytes) : Option ℤ :=
  if bs.length ≤ 8 ∧ encodeNum (numValue bs) = bs then some (numValue bs) else none

theorem lt_two_pow_numWidth (m : ℕ) : m < 2 ^ (8 * numWidth m - 1) := by
  unfold numWidth
  split_ifs with h
  · simp [h]
  · calc m < 2 ^ (m.log2 + 1) := Nat.lt_log2_self
      _ ≤ 2 ^ (8 * ((m.log2 + 1) / 8 + 1) - 1) := Nat.pow_le_pow_right (by norm_num) (by omega)

theorem numWidth_le {m w : ℕ} (h : m < 2 ^ (8 * w - 1)) : numWidth m ≤ w := by
  unfold numWidth
  split_ifs with h0
  · exact Nat.zero_le _
  · have := (Nat.log2_lt h0).mpr h
    omega

theorem numWidth_pos {m : ℕ} (h : m ≠ 0) : 0 < numWidth m := by
  rw [numWidth, if_neg h]; omega

@[simp] theorem length_signMagnitude (w : ℕ) (v : ℤ) : (signMagnitude w v).length = w := by
  simp [signMagnitude]

theorem signMagnitude_natCast (w n : ℕ) : signMagnitude w n = leBytes w n := by
  rw [signMagnitude, if_neg (by omega), Int.natAbs_natCast, Nat.add_zero]

@[simp] theorem encodeNum_zero : encodeNum 0 = [] := rfl

@[simp] theorem encodeNum_one : encodeNum 1 = [1] := rfl

theorem two_pow_add_two_pow {w : ℕ} (hw : 0 < w) : 2 ^ (8 * w - 1) + 2 ^ (8 * w - 1) = 256 ^ w := by
  obtain ⟨w, rfl⟩ := Nat.exists_eq_succ_of_ne_zero hw.ne'
  rw [show (256 : ℕ) = 2 ^ 8 by norm_num, ← pow_mul, ← two_mul, ← pow_succ']
  congr 1

/-- **A layout reads back** when its width leaves the sign bit free. -/
theorem numValue_signMagnitude {w : ℕ} {v : ℤ} (hw : 0 < w ∨ v = 0)
    (h : v.natAbs < 2 ^ (8 * w - 1)) : numValue (signMagnitude w v) = v := by
  rcases Nat.eq_zero_or_pos w with rfl | hpos
  · obtain rfl : v = 0 := hw.resolve_left (lt_irrefl _)
    rfl
  have htop := two_pow_add_two_pow hpos
  rw [numValue, length_signMagnitude, signMagnitude, leNat_leBytes]
  rcases lt_or_ge v 0 with hneg | hnn
  · rw [if_pos hneg, Nat.mod_eq_of_lt (by omega), if_neg (by omega)]
    omega
  · rw [if_neg (not_lt.mpr hnn), Nat.add_zero, Nat.mod_eq_of_lt (by omega), if_pos h]
    omega

theorem numValue_encodeNum (v : ℤ) : numValue (encodeNum v) = v := by
  refine numValue_signMagnitude ?_ (lt_two_pow_numWidth _)
  rcases eq_or_ne v 0 with h | h
  · exact .inr h
  · exact .inl (numWidth_pos (by omega))

theorem encodeNum_injective : Function.Injective encodeNum := fun a b h => by
  rw [← numValue_encodeNum a, h, numValue_encodeNum]

theorem length_encodeNum_le {v : ℤ} (h : v.natAbs < 2 ^ 63) : (encodeNum v).length ≤ 8 := by
  rw [encodeNum, length_signMagnitude]
  exact numWidth_le h

/-- **Numbers are valid operands** as long as they fit eight bytes. -/
theorem decodeNum_encodeNum {v : ℤ} (h : v.natAbs < 2 ^ 63) : decodeNum (encodeNum v) = some v := by
  rw [decodeNum, numValue_encodeNum, if_pos ⟨length_encodeNum_le h, rfl⟩]

/-- A zero byte on top clears the sign bit. -/
theorem numValue_pad (bs : Bytes) : numValue (bs ++ [0]) = leNat bs := by
  have hspell : leNat (bs ++ [0]) = leNat bs := by simp [leNat_append, leNat]
  have hlength : (bs ++ [0]).length = bs.length + 1 := by simp
  have hbound : leNat bs < 2 ^ (8 * (bs.length + 1) - 1) := by
    calc leNat bs < 256 ^ bs.length := leNat_lt bs
      _ = 2 ^ (8 * bs.length) := by rw [pow_mul]; norm_num
      _ ≤ 2 ^ (8 * (bs.length + 1) - 1) := Nat.pow_le_pow_right (by norm_num) (by omega)
  rw [numValue, hspell, hlength, if_pos hbound]

end KaspaPqv.Lib
