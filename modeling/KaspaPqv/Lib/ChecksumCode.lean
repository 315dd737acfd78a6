import KaspaPqv.Lib.BitField
import Mathlib.Algebra.Order.BigOperators.Group.Finset

/-!
# Digits with a checksum

A message cut into digits, and behind them the digits of a checksum: the sum of what each
digit lacks to the largest one. Raising a digit lowers the checksum, so no encoding is at
every position at most another one's. That is what a one-time signature by hash chains rests
on, as anybody may go forward along a chain, and nobody back.

## What is proved

* `le_of_digitAt_le` — numbers compare as their digits do, if these all compare alike.
* `eq_of_checksummed_le`, `exists_checksummed_lt` — **no encoding dominates another**.
* `eq_of_bitField_eq` — a string is told by the digits it is cut into.
-/

namespace KaspaPqv.Lib

/-- The `j`-th of `v` digits of a number, the most significant one first. -/
def digitAt (b v x j : ℕ) : ℕ := x / b ^ (v - (j + 1)) % b

/-- A number that is everywhere at most another one, is at most the other one. -/
theorem le_of_digitAt_le {b v x y : ℕ} (hx : x < b ^ v) (h : ∀ j < v, digitAt b v x j ≤ digitAt b v y j) : x ≤ y := by
  induction v generalizing x y with
  | zero =>
    rw [pow_zero] at hx
    omega
  | succ v ih =>
    have hrest : x / b ≤ y / b := by
      apply ih
      · rw [pow_succ, Nat.mul_comm] at hx
        exact Nat.div_lt_of_lt_mul hx
      · intro j hj
        have hdigit (z : ℕ) : digitAt b (v + 1) z j = digitAt b v (z / b) j := by
          rw [digitAt, digitAt, Nat.div_div_eq_div_mul, ← pow_succ', show v + 1 - (j + 1) = v - (j + 1) + 1 by omega]
        have hle := h j (by omega)
        rwa [hdigit, hdigit] at hle
    have hlast : x % b ≤ y % b := by simpa [digitAt] using h v v.lt_succ_self
    calc x = b * (x / b) + x % b := (Nat.div_add_mod x b).symm
      _ ≤ b * (y / b) + y % b := Nat.add_le_add (Nat.mul_le_mul_left b hrest) hlast
      _ = y := Nat.div_add_mod y b

theorem eq_of_digitAt_eq {b v x y : ℕ} (hx : x < b ^ v) (hy : y < b ^ v)
    (h : ∀ j < v, digitAt b v x j = digitAt b v y j) : x = y :=
  Nat.le_antisymm (le_of_digitAt_le hx fun j hj => (h j hj).le) (le_of_digitAt_le hy fun j hj => (h j hj).ge)

/-! ### The checksum -/

section checksum

variable {b n v : ℕ} {d d' : ℕ → ℕ}

/-- What the first `n` digits lack to the largest one. -/
def lack (b n : ℕ) (d : ℕ → ℕ) : ℕ := ∑ i ∈ Finset.range n, (b - 1 - d i)

theorem lack_succ (b n : ℕ) (d : ℕ → ℕ) : lack b (n + 1) d = lack b n d + (b - 1 - d n) := Finset.sum_range_succ _ _

/-- A digit that is not zero lacks less than zero does. -/
theorem lack_lt {i : ℕ} (hi : i < n) (hd : d i < b) (hpos : 0 < d i) : lack b n d < n * (b - 1) := by
  have hlt : lack b n d < ∑ _i ∈ Finset.range n, (b - 1) :=
    Finset.sum_lt_sum (fun _ _ => Nat.sub_le _ _) ⟨i, Finset.mem_range.mpr hi, by omega⟩
  simpa using hlt

theorem lack_of_zero (h : ∀ i < n, d i = 0) : lack b n d = n * (b - 1) := by
  have hsum : lack b n d = ∑ _i ∈ Finset.range n, (b - 1) :=
    Finset.sum_congr rfl fun i hi => by rw [h i (Finset.mem_range.mp hi), Nat.sub_zero]
  simpa using hsum

/-- The digits of a message and those of its checksum. -/
def checksummed (b n v : ℕ) (d : ℕ → ℕ) (i : ℕ) : ℕ := if i < n then d i else digitAt b v (lack b n d) (i - n)

/-- **Larger digits lack less.** -/
theorem eq_of_lack_le (hd' : ∀ i < n, d' i < b) (hle : ∀ i < n, d i ≤ d' i) (hlack : lack b n d ≤ lack b n d') :
    ∀ i < n, d i = d' i := by
  intro i hi
  by_contra hne
  have hlt : lack b n d' < lack b n d := by
    apply Finset.sum_lt_sum
    · intro j hj
      exact Nat.sub_le_sub_left (hle j (Finset.mem_range.mp hj)) (b - 1)
    · have := hle i hi
      have := hd' i hi
      exact ⟨i, Finset.mem_range.mpr hi, by omega⟩
  omega

/-- **No encoding dominates another one**: one that is everywhere at most another is of the same
message. -/
theorem eq_of_checksummed_le (hd' : ∀ i < n, d' i < b) (hlack : lack b n d < b ^ v)
    (hle : ∀ i < n + v, checksummed b n v d i ≤ checksummed b n v d' i) : ∀ i < n, d i = d' i := by
  have hmessage : ∀ i < n, d i ≤ d' i := by
    intro i hi
    have h := hle i (by omega)
    rwa [checksummed, checksummed, if_pos hi, if_pos hi] at h
  apply eq_of_lack_le hd' hmessage
  apply le_of_digitAt_le hlack
  intro j hj
  have h := hle (n + j) (by omega)
  rwa [checksummed, checksummed, if_neg (by omega), if_neg (by omega), Nat.add_sub_cancel_left] at h

theorem exists_checksummed_lt (hd' : ∀ i < n, d' i < b) (hlack : lack b n d < b ^ v) (hne : ∃ i < n, d i ≠ d' i) :
    ∃ i < n + v, checksummed b n v d' i < checksummed b n v d i := by
  by_contra hall
  obtain ⟨i, hi, hdiff⟩ := hne
  refine hdiff (eq_of_checksummed_le hd' hlack (fun j hj => ?_) i hi)
  exact Nat.le_of_not_lt fun hlt => hall ⟨j, hj, hlt⟩

end checksum

/-! ### Strings cut into digits -/

/-- A string cut into fields of `w` bits is a number written in digits. -/
theorem bitField_eq_digitAt {bs : Bytes} {w n : ℕ} (h : w * n = 8 * bs.length) (i : ℕ) :
    bitField bs (w * i) w = digitAt (2 ^ w) n (beNat bs) i := by
  rw [bitField, digitAt, ← pow_mul, Nat.mul_sub, Nat.mul_succ, h]

/-- **A string is told by its digits.** -/
theorem eq_of_bitField_eq {as bs : Bytes} (hlen : as.length = bs.length) {w n : ℕ} (h : w * n = 8 * bs.length)
    (heq : ∀ i < n, bitField as (w * i) w = bitField bs (w * i) w) : as = bs := by
  have hlt {cs : Bytes} (hcs : cs.length = bs.length) : beNat cs < (2 ^ w) ^ n := by
    rw [← pow_mul, h, ← hcs]
    exact beNat_lt_two_pow cs
  have hvalue : beNat as = beNat bs := by
    refine eq_of_digitAt_eq (hlt hlen) (hlt rfl) fun i hi => ?_
    rw [← bitField_eq_digitAt (hlen ▸ h), ← bitField_eq_digitAt h]
    exact heq i hi
  rw [← beBytes_beNat as, ← beBytes_beNat bs, hlen, hvalue]

end KaspaPqv.Lib
