import KaspaPqv.Lib.ChecksumCode
import KaspaPqv.LmsScript.Verify

/-!
# The code that one-time keys sign

The coefficients of a message digest and those of its checksum, as one code (`checksummed`):
the checksum is shifted to the front of its two bytes, where the last chains read it. No digest
has a code that is everywhere at most another one's.

## What is proved

* `coef_eq_bitField` — a coefficient is a field of the string.
* `coef_coefficientSource` — the coefficients are those of a code with a checksum.
* `coefficientSource_dominationFree` — of two digests each has a coefficient below the other's.
-/

namespace KaspaPqv.LmsScript

open KaspaPqv.Lib

/-- What the constants have in common, whatever the depth. -/
structure LmsParams.Sizes (P : LmsParams) : Prop where
  w_dvd : P.w ∣ 8
  w_pos : 0 < P.w
  u_mul : P.u * P.w = 8 * 32
  p_eq : P.p = P.u + P.v
  ls_eq : P.v * P.w + P.ls = 16
  checksum_lt : P.u * P.maxCoef < 2 ^ (P.v * P.w)

theorem LmsParams.sizes : ∀ P ∈ LmsParams.constants, P.Sizes := fun P hP =>
  have ⟨h₁, h₂, h₃, h₄, h₅, h₆⟩ : P.w ∣ 8 ∧ 0 < P.w ∧ P.u * P.w = 8 * 32 ∧ P.p = P.u + P.v ∧ P.v * P.w + P.ls = 16 ∧
      P.u * P.maxCoef < 2 ^ (P.v * P.w) :=
    (by decide : ∀ P ∈ LmsParams.constants, P.w ∣ 8 ∧ 0 < P.w ∧ P.u * P.w = 8 * 32 ∧ P.p = P.u + P.v ∧
      P.v * P.w + P.ls = 16 ∧ P.u * P.maxCoef < 2 ^ (P.v * P.w)) P hP
  ⟨h₁, h₂, h₃, h₄, h₅, h₆⟩

/-- **A coefficient is a field of the string.** -/
theorem coef_eq_bitField {s : Bytes} {i w : ℕ} (hw : w ∣ 8) (hi : i * w / 8 < s.length) :
    coef s i w = bitField s (w * i) w := by
  set k := i * w / 8 with hk
  have hfit : i * w % 8 + w ≤ 8 := by
    obtain ⟨c, hc⟩ := hw
    have hpos : 0 < c := Nat.pos_of_ne_zero fun h => by simp [h] at hc
    have hmod : i * w % 8 = w * (i % c) := by rw [hc, Nat.mul_comm i, Nat.mul_mod_mul_left]
    rw [hmod, ← Nat.mul_succ]
    conv_rhs => rw [hc]
    exact Nat.mul_le_mul_left w (Nat.mod_lt i hpos)
  have hbyte : bitField s (8 * k) 8 = (s.getD k 0).toNat := by
    have hfield := beNat_slice (Nat.le_succ k) hi
    rw [Nat.succ_sub (le_refl k), Nat.sub_self, slice_succ hi, beNat_singleton] at hfield
    rw [List.getD_eq_getElem?_getD, List.getElem?_eq_getElem hi]
    exact hfield.symm
  have hstart : 8 * k + i * w % 8 = w * i := by rw [Nat.mul_comm w, hk, Nat.div_add_mod]
  have hsub := bitField_sub hfit (show 8 * k + 8 ≤ 8 * s.length by omega)
  rw [hstart, hbyte] at hsub
  rw [coef_eq, ← hk, ← hsub]
  congr 3
  omega

theorem coef_lt (s : Bytes) (i w : ℕ) : coef s i w < 2 ^ w := by
  have := coef_le s i w
  have := Nat.two_pow_pos w
  omega

variable {P : LmsParams}

theorem checksumSum_eq_lack (P : LmsParams) (Q : Bytes) (k : ℕ) :
    checksumSum P Q k = lack (2 ^ P.w) k fun i => coef Q i P.w := by
  induction k with
  | zero => rfl
  | succ k ih => rw [checksumSum_succ, lack_succ, ih, LmsParams.maxCoef]

/-- **The shifted checksum loses no bits** of its two bytes. -/
theorem checksumSum_shift_lt (hP : P.Sizes) (Q : Bytes) : checksumSum P Q P.u * 2 ^ P.ls < 2 ^ 16 := by
  have hlt := (checksumSum_le Q P.u).trans_lt hP.checksum_lt
  calc checksumSum P Q P.u * 2 ^ P.ls < 2 ^ (P.v * P.w) * 2 ^ P.ls :=
        Nat.mul_lt_mul_of_pos_right hlt (Nat.two_pow_pos _)
    _ = 2 ^ 16 := by rw [← pow_add, hP.ls_eq]

theorem cksm_eq_shift (hP : P.Sizes) (Q : Bytes) : cksm Q P = checksumSum P Q P.u * 2 ^ P.ls := by
  rw [cksm, Nat.shiftLeft_eq]
  exact Nat.mod_eq_of_lt (checksumSum_shift_lt hP Q)

/-- Every chain reads within the string. -/
theorem index_lt_length (hP : P.Sizes) (Q : Block 32) {i : ℕ} (hi : i < P.p) :
    i * P.w / 8 < (coefficientSource Q P).length := by
  have hbits : P.p * P.w ≤ 8 * 34 := by
    have := hP.ls_eq
    rw [hP.p_eq, Nat.add_mul, hP.u_mul]
    omega
  have := Nat.mul_lt_mul_of_pos_right hi hP.w_pos
  simp only [coefficientSource, List.length_append, Block.length_bytes, length_beBytes]
  omega

/-- The last chains read the digits of the checksum. -/
theorem coef_checksum (hP : P.Sizes) (Q : Block 32) {j : ℕ} (hj : j < P.v) :
    bitField (beBytes 2 (cksm Q.bytes P)) (P.w * j) P.w =
      digitAt (2 ^ P.w) P.v (checksumSum P Q.bytes P.u) j := by
  have hexp : 8 * 2 - (P.w * j + P.w) = P.ls + P.w * (P.v - (j + 1)) := by
    have hls := hP.ls_eq
    have hfit : P.w * (j + 1) ≤ P.w * P.v := Nat.mul_le_mul_left _ hj
    rw [Nat.mul_comm P.v] at hls
    have hnext : P.w * (j + 1) = P.w * j + P.w := Nat.mul_succ P.w j
    rw [← hnext, Nat.mul_sub]
    omega
  have hlt : checksumSum P Q.bytes P.u * 2 ^ P.ls < 256 ^ 2 := checksumSum_shift_lt hP Q.bytes
  rw [bitField, digitAt, length_beBytes, beNat_beBytes, cksm_eq_shift hP, Nat.mod_eq_of_lt hlt, hexp, pow_add,
    ← Nat.div_div_eq_div_mul, Nat.mul_div_cancel _ (Nat.two_pow_pos _), pow_mul]

/-- **The coefficients are those of a code with a checksum.** -/
theorem coef_coefficientSource (hP : P.Sizes) (Q : Block 32) {i : ℕ} (hi : i < P.p) :
    coef (coefficientSource Q P) i P.w = checksummed (2 ^ P.w) P.u P.v (fun i => coef Q.bytes i P.w) i := by
  have hu := hP.u_mul
  rw [coef_eq_bitField hP.w_dvd (index_lt_length hP Q hi), coefficientSource, checksummed]
  split_ifs with hlt
  · have hbits := Nat.mul_le_mul_left P.w (Nat.succ_le_of_lt hlt)
    rw [Nat.mul_succ, Nat.mul_comm P.w P.u, hu] at hbits
    have hindex : i * P.w / 8 < Q.bytes.length := by
      have := hP.w_pos
      rw [Block.length_bytes, Nat.mul_comm]
      omega
    rw [bitField_append_left (by rw [Block.length_bytes]; exact hbits), coef_eq_bitField hP.w_dvd hindex]
  · have hj : i - P.u < P.v := by
      have := hP.p_eq
      omega
    have hstart : P.w * i - 8 * Q.bytes.length = P.w * (i - P.u) := by
      rw [Block.length_bytes, Nat.mul_sub, Nat.mul_comm P.w P.u, hu]
    have hfirst : 8 * Q.bytes.length ≤ P.w * i := by
      rw [Block.length_bytes, ← hu, Nat.mul_comm]
      exact Nat.mul_le_mul_left _ (Nat.le_of_not_lt hlt)
    have hlast : P.w * i + P.w ≤ 8 * (Q.bytes.length + (beBytes 2 (cksm Q.bytes P)).length) := by
      have hle := Nat.mul_le_mul_left P.w (Nat.succ_le_of_lt hi)
      have hls := hP.ls_eq
      rw [hP.p_eq, Nat.mul_succ, Nat.mul_add, Nat.mul_comm P.w P.u, hu, Nat.mul_comm P.w P.v] at hle
      rw [Block.length_bytes, length_beBytes]
      omega
    rw [bitField_append_right hfirst hlast, hstart, coef_checksum hP Q hj, checksumSum_eq_lack]

/-- A digest is told by its coefficients. -/
theorem eq_of_coef_eq (hP : P.Sizes) {Q Q' : Block 32} (h : ∀ i < P.u, coef Q.bytes i P.w = coef Q'.bytes i P.w) :
    Q = Q' := by
  have hbits : P.w * P.u = 8 * Q'.bytes.length := by rw [Block.length_bytes, Nat.mul_comm, hP.u_mul]
  refine Block.ext (eq_of_bitField_eq (by simp) hbits fun i hi => ?_)
  have hindex (R : Block 32) : i * P.w / 8 < R.bytes.length := by
    have := Nat.mul_lt_mul_of_pos_right hi hP.w_pos
    have := hP.u_mul
    rw [Block.length_bytes]
    omega
  rw [← coef_eq_bitField hP.w_dvd (hindex Q), ← coef_eq_bitField hP.w_dvd (hindex Q')]
  exact h i hi

/-- **No encoding dominates another**: of two digests, the second one has a coefficient below
the first one's; and every chain reads within the string. -/
theorem coefficientSource_dominationFree (hP : P ∈ LmsParams.constants) {Q Q' : Block 32} (hne : Q ≠ Q') :
    (∀ i < P.p, i * P.w / 8 < (coefficientSource Q P).length ∧ i * P.w / 8 < (coefficientSource Q' P).length) ∧
      ∃ i < P.p, coef (coefficientSource Q' P) i P.w < coef (coefficientSource Q P) i P.w := by
  have hsizes := LmsParams.sizes P hP
  refine ⟨fun i hi => ⟨index_lt_length hsizes Q hi, index_lt_length hsizes Q' hi⟩, ?_⟩
  have hdiffer : ∃ i < P.u, coef Q.bytes i P.w ≠ coef Q'.bytes i P.w := by
    by_contra hall
    push Not at hall
    exact hne (eq_of_coef_eq hsizes hall)
  have hlack : lack (2 ^ P.w) P.u (fun i => coef Q.bytes i P.w) < (2 ^ P.w) ^ P.v := by
    rw [← checksumSum_eq_lack, ← pow_mul, Nat.mul_comm]
    exact (checksumSum_le Q.bytes P.u).trans_lt hsizes.checksum_lt
  obtain ⟨i, hi, hlt⟩ := exists_checksummed_lt (fun i _ => coef_lt Q'.bytes i P.w) hlack hdiffer
  rw [← hsizes.p_eq] at hi
  rw [← coef_coefficientSource hsizes Q hi, ← coef_coefficientSource hsizes Q' hi] at hlt
  exact ⟨i, hi, hlt⟩

theorem coefficientSource_dominationFree_ones :
    (∀ i < LmsParams.sha256H5W1.p,
      i * LmsParams.sha256H5W1.w / 8 < (coefficientSource (.zero 32) .sha256H5W1).length ∧
      i * LmsParams.sha256H5W1.w / 8 <
        (coefficientSource (.ofBytes (List.replicate 32 1) List.length_replicate) .sha256H5W1).length) ∧
      ∃ i < LmsParams.sha256H5W1.p,
        coef (coefficientSource (.ofBytes (List.replicate 32 1) List.length_replicate) .sha256H5W1) i LmsParams.sha256H5W1.w <
          coef (coefficientSource (.zero 32) .sha256H5W1) i LmsParams.sha256H5W1.w :=
  coefficientSource_dominationFree (by decide) fun h => absurd (congrArg Block.bytes h) (by decide)

end KaspaPqv.LmsScript
