import KaspaPqv.LmsScript.OtsCode
import KaspaPqv.LmsScript.Pinned

/-!
# The checksum in script

The opcodes that append the checksum lay it out on two bytes, little-endian and with a sign,
and turn these over. That takes a checksum below `2 ^ 15`. At a depth of `1` there is one
digest whose checksum is `2 ^ 15`: the one of all zeros, of which every coefficient lacks one.

## What is proved

* `emitChecksumAndV_iff` — when the opcodes leave the string the coefficients are read from.
* `checksumAndV_coefficients` — for the constants: always, but for that digest at that depth.
-/

namespace KaspaPqv.LmsScript

open KaspaPqv.Lib KaspaPqv.Script

variable {env : Env} {P : LmsParams} {d alt : List Bytes}

theorem LmsParams.Sizes.coversDigest (hP : P.Sizes) : P.CoversDigest where
  w_dvd := hP.w_dvd
  w_pos := hP.w_pos
  u_mul := hP.u_mul
  u_le := by rw [hP.p_eq]; exact Nat.le_add_right _ _
  maxCoef_lt := by
    have hw : 2 ^ P.w ≤ 2 ^ 8 := Nat.pow_le_pow_right (by norm_num) (Nat.le_of_dvd (by norm_num) hP.w_dvd)
    rw [LmsParams.maxCoef]
    omega

/-- A checksum that needs the sign bit aborts the script. -/
theorem aborts_emitChecksumAndV {σ : Type} (hP : P.Sizes) (Q : Block 32)
    (hge : ¬checksumSum P Q.bytes P.u * 2 ^ P.ls < 2 ^ 15) :
    Aborts env (emitChecksumAndV P : Gen σ Instr String Unit) ⟨Q.bytes :: d, alt⟩ := by
  have hls : P.ls ≤ 16 := by
    have := hP.ls_eq
    omega
  have hpow : 2 ^ P.ls < 2 ^ 63 := Nat.pow_lt_pow_right (by norm_num) (hls.trans_lt (by norm_num))
  have hsum := checksumSum_lt hP.coversDigest Q.bytes le_rfl
  have hshift := checksumSum_shift_lt hP Q.bytes
  exact .after (.num 0) <| .after (.op rfl) <| .after (runs_emitChecksumTerms hP.coversDigest Q) <| .after (.op rfl) <|
    .after (.num (2 ^ P.ls)) <| .after (.op (exec_mul (by omega) hpow (by omega))) <| .after (.num 2) <|
    .seq (.op (by decide) (exec_num2Bin_eq_none (by norm_num) hge)) fun g => ⟨g, _, rfl⟩

/-- **When the opcodes complete**: they do if and only if the sign bit is free. -/
theorem emitChecksumAndV_iff (hP : P.Sizes) (env : Env) (Q : Block 32) (d alt : List Bytes) :
    (∃ is, (emitChecksumAndV P : Gen Unit Instr String Unit).code () = .ok is ∧
      run env is ⟨⟨Q.bytes :: d, alt⟩, []⟩ = some ⟨⟨coefficientSource Q P :: d, alt⟩, []⟩) ↔
      checksumSum P Q.bytes P.u * 2 ^ P.ls < 2 ^ 15 := by
  constructor
  · rintro ⟨is, hcode, hrun⟩
    by_contra hge
    have haborts : Aborts env (emitChecksumAndV P : Gen Unit Instr String Unit) ⟨Q.bytes :: d, alt⟩ :=
      aborts_emitChecksumAndV hP Q hge
    obtain ⟨g', is', hgen, habort⟩ := haborts () [] rfl
    obtain ⟨⟨⟩, g, hgen'⟩ := Gen.code_eq_ok.mp hcode
    rw [hgen] at hgen'
    cases hgen'
    rw [habort] at hrun
    cases hrun
  · intro hlt
    have hls : P.ls ≤ 16 := by
      have := hP.ls_eq
      omega
    have hruns : Runs env (emitChecksumAndV P : Gen Unit Instr String Unit) ⟨Q.bytes :: d, alt⟩ _ :=
      runs_emitChecksumAndV hP.coversDigest hls Q hlt
    obtain ⟨is, hgen, hrun⟩ := hruns.code () (c := []) rfl
    exact ⟨is, Gen.code_eq_ok.mpr ⟨(), (), hgen⟩, hrun⟩

/-- Reading a coefficient of the string. -/
theorem code_emitCoefficient (hP : P.Sizes) (env : Env) (Q : Block 32) (d alt : List Bytes) {i : ℕ} (hi : i < P.p) :
    ∃ is, (emitCoefficient P i : Gen Unit Instr String Unit).code () = .ok is ∧
      run env is ⟨⟨coefficientSource Q P :: d, alt⟩, []⟩ =
        some ⟨⟨encodeNum (coef (coefficientSource Q P) i P.w) :: coefficientSource Q P :: d, alt⟩, []⟩ := by
  have hlen : (coefficientSource Q P).length < 2 ^ 62 := by simp [coefficientSource]
  have hruns : Runs env (emitCoefficient P i : Gen Unit Instr String Unit) ⟨coefficientSource Q P :: d, alt⟩ _ :=
    runs_emitCoefficient (Nat.le_of_dvd (by norm_num) hP.w_dvd) hi (index_lt_length hP Q hi) hlen
  obtain ⟨is, hgen, hrun⟩ := hruns.code () (c := []) rfl
  exact ⟨is, Gen.code_eq_ok.mpr ⟨(), (), hgen⟩, hrun⟩

/-! ### The constants -/

theorem coef_zeros (n i w : ℕ) : coef (zeros n) i w = 0 := by
  have hbyte : (zeros n).getD (i * w / 8) 0 = 0 := by simp [zeros]
  rw [coef_eq, hbyte]
  simp

/-- **When the sign bit is free**: always, but for the digest of all zeros at a depth of `1`. -/
theorem checksumSum_lt_iff (hP : P ∈ LmsParams.constants) (Q : Block 32) :
    checksumSum P Q.bytes P.u * 2 ^ P.ls < 2 ^ 15 ↔ (P.w = 1 → Q ≠ Block.zero 32) := by
  by_cases hw : P.w = 1
  · obtain rfl : P = .sha256H5W1 := (by decide : ∀ P ∈ LmsParams.constants, P.w = 1 → P = .sha256H5W1) P hP hw
    rw [checksumSum_eq_lack]
    constructor
    · rintro hlt - rfl
      have hmost : lack (2 ^ LmsParams.sha256H5W1.w) LmsParams.sha256H5W1.u
          (fun i => coef (Block.zero 32).bytes i LmsParams.sha256H5W1.w) = 256 :=
        lack_of_zero fun i _ => coef_zeros 32 i _
      rw [hmost] at hlt
      exact absurd hlt (by decide)
    · intro hne
      have hdigit : ∃ i < LmsParams.sha256H5W1.u, 0 < coef Q.bytes i LmsParams.sha256H5W1.w := by
        by_contra hall
        push Not at hall
        refine hne hw (eq_of_coef_eq (LmsParams.sizes _ hP) fun i hi => ?_)
        exact (Nat.le_zero.mp (hall i hi)).trans (coef_zeros 32 i _).symm
      obtain ⟨i, hi, hpos⟩ := hdigit
      have hless : lack (2 ^ LmsParams.sha256H5W1.w) LmsParams.sha256H5W1.u
          (fun i => coef Q.bytes i LmsParams.sha256H5W1.w) < 256 :=
        lack_lt hi (coef_lt Q.bytes i _) hpos
      exact Nat.mul_lt_mul_of_pos_right hless (Nat.two_pow_pos 7)
  · have hbound := (by decide : ∀ P ∈ LmsParams.constants, P.w ≠ 1 → P.u * P.maxCoef * 2 ^ P.ls < 2 ^ 15) P hP hw
    have hle := Nat.mul_le_mul_right (2 ^ P.ls) (checksumSum_le (P := P) Q.bytes P.u)
    exact ⟨fun _ h => absurd h hw, fun _ => hle.trans_lt hbound⟩

/-- **The checksum in script**, for every constant and every digest: the opcodes leave the string
that the coefficients are read from, and each coefficient is read from it, unless the depth is
`1` and the digest all zeros. -/
theorem checksumAndV_coefficients (hP : P ∈ LmsParams.constants) (env : Env) (Q : Block 32) (d alt : List Bytes) :
    ((∃ is, (emitChecksumAndV P : Gen Unit Instr String Unit).code () = .ok is ∧
        run env is ⟨⟨Q.bytes :: d, alt⟩, []⟩ = some ⟨⟨coefficientSource Q P :: d, alt⟩, []⟩) ∧
      ∀ i < P.p, ∃ is, (emitCoefficient P i : Gen Unit Instr String Unit).code () = .ok is ∧
        run env is ⟨⟨coefficientSource Q P :: d, alt⟩, []⟩ =
          some ⟨⟨encodeNum (coef (coefficientSource Q P) i P.w) :: coefficientSource Q P :: d, alt⟩, []⟩) ↔
      (P.w = 1 → Q ≠ Block.zero 32) := by
  have hsizes := LmsParams.sizes P hP
  rw [emitChecksumAndV_iff hsizes, ← checksumSum_lt_iff hP]
  exact ⟨And.left, fun hlt => ⟨hlt, fun i hi => code_emitCoefficient hsizes env Q d alt hi⟩⟩

theorem checksumAndV_coefficients_ones :
    ((∃ is, (emitChecksumAndV .sha256H5W1 : Gen Unit Instr String Unit).code () = .ok is ∧
        run ⟨fun _ => .zero 32, none⟩ is ⟨⟨[List.replicate 32 1], []⟩, []⟩ =
          some ⟨⟨[coefficientSource (.ofBytes (List.replicate 32 1) List.length_replicate) .sha256H5W1], []⟩, []⟩) ∧
      ∀ i < LmsParams.sha256H5W1.p, ∃ is,
        (emitCoefficient .sha256H5W1 i : Gen Unit Instr String Unit).code () = .ok is ∧
        run ⟨fun _ => .zero 32, none⟩ is
            ⟨⟨[coefficientSource (.ofBytes (List.replicate 32 1) List.length_replicate) .sha256H5W1], []⟩, []⟩ =
          some ⟨⟨[encodeNum (coef (coefficientSource (.ofBytes (List.replicate 32 1) List.length_replicate) .sha256H5W1) i
              LmsParams.sha256H5W1.w),
            coefficientSource (.ofBytes (List.replicate 32 1) List.length_replicate) .sha256H5W1], []⟩, []⟩) ↔
      (LmsParams.sha256H5W1.w = 1 →
        Block.ofBytes (List.replicate 32 1) List.length_replicate ≠ Block.zero 32) :=
  checksumAndV_coefficients (by decide) ⟨fun _ => .zero 32, none⟩
    (.ofBytes (List.replicate 32 1) List.length_replicate) [] []

/-- **Not for every digest**: at a depth of `1` the digest of all zeros aborts the script. -/
theorem not_checksumAndV_coefficients :
    ¬∀ P ∈ LmsParams.constants, ∀ (env : Env) (Q : Block 32) (d alt : List Bytes),
      (∃ is, (emitChecksumAndV P : Gen Unit Instr String Unit).code () = .ok is ∧
        run env is ⟨⟨Q.bytes :: d, alt⟩, []⟩ = some ⟨⟨coefficientSource Q P :: d, alt⟩, []⟩) ∧
      ∀ i < P.p, ∃ is, (emitCoefficient P i : Gen Unit Instr String Unit).code () = .ok is ∧
        run env is ⟨⟨coefficientSource Q P :: d, alt⟩, []⟩ =
          some ⟨⟨encodeNum (coef (coefficientSource Q P) i P.w) :: coefficientSource Q P :: d, alt⟩, []⟩ := by
  intro h
  have hmem : LmsParams.sha256H5W1 ∈ LmsParams.constants := by decide
  obtain ⟨hrun, -⟩ := h .sha256H5W1 hmem ⟨fun _ => .zero 32, none⟩ (.zero 32) [] []
  rw [emitChecksumAndV_iff (LmsParams.sizes _ hmem), checksumSum_lt_iff hmem] at hrun
  exact hrun rfl rfl

end KaspaPqv.LmsScript
