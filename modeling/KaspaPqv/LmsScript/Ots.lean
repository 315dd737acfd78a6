import KaspaPqv.Script.Rules

/-!
# LM-OTS coefficients and the checksum

The parameter sets, the `w`-bit fields a message digest is read in, and the checksum
over them; and the opcodes that read one field of the string on top of the stack.

## What is proved

* `runs_emitCoefficient` — the opcodes push the field `coef` computes.
* `LmsParams.facts` — what the parameter sets have in common as far as the script needs it.
-/

namespace KaspaPqv.LmsScript

open KaspaPqv.Lib KaspaPqv.Script

/-! ### Parameter sets -/

/-- A pair of an LMS and an LM-OTS parameter set, for SHA-256 with 32 bytes of output. -/
structure LmsParams where
  /-- The Winternitz depth: chains run to `2 ^ w - 1`. -/
  w : ℕ
  /-- The height of the tree. -/
  h : ℕ
  /-- The number of chains, `u + v`. -/
  p : ℕ
  /-- The chains covering the message digest. -/
  u : ℕ
  /-- The chains covering the checksum. -/
  v : ℕ
  /-- How far the checksum is shifted left. -/
  ls : ℕ
  deriving DecidableEq

namespace LmsParams

def sha256H5W2 : LmsParams := { w := 2, h := 5, p := 133, u := 128, v := 5, ls := 6 }

def sha256H10W2 : LmsParams := { sha256H5W2 with h := 10 }

def sha256H15W2 : LmsParams := { sha256H5W2 with h := 15 }

def sha256H20W2 : LmsParams := { sha256H5W2 with h := 20 }

def sha256H25W2 : LmsParams := { sha256H5W2 with h := 25 }

def sha256H5W1 : LmsParams := { w := 1, h := 5, p := 265, u := 256, v := 9, ls := 7 }

def sha256H5W4 : LmsParams := { w := 4, h := 5, p := 67, u := 64, v := 3, ls := 4 }

/-- All the constants. -/
def constants : List LmsParams :=
  [sha256H5W2, sha256H10W2, sha256H15W2, sha256H20W2, sha256H25W2, sha256H5W1, sha256H5W4]

/-- The largest coefficient. -/
def maxCoef (P : LmsParams) : ℕ := 2 ^ P.w - 1

/-- The number of one-time keys. -/
def leafCount (P : LmsParams) : ℕ := 2 ^ P.h

/-- What the script needs of a parameter set. A depth of `1` is not among these: its
largest checksum takes the sign bit of the two bytes it is laid out on. -/
structure Facts (P : LmsParams) : Prop where
  w_dvd : P.w ∣ 8
  w_pos : 0 < P.w
  h_le : P.h ≤ 25
  p_pos : 0 < P.p
  p_le : P.p * P.w ≤ 8 * 34
  u_mul : P.u * P.w = 8 * 32
  u_le : P.u ≤ P.p
  ls_le : P.ls ≤ 16
  maxCoef_lt : P.maxCoef < 256
  checksum_lt : P.u * P.maxCoef * 2 ^ P.ls < 2 ^ 15

instance (P : LmsParams) : Decidable P.Facts :=
  decidable_of_iff (P.w ∣ 8 ∧ 0 < P.w ∧ P.h ≤ 25 ∧ 0 < P.p ∧ P.p * P.w ≤ 8 * 34 ∧ P.u * P.w = 8 * 32 ∧
      P.u ≤ P.p ∧ P.ls ≤ 16 ∧ P.maxCoef < 256 ∧ P.u * P.maxCoef * 2 ^ P.ls < 2 ^ 15)
    ⟨fun ⟨h₁, h₂, h₃, h₄, h₅, h₆, h₇, h₈, h₉, h₁₀⟩ => ⟨h₁, h₂, h₃, h₄, h₅, h₆, h₇, h₈, h₉, h₁₀⟩,
      fun ⟨h₁, h₂, h₃, h₄, h₅, h₆, h₇, h₈, h₉, h₁₀⟩ => ⟨h₁, h₂, h₃, h₄, h₅, h₆, h₇, h₈, h₉, h₁₀⟩⟩

theorem facts : ∀ P ∈ constants, P.w = 2 ∨ P.w = 4 → P.Facts := by decide

end LmsParams

/-! ### Coefficients -/

/-- The `i`-th field of `w` bits of a string, most significant first within each byte. -/
def coef (s : Bytes) (i w : ℕ) : ℕ :=
  let bit := i * w
  let byte := s.getD (bit / 8) 0
  let shift := 8 - w - bit % 8
  (byte.toNat >>> shift) &&& ((1 <<< w) - 1)

/-- The checksum of a message digest. -/
def cksm (q : Bytes) (P : LmsParams) : ℕ :=
  let sum := (List.range P.u).foldl (fun sum i => sum + (P.maxCoef - coef q i P.w)) 0
  (sum <<< P.ls) % 2 ^ 16

/-- The string the coefficients are read from: the digest and its checksum. -/
def coefficientSource (q : Block 32) (P : LmsParams) : Bytes := q.bytes ++ beBytes 2 (cksm q.bytes P)

/-- A field as a quotient and a remainder, as the opcodes compute it. -/
theorem coef_eq (s : Bytes) (i w : ℕ) :
    coef s i w = (s.getD (i * w / 8) 0).toNat / 2 ^ (8 - w - i * w % 8) % 2 ^ w := by
  simp only [coef, Nat.shiftRight_eq_div_pow, Nat.one_shiftLeft, Nat.and_two_pow_sub_one_eq_mod]

theorem coef_le (s : Bytes) (i w : ℕ) : coef s i w ≤ 2 ^ w - 1 := by
  have := Nat.mod_lt ((s.getD (i * w / 8) 0).toNat / 2 ^ (8 - w - i * w % 8)) (Nat.two_pow_pos w)
  rw [coef_eq]
  omega

/-! ### Reading a coefficient in script -/

/-- Read the `i`-th coefficient of the string on top of the stack, and leave the string. -/
def emitCoefficient {σ : Type} (P : LmsParams) (i : ℕ) : Gen σ Instr String Unit := do
  Gen.ensure (i < P.p) s!"chain index {i} out of range for p = {P.p}"
  let bit := i * P.w
  let byteIdx := bit / 8
  let shift := 8 - P.w - bit % 8
  ScriptWriter.op .OpDup
  ScriptWriter.num byteIdx
  ScriptWriter.num (byteIdx + 1 : ℕ)
  ScriptWriter.op .OpSubstr
  -- a zero byte on top clears the sign bit
  ScriptWriter.data [0]
  ScriptWriter.op .OpCat
  ScriptWriter.op .OpBin2Num
  Gen.onlyIf (shift > 0) do
    ScriptWriter.num (2 ^ shift : ℕ)
    ScriptWriter.op .OpDiv
  ScriptWriter.num (2 ^ P.w : ℕ)
  ScriptWriter.op .OpMod

/-- **Reading a coefficient.** -/
theorem runs_emitCoefficient {σ : Type} {env : Env} {P : LmsParams} {i : ℕ} {s : Bytes} {d alt : List Bytes}
    (hw : P.w ≤ 8) (hi : i < P.p) (hs : i * P.w / 8 < s.length) (hlen : s.length < 2 ^ 62) :
    Runs env (emitCoefficient P i : Gen σ Instr String Unit) ⟨s :: d, alt⟩
      ⟨encodeNum (coef s i P.w) :: s :: d, alt⟩ := by
  set k := i * P.w / 8 with hk
  set shift := 8 - P.w - i * P.w % 8 with hshift
  have hbyte : leNat (slice s k (k + 1)) = s[k].toNat := by simp [slice_succ hs, leNat]
  have hlt : s[k].toNat < 2 ^ 63 := s[k].toNat_lt.trans (by norm_num)
  have hpow : 2 ^ P.w < 2 ^ 63 := Nat.pow_lt_pow_right (by norm_num) (by omega)
  have hpow' : 2 ^ shift < 2 ^ 63 := Nat.pow_lt_pow_right (by norm_num) (by omega)
  have hcoef : coef s i P.w = s[k].toNat / 2 ^ shift % 2 ^ P.w := by
    rw [coef_eq, ← hk, ← hshift, List.getD_eq_getElem?_getD, List.getElem?_eq_getElem hs]
    rfl
  have hbin : Opcode.exec env .OpBin2Num ⟨(slice s k (k + 1) ++ [0]) :: s :: d, alt⟩ =
      some ⟨encodeNum s[k].toNat :: s :: d, alt⟩ := by
    rw [exec_bin2Num_pad (by rw [hbyte]; exact hlt), hbyte]
  refine .seq (.ensure hi) <| .seq (.op rfl) <| .seq (.num k) <| .seq (.num (k + 1)) <|
    .seq (.op (exec_substr (by omega) (by omega) (by omega))) <| .seq (.data [0]) <| .seq (.op rfl) <|
    .seq (.op hbin) <| .seq (t := ⟨encodeNum (s[k].toNat / 2 ^ shift : ℕ) :: s :: d, alt⟩) ?_ ?_
  · refine .onlyIf (fun _ => .seq (.num (2 ^ shift)) ?_) fun h => ?_
    · exact .op (exec_div hlt (Nat.two_pow_pos _) hpow')
    · rw [show shift = 0 from Nat.eq_zero_of_not_pos h, pow_zero, Nat.div_one]
  · rw [hcoef]
    exact .seq (.num (2 ^ P.w)) <| .op <| exec_mod ((Nat.div_le_self _ _).trans_lt hlt) (Nat.two_pow_pos _) hpow

end KaspaPqv.LmsScript
