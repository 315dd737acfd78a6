import KaspaPqv.Lib.ChecksumCode
import KaspaPqv.SlhScript.Digits

/-!
# The code that one-time keys sign

The digits of a message and those of its checksum, as one code (`checksummed`). No message has
an encoding that is everywhere at most another message's, so a signature of one message is
never turned into one of another by going on along the chains.

## What is proved

* `wotsDigit_eq` — the digits are those of a code with a checksum.
* `wotsMessage_dominationFree` — of two messages each has a digit below the other's.
-/

namespace KaspaPqv.SlhScript

open KaspaPqv.Lib

/-- The digits of the message alone. -/
def messageDigit (p : Params) (m : Hash) (i : ℕ) : ℕ := bitField m.bytes (p.lgw * i) p.lgw

theorem messageDigit_lt (p : Params) (m : Hash) (i : ℕ) : messageDigit p m i < p.w := by
  rw [Params.w_eq]
  exact bitField_lt _ _ _

theorem checksum_eq_lack (p : Params) (m : Hash) (n : ℕ) : checksum p m n = lack p.w n (messageDigit p m) := by
  induction n with
  | zero => rfl
  | succ n ih => rw [checksum_succ, lack_succ, ih, messageDigit]

theorem Params.two_pow_csumBits (p : Params) : 2 ^ p.csumBits = p.w ^ p.len2 := by
  rw [Params.w_eq, ← pow_mul, Params.csumBits, Nat.mul_comm]

/-- **The digits are those of a code with a checksum.** -/
theorem wotsDigit_eq (p : Params) (m : Hash) (i : ℕ) :
    wotsDigit p m i = checksummed p.w p.len1 p.len2 (messageDigit p m) i := by
  unfold wotsDigit checksummed
  split_ifs with hi
  · rfl
  · have hexp : p.csumBits - p.lgw * (i - p.len1 + 1) = p.lgw * (p.len2 - (i - p.len1 + 1)) := by
      rw [Params.csumBits, Nat.mul_comm p.len2, Nat.mul_sub]
    rw [digitAt, hexp, pow_mul, ← Params.w_eq, checksum_eq_lack]

/-- A message is told by its digits. -/
theorem eq_of_messageDigit_eq {p : Params} (hp : p.Facts) {m m' : Hash}
    (h : ∀ i < p.len1, messageDigit p m i = messageDigit p m' i) : m = m' := by
  have hbits : p.lgw * p.len1 = 8 * m'.bytes.length := by rw [Block.length_bytes, Nat.mul_comm, hp.len1_mul]
  exact Block.ext (eq_of_bitField_eq (by simp) hbits h)

/-- **No encoding dominates another**: of two messages, the second one has a digit below the
first one's. -/
theorem wotsMessage_dominationFree {p : Params} (hp : p ∈ Params.ALL) {m m' : Hash} (hne : m ≠ m') :
    ∃ digits digits', wotsMessage p m = some digits ∧ wotsMessage p m' = some digits' ∧ digits.length = p.len ∧
      digits'.length = p.len ∧ ∃ i < p.len, digits'.getD i 0 < digits.getD i 0 := by
  have hfacts := Params.facts p hp
  have hdiffer : ∃ i < p.len1, messageDigit p m i ≠ messageDigit p m' i := by
    by_contra hall
    push Not at hall
    exact hne (eq_of_messageDigit_eq hfacts hall)
  have hlack : lack p.w p.len1 (messageDigit p m) < p.w ^ p.len2 := by
    rw [← checksum_eq_lack, ← Params.two_pow_csumBits]
    exact checksum_lt hfacts m le_rfl
  obtain ⟨i, hi, hlt⟩ := exists_checksummed_lt (fun i _ => messageDigit_lt p m' i) hlack hdiffer
  rw [← wotsDigit_eq, ← wotsDigit_eq] at hlt
  refine ⟨_, _, wotsMessage_eq hfacts m, wotsMessage_eq hfacts m', by simp, by simp, i, hi, ?_⟩
  have hi' : i < p.len := hi
  simpa [List.getD_eq_getElem?_getD, hi'] using hlt

theorem wotsMessage_dominationFree_ones :
    ∃ digits digits', wotsMessage .SHA2_128_24 (.zero N) = some digits ∧
      wotsMessage .SHA2_128_24 (.ofBytes (List.replicate N 1) List.length_replicate) = some digits' ∧
      digits.length = Params.SHA2_128_24.len ∧ digits'.length = Params.SHA2_128_24.len ∧
      ∃ i < Params.SHA2_128_24.len, digits'.getD i 0 < digits.getD i 0 :=
  wotsMessage_dominationFree (by decide) fun h => absurd (congrArg Block.bytes h) (by decide)

end KaspaPqv.SlhScript
