import KaspaPqv.Lib.Bytes

/-!
# SLH-DSA parameter sets

The three sets, all at category 1 with SHA-256. Only the independent parameters are
stored; the lengths are derived by the formulas of the standard.

## What is proved

* `Params.facts` — what the sets have in common as far as signer, verifier and script need it.
-/

namespace KaspaPqv.SlhScript

open KaspaPqv.Lib

/-- The length of a hash value. -/
def N : ℕ := 16

/-- A hash value. -/
abbrev Hash := Block N

/-- The padding behind `PK.seed`, up to one block of the compression function. -/
def PAD_LEN : ℕ := 64 - N

/-- The types of an address. -/
def WOTS_HASH : ℕ := 0
def WOTS_PK : ℕ := 1
def TREE : ℕ := 2
def FORS_TREE : ℕ := 3
def FORS_ROOTS : ℕ := 4
def WOTS_PRF : ℕ := 5
def FORS_PRF : ℕ := 6

/-- A parameter set. -/
structure Params where
  /-- What reports and errors call it. -/
  name : String
  /-- The security parameter, in bytes. -/
  n : ℕ
  /-- The height of the hypertree. -/
  h : ℕ
  /-- Its layers. -/
  d : ℕ
  /-- The height of each of its trees. -/
  hp : ℕ
  /-- The height of a FORS tree. -/
  a : ℕ
  /-- The number of FORS trees. -/
  k : ℕ
  /-- The logarithm of the Winternitz parameter. -/
  lgw : ℕ
  /-- The length of the message digest, in bytes. -/
  m : ℕ
  deriving DecidableEq

/-- The quotient, rounded up. -/
def divCeil (a b : ℕ) : ℕ := (a + b - 1) / b

namespace Params

def SHA2_128S : Params :=
  { name := "SLH-DSA-SHA2-128s", n := N, h := 63, d := 7, hp := 9, a := 12, k := 14, lgw := 4, m := 30 }

def SHA2_128_24 : Params :=
  { name := "SLH-DSA-SHA2-128-24", n := N, h := 22, d := 1, hp := 22, a := 24, k := 6, lgw := 2, m := 21 }

def SHA2_128_24_D2 : Params :=
  { name := "SLH-DSA-SHA2-128-24d2", n := N, h := 24, d := 2, hp := 12, a := 14, k := 15, lgw := 2, m := 31 }

/-- Every supported set. -/
def ALL : List Params := [SHA2_128S, SHA2_128_24, SHA2_128_24_D2]

variable (p : Params)

/-- The Winternitz parameter. -/
def w : ℕ := 1 <<< p.lgw

/-- The chains covering the message. -/
def len1 : ℕ := divCeil (8 * p.n) p.lgw

/-- The chains covering the checksum. -/
def len2 : ℕ := (p.len1 * (p.w - 1)).log2 / p.lgw + 1

/-- All chains. -/
def len : ℕ := p.len1 + p.len2

/-- The bits of the checksum's digits. -/
def csumBits : ℕ := p.len2 * p.lgw

/-- The bytes of the digest the FORS indices take. -/
def mdLen : ℕ := divCeil (p.k * p.a) 8

/-- The bytes of the digest the tree index takes: none in a hypertree of one layer. -/
def idxTreeLen : ℕ := divCeil (p.h - p.h / p.d) 8

/-- The bytes of the digest the leaf index takes. -/
def idxLeafLen : ℕ := divCeil p.h (8 * p.d)

/-- The bits kept of the tree index. -/
def idxTreeBits : ℕ := p.h - p.h / p.d

/-- The number of elements of a signature. -/
def sigElements : ℕ := 1 + p.k * (1 + p.a) + p.h + p.d * p.len

/-- The length of a signature. -/
def sigLen : ℕ := p.sigElements * p.n

/-- The leaves of one tree of the hypertree. -/
def leavesPerTree : ℕ := 1 <<< p.hp

/-- `while width < 8 && max >= 1 << (8 * width - 1)`, with `fuel = 8 - width`. -/
def widenFor (max : ℕ) : (fuel width : ℕ) → ℕ
  | 0, width => width
  | fuel + 1, width => if max ≥ 1 <<< (8 * width - 1) then widenFor max fuel (width + 1) else width

/-- The bytes a word of an address needs for values up to `max`, the sign bit included. -/
def wordWidthFor (max : ℕ) : ℕ := widenFor max 7 1

/-- The width of an index over all FORS trees. -/
def forsIndexWidth : ℕ := wordWidthFor (p.k <<< p.a)

/-- The width of an index in one tree of the hypertree. -/
def xmssIndexWidth : ℕ := wordWidthFor (p.leavesPerTree - 1)

/-- The zero bits behind the checksum, up to a byte boundary. -/
def csumShift : ℕ := (8 - (p.csumBits &&& 7)) &&& 7

/-- The bytes the checksum takes. -/
def csumWidth : ℕ := (p.csumBits + p.csumShift) / 8

/-- What the sets have in common. -/
structure Facts : Prop where
  n_eq : p.n = N
  d_pos : 0 < p.d
  d_lt : p.d < 256
  h_eq : p.h = p.d * p.hp
  idxTreeBits_eq : p.idxTreeBits = p.hp * (p.d - 1)
  idxTreeBits_le : p.idxTreeBits ≤ 8 * p.idxTreeLen
  idxTreeLen_le : p.idxTreeLen ≤ 7
  hp_pos : 0 < p.hp
  hp_le : p.hp ≤ 22
  hp_le_bits : p.hp ≤ 8 * p.idxLeafLen
  idxLeafLen_le : p.idxLeafLen ≤ 7
  m_eq : p.mdLen + p.idxTreeLen + p.idxLeafLen = p.m
  m_le : p.m ≤ 32
  fors_bits : p.k * p.a ≤ 8 * p.mdLen
  a_pos : 0 < p.a
  a_le : p.a ≤ 24
  forsIndex_lt : p.k <<< p.a < 2 ^ (8 * p.forsIndexWidth - 1)
  forsIndexWidth_le : p.forsIndexWidth ≤ 4
  forsIndexWidth_pos : 0 < p.forsIndexWidth
  xmssIndex_le : 2 ^ p.hp ≤ 2 ^ (8 * p.xmssIndexWidth - 1)
  xmssIndexWidth_le : p.xmssIndexWidth ≤ 4
  xmssIndexWidth_pos : 0 < p.xmssIndexWidth
  lgw_dvd : p.lgw ∣ 8
  lgw_pos : 0 < p.lgw
  lgw_le : p.lgw ≤ 4
  len1_mul : p.len1 * p.lgw = 8 * N
  len_lt : p.len < 256
  csum_lt : p.len1 * (p.w - 1) < 2 ^ p.csumBits
  csum_bits : p.csumBits + p.csumShift = 8 * p.csumWidth
  csumWidth_le : p.csumWidth ≤ 2

instance : Decidable p.Facts :=
  decidable_of_iff
    ((p.n = N ∧ 0 < p.d ∧ p.d < 256 ∧ p.h = p.d * p.hp ∧ p.idxTreeBits = p.hp * (p.d - 1) ∧
        p.idxTreeBits ≤ 8 * p.idxTreeLen ∧ p.idxTreeLen ≤ 7 ∧ 0 < p.hp ∧ p.hp ≤ 22 ∧
        p.hp ≤ 8 * p.idxLeafLen ∧ p.idxLeafLen ≤ 7) ∧
      (p.mdLen + p.idxTreeLen + p.idxLeafLen = p.m ∧ p.m ≤ 32 ∧ p.k * p.a ≤ 8 * p.mdLen ∧ 0 < p.a ∧ p.a ≤ 24 ∧
        p.k <<< p.a < 2 ^ (8 * p.forsIndexWidth - 1) ∧ p.forsIndexWidth ≤ 4 ∧ 0 < p.forsIndexWidth ∧
        2 ^ p.hp ≤ 2 ^ (8 * p.xmssIndexWidth - 1) ∧ p.xmssIndexWidth ≤ 4 ∧ 0 < p.xmssIndexWidth) ∧
      p.lgw ∣ 8 ∧ 0 < p.lgw ∧ p.lgw ≤ 4 ∧ p.len1 * p.lgw = 8 * N ∧ p.len < 256 ∧
        p.len1 * (p.w - 1) < 2 ^ p.csumBits ∧ p.csumBits + p.csumShift = 8 * p.csumWidth ∧ p.csumWidth ≤ 2)
    ⟨fun ⟨⟨h₁, h₂, h₃, h₄, h₅, h₆, h₇, h₈, h₉, h₁₀, h₁₁⟩, ⟨i₁, i₂, i₃, i₄, i₅, i₆, i₇, i₈, i₉, i₁₀, i₁₁⟩,
        j₁, j₂, j₃, j₄, j₅, j₆, j₇, j₈⟩ =>
      ⟨h₁, h₂, h₃, h₄, h₅, h₆, h₇, h₈, h₉, h₁₀, h₁₁, i₁, i₂, i₃, i₄, i₅, i₆, i₇, i₈, i₉, i₁₀, i₁₁,
        j₁, j₂, j₃, j₄, j₅, j₆, j₇, j₈⟩,
      fun ⟨h₁, h₂, h₃, h₄, h₅, h₆, h₇, h₈, h₉, h₁₀, h₁₁, i₁, i₂, i₃, i₄, i₅, i₆, i₇, i₈, i₉, i₁₀, i₁₁,
        j₁, j₂, j₃, j₄, j₅, j₆, j₇, j₈⟩ =>
      ⟨⟨h₁, h₂, h₃, h₄, h₅, h₆, h₇, h₈, h₉, h₁₀, h₁₁⟩, ⟨i₁, i₂, i₃, i₄, i₅, i₆, i₇, i₈, i₉, i₁₀, i₁₁⟩,
        j₁, j₂, j₃, j₄, j₅, j₆, j₇, j₈⟩⟩

theorem facts : ∀ p ∈ ALL, p.Facts := by decide

variable {p}

theorem w_eq : p.w = 2 ^ p.lgw := by rw [w, Nat.one_shiftLeft]

theorem w_pos : 0 < p.w := by
  rw [w_eq]
  exact Nat.two_pow_pos _

theorem leavesPerTree_eq : p.leavesPerTree = 2 ^ p.hp := by rw [leavesPerTree, Nat.one_shiftLeft]

/-! ### The width of a word -/

section width

variable {max : ℕ}

theorem widenFor_le (fuel width : ℕ) : widenFor max fuel width ≤ width + fuel := by
  induction fuel generalizing width with
  | zero => exact le_rfl
  | succ fuel ih =>
    rw [widenFor]
    split_ifs
    · exact (ih (width + 1)).trans (by omega)
    · exact Nat.le_add_right _ _

theorem le_widenFor (fuel width : ℕ) : width ≤ widenFor max fuel width := by
  induction fuel generalizing width with
  | zero => exact le_rfl
  | succ fuel ih =>
    rw [widenFor]
    split_ifs
    · exact (Nat.le_succ _).trans (ih (width + 1))
    · exact le_rfl

/-- The loop ends at a width whose sign bit `max` leaves free, if the last one has it so. -/
theorem lt_widenFor {fuel width : ℕ} (h : max < 2 ^ (8 * (width + fuel) - 1)) :
    max < 2 ^ (8 * widenFor max fuel width - 1) := by
  induction fuel generalizing width with
  | zero => exact h
  | succ fuel ih =>
    rw [widenFor]
    split_ifs with hwide
    · exact ih (by rwa [Nat.add_right_comm])
    · rwa [Nat.one_shiftLeft, not_le] at hwide

theorem wordWidthFor_pos : 1 ≤ wordWidthFor max := le_widenFor 7 1

theorem wordWidthFor_le : wordWidthFor max ≤ 8 := widenFor_le 7 1

theorem lt_wordWidthFor (h : max < 2 ^ 63) : max < 2 ^ (8 * wordWidthFor max - 1) := lt_widenFor h

end width

namespace Facts

theorem w_le (hp : p.Facts) : p.w ≤ 16 := by
  rw [w_eq]
  exact Nat.pow_le_pow_right (n := 2) (by norm_num) hp.lgw_le

theorem len1_lt (hp : p.Facts) {i : ℕ} (hi : i < p.len1) : (i + 1) * p.lgw ≤ 8 * N := by
  rw [← hp.len1_mul]
  exact Nat.mul_le_mul_right _ hi

end Facts

end Params

end KaspaPqv.SlhScript
