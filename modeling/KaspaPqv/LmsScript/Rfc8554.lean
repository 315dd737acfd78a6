import KaspaPqv.Lib.Bytes
import Mathlib.Data.Nat.Log

/-!
# LMS verification as RFC 8554 states it

Algorithms 4b and 6a for SHA-256 with 32 bytes of output, with the names and the
formulas of the RFC: a specification to compare the emitted script with. The number of
chains and the shift of the checksum are computed from the Winternitz depth, as in the
RFC's appendix on parameter sets.
-/

namespace KaspaPqv.Rfc8554

open KaspaPqv.Lib

/-- A number of four bytes, in network order. -/
def u32str (v : ℕ) : Bytes := beBytes 4 v

/-- A number of two bytes, in network order. -/
def u16str (v : ℕ) : Bytes := beBytes 2 v

/-- A number of one byte. -/
def u8str (v : ℕ) : Bytes := beBytes 1 v

/-- The domain separators. -/
def D_PBLC : ℕ := 0x8080
def D_MESG : ℕ := 0x8181
def D_LEAF : ℕ := 0x8282
def D_INTR : ℕ := 0x8383

/-- `ceil(8n / w)` coefficients cover the digest. -/
def u (w : ℕ) : ℕ := (8 * 32 + w - 1) / w

/-- `ceil((floor(lg((2^w - 1) * u)) + 1) / w)` coefficients cover the checksum. -/
def v (w : ℕ) : ℕ := (Nat.log2 ((2 ^ w - 1) * u w) + 1 + w - 1) / w

/-- The left shift that puts the checksum's bits in front. -/
def ls (w : ℕ) : ℕ := 16 - v w * w

/-- The number of chains. -/
def p (w : ℕ) : ℕ := u w + v w

/-- `coef(S, i, w)`. -/
def coef (S : Bytes) (i w : ℕ) : ℕ :=
  (2 ^ w - 1) &&& ((S.getD (i * w / 8) 0).toNat >>> (8 - (w * (i % (8 / w)) + w)))

/-- `Cksm(S)`. -/
def cksm (S : Bytes) (w : ℕ) : ℕ :=
  ((List.range (u w)).map fun i => (2 ^ w - 1) - coef S i w).sum <<< ls w

variable (sha256 : Bytes → Block 32)

/-- `for (j = start; j < stop; j++) tmp = H(I || u32str(q) || u16str(i) || u8str(j) || tmp)`. -/
def chain (I : Bytes) (q i start stop : ℕ) (tmp : Bytes) : Bytes :=
  (List.range' start (stop - start)).foldl
    (fun tmp j => (sha256 (I ++ u32str q ++ u16str i ++ u8str j ++ tmp)).bytes) tmp

/-- **Algorithm 4b**: the public key candidate of a one-time signature. -/
def candidateKey (w : ℕ) (I : Bytes) (q : ℕ) (C : Bytes) (y : ℕ → Bytes) (message : Bytes) : Bytes :=
  let Q := (sha256 (I ++ u32str q ++ u16str D_MESG ++ C ++ message)).bytes
  let z i := chain sha256 I q i (coef (Q ++ u16str (cksm Q w)) i w) (2 ^ w - 1) (y i)
  (sha256 (I ++ u32str q ++ u16str D_PBLC ++ (List.range (p w)).flatMap z)).bytes

/-- The loop of Algorithm 6a, from a node up to the root. -/
def climb (I : Bytes) (path : ℕ → Bytes) (nodeNum i : ℕ) (tmp : Bytes) : Bytes :=
  if _h : 1 < nodeNum then
    if nodeNum % 2 = 1 then
      climb I path (nodeNum / 2) (i + 1)
        (sha256 (I ++ u32str (nodeNum / 2) ++ u16str D_INTR ++ path i ++ tmp)).bytes
    else
      climb I path (nodeNum / 2) (i + 1)
        (sha256 (I ++ u32str (nodeNum / 2) ++ u16str D_INTR ++ tmp ++ path i)).bytes
  else tmp
termination_by nodeNum

/-- **Algorithm 6a**: the candidate for the root. -/
def candidateRoot (w h : ℕ) (I : Bytes) (q : ℕ) (C : Bytes) (y path : ℕ → Bytes) (message : Bytes) : Bytes :=
  let Kc := candidateKey sha256 w I q C y message
  climb sha256 I path (2 ^ h + q) 0 (sha256 (I ++ u32str (2 ^ h + q) ++ u16str D_LEAF ++ Kc)).bytes

/-- Whether a signature over `message` is accepted under the identifier `I` and the root `T1`. -/
def Accepts (w h : ℕ) (I T1 : Bytes) (q : ℕ) (C : Bytes) (y path : ℕ → Bytes) (message : Bytes) : Prop :=
  candidateRoot sha256 w h I q C y path message = T1

variable {sha256}

theorem chain_self (I : Bytes) (q i a : ℕ) {j : ℕ} (hj : j ≤ a) (tmp : Bytes) :
    chain sha256 I q i a j tmp = tmp := by
  rw [chain, Nat.sub_eq_zero_of_le hj]
  rfl

theorem chain_succ (I : Bytes) (q i : ℕ) {a j : ℕ} (hj : a ≤ j) (tmp : Bytes) :
    chain sha256 I q i a (j + 1) tmp =
      (sha256 (I ++ u32str q ++ u16str i ++ u8str j ++ chain sha256 I q i a j tmp)).bytes := by
  rw [chain, Nat.succ_sub hj, List.range'_concat, List.foldl_append, Nat.one_mul, Nat.add_sub_cancel' hj]
  rfl

end KaspaPqv.Rfc8554
