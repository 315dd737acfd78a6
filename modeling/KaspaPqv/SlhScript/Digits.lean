import KaspaPqv.Lib.BitField
import KaspaPqv.SlhScript.Params

/-!
# Digits of a byte string

How a digest is cut into indices and how a hash value is written in base `w`, with the
checksum that a one-time signature adds. A read behind the end of a string is the panic
it is in the source: `none`.

## What is proved

* `base2b_eq` — the digits are bit fields of the string, although the accumulator of the
  loop loses its high bits.
* `base2b_reads` — the same, bit by bit.
* `wotsMessage_eq` — the digits of a hash value and of its checksum, one by one.
* `splitDigest_eq` — the three parts of a message digest.
-/

namespace KaspaPqv.SlhScript

open KaspaPqv.Lib

/-- A part of a list, `none` if it is not within. -/
def sub? {α : Type} (l : List α) (i j : ℕ) : Option (List α) :=
  if i ≤ j ∧ j ≤ l.length then some (slice l i j) else none

/-! ### Base `2 ^ b` -/

/-- The loop of `base_2b`: how much is read, how many bits of it are left, and the accumulator. -/
structure BitReader where
  inn : ℕ
  bits : ℕ
  total : ℕ

/-- `while bits < b`: read a byte. -/
def BitReader.fill (x : Bytes) (b : ℕ) (r : BitReader) : Option BitReader :=
  if r.bits < b then
    x[r.inn]?.bind fun byte =>
      fill x b { inn := r.inn + 1, bits := r.bits + 8, total := (r.total <<< 8) % 2 ^ 64 + byte.toNat }
  else some r
termination_by b - r.bits

/-- `for _ in 0..out_len`. -/
def BitReader.digits (x : Bytes) (b : ℕ) : ℕ → BitReader → Option (List ℕ)
  | 0, _ => some []
  | outLen + 1, r => do
    let r ← r.fill x b
    let bits := r.bits - b
    let rest ← digits x b outLen { r with bits }
    some ((r.total >>> bits &&& (1 <<< b - 1)) % 2 ^ 32 :: rest)

/-- `base_2b(x, b, out_len)`. -/
def base2b (x : Bytes) (b outLen : ℕ) : Option (List ℕ) := BitReader.digits x b outLen ⟨0, 0, 0⟩

/-- `toInt(x, n)`. -/
def toInt (x : Bytes) : ℕ := x.foldl (fun acc b => (acc <<< 8) % 2 ^ 64 ||| b.toNat) 0

/-- The reader has consumed `n` bits of the string. -/
structure BitReader.At (x : Bytes) (n : ℕ) (r : BitReader) : Prop where
  inn_le : r.inn ≤ x.length
  bits_add : n + r.bits = 8 * r.inn
  total_eq : r.total = beNat (x.take r.inn) % 2 ^ 64

theorem BitReader.at_zero (x : Bytes) : BitReader.At x 0 ⟨0, 0, 0⟩ := ⟨Nat.zero_le _, rfl, by simp⟩

/-- A byte shifted in: the accumulator is the number read so far, less its high bits. -/
theorem shiftIn_eq (v : ℕ) (byte : UInt8) :
    ((v % 2 ^ 64) <<< 8) % 2 ^ 64 + byte.toNat = (v * 256 + byte.toNat) % 2 ^ 64 := by
  have := byte.toNat_lt
  rw [Nat.shiftLeft_eq]
  omega

theorem beNat_take_succ {x : Bytes} {i : ℕ} (hi : i < x.length) :
    beNat (x.take (i + 1)) = beNat (x.take i) * 256 + x[i].toNat := by
  rw [List.take_succ_eq_append_getElem hi, beNat_append, beNat_singleton, List.length_singleton, pow_one]

/-- Filling finds enough bytes, and leaves less than a byte more than was asked for. -/
theorem BitReader.At.fill {x : Bytes} {b n : ℕ} {r : BitReader} (h : r.At x n) (hr : r.bits < b + 8)
    (hfit : n + b ≤ 8 * x.length) :
    ∃ r', r.fill x b = some r' ∧ r'.At x n ∧ b ≤ r'.bits ∧ r'.bits < b + 8 := by
  induction hk : b - r.bits using Nat.strong_induction_on generalizing r with
  | _ k ih =>
    rw [BitReader.fill]
    split_ifs with hlt
    · have hinn : r.inn < x.length := by
        have := h.bits_add
        omega
      rw [List.getElem?_eq_getElem hinn, Option.bind_some]
      refine ih (b - (r.bits + 8)) (by omega) ⟨hinn, ?_, ?_⟩ (by simpa using hlt) rfl
      · have := h.bits_add
        simp only
        omega
      · rw [h.total_eq, shiftIn_eq, beNat_take_succ hinn]
    · exact ⟨r, rfl, h, by omega, hr⟩

/-- What is cut out of the accumulator is a field of the string. -/
theorem BitReader.At.digit {x : Bytes} {b n : ℕ} {r : BitReader} (h : r.At x n) (hb : b ≤ 32) (hle : b ≤ r.bits)
    (hlt : r.bits < b + 8) :
    (r.total >>> (r.bits - b) &&& (1 <<< b - 1)) % 2 ^ 32 = bitField x n b := by
  have hexp : 8 * (x.take r.inn).length - (n + b) = r.bits - b := by
    rw [List.length_take, Nat.min_eq_left h.inn_le]
    have := h.bits_add
    omega
  obtain ⟨c, hc⟩ : ∃ c, 64 = (r.bits - b) + (b + c) := ⟨64 - r.bits, by omega⟩
  rw [Nat.one_shiftLeft, Nat.and_two_pow_sub_one_eq_mod, Nat.shiftRight_eq_div_pow,
    Nat.mod_eq_of_lt ((Nat.mod_lt _ (Nat.two_pow_pos b)).trans_le (Nat.pow_le_pow_right (by norm_num) hb)), h.total_eq,
    hc, pow_add, Nat.mod_mul_right_div_self, pow_add, Nat.mod_mul_right_mod]
  rw [← bitField_take h.inn_le (by have := h.bits_add; omega), bitField, hexp]

theorem BitReader.digits_eq {x : Bytes} {b : ℕ} (hb : b ≤ 32) (outLen : ℕ) : ∀ {n : ℕ} {r : BitReader}, r.At x n →
    r.bits < b + 8 → n + b * outLen ≤ 8 * x.length →
      r.digits x b outLen = some ((List.range outLen).map fun i => bitField x (n + b * i) b) := by
  induction outLen with
  | zero => exact fun _ _ _ => rfl
  | succ outLen ih =>
    intro n r h hr hfit
    rw [Nat.mul_succ] at hfit
    obtain ⟨r', hfill, hat, hle, hlt⟩ := h.fill hr (by omega)
    have hnext : BitReader.At x (n + b) { r' with bits := r'.bits - b } := by
      refine ⟨hat.inn_le, ?_, hat.total_eq⟩
      have := hat.bits_add
      simp only
      omega
    have hrest := ih hnext (by simp only; omega) (by omega)
    rw [BitReader.digits, hfill]
    simp only [Option.bind_eq_bind, Option.bind_some, hrest, hat.digit hb hle hlt]
    rw [List.range_succ_eq_map, List.map_cons, List.map_map]
    have hterm : (fun i => bitField x (n + b * i) b) ∘ Nat.succ = fun i => bitField x (n + b + b * i) b := by
      funext i
      simp only [Function.comp, Nat.mul_succ]
      congr 1
      omega
    rw [hterm, Nat.mul_zero, Nat.add_zero]

/-- **The digits are bit fields**, most significant first. -/
theorem base2b_eq {x : Bytes} {b outLen : ℕ} (hb : b ≤ 32) (hfit : b * outLen ≤ 8 * x.length) :
    base2b x b outLen = some ((List.range outLen).map fun i => bitField x (b * i) b) := by
  simpa [base2b] using BitReader.digits_eq hb outLen (BitReader.at_zero x) (by simp) (by simpa using hfit)

/-- **The digits are read off the bits** of the string, however long it is, and nothing is read
behind its end. -/
theorem base2b_reads {x : Bytes} {b outLen : ℕ} (hb : b ≤ 32) (hfit : b * outLen ≤ 8 * x.length) :
    base2b x b outLen =
      some ((List.range outLen).map fun i => ofBits (slice (toBits x) (i * b) ((i + 1) * b))) := by
  rw [base2b_eq hb hfit]
  congr 1
  refine List.map_congr_left fun i hi => ?_
  have hend : b * i + b ≤ 8 * x.length := by
    rw [← Nat.mul_succ]
    exact (Nat.mul_le_mul_left b (List.mem_range.mp hi)).trans hfit
  rw [bitField_eq hend, Nat.mul_comm b i, Nat.succ_mul]

/-- Ninety-six bits, in an accumulator of sixty-four. -/
theorem base2b_reads_long : base2b (List.replicate 9 0xff ++ [0x12, 0x34, 0x56]) 12 8 =
    some [0xfff, 0xfff, 0xfff, 0xfff, 0xfff, 0xfff, 0x123, 0x456] :=
  (base2b_reads (by decide) (by decide)).trans (by decide)

theorem toInt_eq {x : Bytes} (hx : x.length ≤ 8) : toInt x = beNat x := by
  suffices hgen : ∀ (bs : Bytes) (v : ℕ), v < 256 ^ (8 - bs.length) → bs.length ≤ 8 →
      bs.foldl (fun acc b => (acc <<< 8) % 2 ^ 64 ||| b.toNat) v = v * 256 ^ bs.length + beNat bs by
    simpa [toInt] using hgen x 0 (by positivity) hx
  intro bs
  induction bs with
  | nil => simp
  | cons b bs ih =>
    intro v hv hlen
    rw [List.length_cons] at hv hlen
    have hb := b.toNat_lt
    obtain ⟨k, hk⟩ : ∃ k, 8 - bs.length = k + 1 := ⟨7 - bs.length, by omega⟩
    have hk' : 8 - (bs.length + 1) = k := by omega
    have hpow : (256 : ℕ) ^ (k + 1) ≤ 2 ^ 64 := by
      rw [pow_256]
      exact Nat.pow_le_pow_right (by norm_num) (by omega)
    rw [hk'] at hv
    have hnext : v * 256 + b.toNat < 256 ^ (k + 1) := by
      rw [pow_succ]
      omega
    have hmul : v <<< 8 = v * 256 := Nat.shiftLeft_eq v 8
    have hshift : v <<< 8 < 2 ^ 64 := by
      rw [hmul]
      exact (Nat.le_add_right _ _).trans_lt (hnext.trans_le hpow)
    have hor : (v <<< 8) % 2 ^ 64 ||| b.toNat = v * 256 + b.toNat := by
      rw [Nat.mod_eq_of_lt hshift, ← Nat.shiftLeft_add_eq_or_of_lt hb, hmul]
    rw [List.foldl_cons, hor, ih _ (by rwa [hk]) (by omega), ← List.singleton_append, beNat_append, beNat_singleton,
      List.length_append, List.length_singleton]
    ring

/-! ### One-time signatures -/

/-- The digits a one-time signature signs: those of the message, then those of the checksum. -/
def wotsMessage (p : Params) (m : Hash) : Option (List ℕ) := do
  let msg ← base2b m.bytes p.lgw p.len1
  let csum := (msg.map fun d => p.w - 1 - d).sum
  let bytes := beBytes 8 (csum <<< p.csumShift)
  let digits ← base2b (bytes.drop (8 - p.csumWidth)) p.lgw p.len2
  some (msg ++ digits)

/-- The sum of what the digits leave to the end of their chains, over the first `n` of them. -/
def checksum (p : Params) (m : Hash) (n : ℕ) : ℕ :=
  ((List.range n).map fun i => p.w - 1 - bitField m.bytes (p.lgw * i) p.lgw).sum

/-- The `i`-th digit. -/
def wotsDigit (p : Params) (m : Hash) (i : ℕ) : ℕ :=
  if i < p.len1 then bitField m.bytes (p.lgw * i) p.lgw
  else checksum p m p.len1 / 2 ^ (p.csumBits - p.lgw * (i - p.len1 + 1)) % p.w

theorem checksum_succ (p : Params) (m : Hash) (n : ℕ) :
    checksum p m (n + 1) = checksum p m n + (p.w - 1 - bitField m.bytes (p.lgw * n) p.lgw) := by
  simp [checksum, List.range_succ]

theorem checksum_le (p : Params) (m : Hash) (n : ℕ) : checksum p m n ≤ n * (p.w - 1) := by
  induction n with
  | zero => simp [checksum]
  | succ n ih =>
    rw [checksum_succ, Nat.succ_mul]
    omega

theorem checksum_lt {p : Params} (hp : p.Facts) (m : Hash) {n : ℕ} (hn : n ≤ p.len1) :
    checksum p m n < 2 ^ p.csumBits :=
  (checksum_le p m n).trans_lt ((Nat.mul_le_mul_right _ hn).trans_lt hp.csum_lt)

theorem wotsDigit_le {p : Params} (m : Hash) (i : ℕ) : wotsDigit p m i ≤ p.w - 1 := by
  have hw := Params.w_eq (p := p)
  have hpos := Params.w_pos (p := p)
  unfold wotsDigit
  split_ifs
  · have := bitField_lt m.bytes (p.lgw * i) p.lgw
    omega
  · have := Nat.mod_lt (checksum p m p.len1 / 2 ^ (p.csumBits - p.lgw * (i - p.len1 + 1))) hpos
    omega

/-- The digits of the checksum, behind the zero bits that fill its last byte. -/
theorem bitField_checksum {p : Params} (hp : p.Facts) (m : Hash) {j : ℕ} (hj : j < p.len2) :
    bitField (beBytes p.csumWidth (checksum p m p.len1 <<< p.csumShift)) (p.lgw * j) p.lgw =
      checksum p m p.len1 / 2 ^ (p.csumBits - p.lgw * (j + 1)) % p.w := by
  have hlt : checksum p m p.len1 <<< p.csumShift < 256 ^ p.csumWidth := by
    rw [pow_256, ← hp.csum_bits, Nat.shiftLeft_eq, pow_add]
    exact Nat.mul_lt_mul_of_pos_right (checksum_lt hp m le_rfl) (Nat.two_pow_pos _)
  have hfit : p.lgw * (j + 1) ≤ p.csumBits := by
    rw [Params.csumBits, Nat.mul_comm]
    exact Nat.mul_le_mul_right _ hj
  have hexp : 8 * p.csumWidth - (p.lgw * j + p.lgw) = p.csumShift + (p.csumBits - p.lgw * (j + 1)) := by
    have hbits := hp.csum_bits
    rw [Nat.mul_add, Nat.mul_one] at hfit ⊢
    omega
  rw [bitField, length_beBytes, beNat_beBytes, Nat.mod_eq_of_lt hlt, hexp, pow_add, Nat.shiftLeft_eq,
    ← Nat.div_div_eq_div_mul, Nat.mul_div_cancel _ (Nat.two_pow_pos _), Params.w_eq]

/-- The digits of a hash value. -/
theorem base2b_hash {p : Params} (hp : p.Facts) {x : Bytes} (hx : x.length = N) :
    base2b x p.lgw p.len1 = some ((List.range p.len1).map fun i => bitField x (p.lgw * i) p.lgw) := by
  refine base2b_eq (hp.lgw_le.trans (by norm_num)) ?_
  rw [hx, Nat.mul_comm, hp.len1_mul]

/-- **The digits, one by one.** -/
theorem wotsMessage_eq {p : Params} (hp : p.Facts) (m : Hash) :
    wotsMessage p m = some ((List.range p.len).map (wotsDigit p m)) := by
  have hwidth : p.csumWidth ≤ 8 := hp.csumWidth_le.trans (by norm_num)
  have hchecksum : base2b (beBytes p.csumWidth (checksum p m p.len1 <<< p.csumShift)) p.lgw p.len2 =
      some ((List.range p.len2).map fun j => wotsDigit p m (p.len1 + j)) := by
    rw [base2b_eq (hp.lgw_le.trans (by norm_num))]
    · congr 1
      refine List.map_congr_left fun j hj => ?_
      rw [bitField_checksum hp m (List.mem_range.mp hj), wotsDigit, if_neg (by omega), Nat.add_sub_cancel_left]
    · rw [length_beBytes, ← hp.csum_bits, Params.csumBits, Nat.mul_comm]
      exact Nat.le_add_right _ _
  have hleft : (List.range p.len1).map (fun i => bitField m.bytes (p.lgw * i) p.lgw) =
      (List.range p.len1).map (wotsDigit p m) :=
    List.map_congr_left fun i hi => by rw [wotsDigit, if_pos (List.mem_range.mp hi)]
  rw [wotsMessage, base2b_hash hp m.length_bytes]
  simp only [Option.bind_eq_bind, Option.bind_some, List.map_map]
  change (base2b ((beBytes 8 (checksum p m p.len1 <<< p.csumShift)).drop (8 - p.csumWidth)) p.lgw p.len2).bind _ = _
  rw [beBytes_drop hwidth, hchecksum, Option.bind_some, hleft, Params.len, List.range_add, List.map_append, List.map_map]
  rfl

/-! ### The message digest -/

/-- The tree index, which a hypertree of one layer has none of. -/
def splitTree (p : Params) (digest : Bytes) : Option ℕ :=
  if p.idxTreeBits = 0 then some 0
  else (sub? digest p.mdLen (p.mdLen + p.idxTreeLen)).map fun x =>
    toInt x &&& (2 ^ 64 - 1) >>> (64 - p.idxTreeBits)

/-- The message digest cut into the FORS indices, the tree index and the leaf index. -/
def splitDigest (p : Params) (digest : Bytes) : Option (Bytes × ℕ × ℕ) := do
  let md ← sub? digest 0 p.mdLen
  let idxTree ← splitTree p digest
  let x ← sub? digest (p.mdLen + p.idxTreeLen) digest.length
  some (md, idxTree, (toInt x &&& (1 <<< p.hp - 1)) % 2 ^ 32)

/-- The tree index of a message digest. -/
def treeIndex (p : Params) (digest : Bytes) : ℕ :=
  bitField digest (8 * (p.mdLen + p.idxTreeLen) - p.idxTreeBits) p.idxTreeBits

/-- Its leaf index. -/
def leafIndex (p : Params) (digest : Bytes) : ℕ := bitField digest (8 * p.m - p.hp) p.hp

theorem two_pow_sub_one_shiftRight (b c : ℕ) : (2 ^ (b + c) - 1) >>> c = 2 ^ b - 1 := by
  have hb := Nat.two_pow_pos b
  have hc := Nat.two_pow_pos c
  have hsplit : 2 ^ (b + c) - 1 = 2 ^ c * (2 ^ b - 1) + (2 ^ c - 1) := by
    have hle : 2 ^ c ≤ 2 ^ c * 2 ^ b := Nat.le_mul_of_pos_right _ hb
    rw [pow_add, Nat.mul_comm, Nat.mul_sub, Nat.mul_one]
    omega
  rw [Nat.shiftRight_eq_div_pow, hsplit, Nat.mul_add_div hc, Nat.div_eq_of_lt (by omega), Nat.add_zero]

theorem sub?_eq {α : Type} {l : List α} {i j : ℕ} (hij : i ≤ j) (hj : j ≤ l.length) :
    sub? l i j = some (slice l i j) := if_pos ⟨hij, hj⟩

/-- **The parts of the digest are bit fields.** -/
theorem splitDigest_eq {p : Params} (hp : p.Facts) {digest : Bytes} (hlen : digest.length = p.m) :
    splitDigest p digest = some (digest.take p.mdLen, treeIndex p digest, leafIndex p digest) := by
  have hm := hp.m_eq
  have hslice {i j b : ℕ} (hij : i ≤ j) (hj : j ≤ p.m) (hji : j - i ≤ 8) (hb : b ≤ 8 * (j - i)) :
      toInt (slice digest i j) % 2 ^ b = bitField digest (8 * j - b) b := by
    have hlen' : (slice digest i j).length = j - i := by rw [length_slice, hlen, Nat.min_eq_left hj]
    rw [toInt_eq (by omega), beNat_mod (by omega), hlen', bitField_slice hij (by omega) (by omega)]
    congr 1
    omega
  have htree : (2 ^ 64 - 1) >>> (64 - p.idxTreeBits) = 2 ^ p.idxTreeBits - 1 := by
    have := hp.idxTreeBits_le
    have := hp.idxTreeLen_le
    have hadd : p.idxTreeBits + (64 - p.idxTreeBits) = 64 := by omega
    simpa only [hadd] using two_pow_sub_one_shiftRight p.idxTreeBits (64 - p.idxTreeBits)
  have hleaf : toInt (slice digest (p.mdLen + p.idxTreeLen) p.m) % 2 ^ p.hp = leafIndex p digest :=
    hslice (by omega) le_rfl (by have := hp.idxLeafLen_le; omega) (by have := hp.hp_le_bits; omega)
  have hsmall : leafIndex p digest < 2 ^ 32 :=
    (bitField_lt _ _ _).trans_le (Nat.pow_le_pow_right (by norm_num) (hp.hp_le.trans (by norm_num)))
  have hidx : splitTree p digest = some (treeIndex p digest) := by
    unfold splitTree
    split_ifs with h0
    · rw [treeIndex, h0, bitField, pow_zero, Nat.mod_one]
    · rw [sub?_eq (by omega) (by omega), Option.map_some, htree, Nat.and_two_pow_sub_one_eq_mod]
      congr 1
      exact hslice (by omega) (by omega) (by have := hp.idxTreeLen_le; omega) (by have := hp.idxTreeBits_le; omega)
  rw [splitDigest, sub?_eq (Nat.zero_le _) (by omega)]
  simp only [Option.bind_eq_bind, Option.bind_some]
  rw [hidx, Option.bind_some, sub?_eq (by omega) le_rfl, Option.bind_some, Nat.one_shiftLeft,
    Nat.and_two_pow_sub_one_eq_mod, hlen]
  rw [hleaf, Nat.mod_eq_of_lt hsmall, slice_zero]

theorem leafIndex_lt (p : Params) (digest : Bytes) : leafIndex p digest < 2 ^ p.hp := bitField_lt _ _ _

theorem treeIndex_lt {p : Params} (hp : p.Facts) (digest : Bytes) : treeIndex p digest < 2 ^ (p.hp * (p.d - 1)) := by
  rw [← hp.idxTreeBits_eq]
  exact bitField_lt _ _ _

end KaspaPqv.SlhScript
