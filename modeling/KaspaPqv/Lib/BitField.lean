import KaspaPqv.Lib.Bytes

/-!
# Bit fields of byte strings

A byte string read as a string of bits, the most significant bit of each byte first:
`bitField bs start len` is the number that `len` bits spell from bit `start` on.

## What is proved

* `bitField_append_left`, `bitField_append_right`, `bitField_slice` — a field of a part of a string.
* `bitField_sub` — a field of a field.
* `beNat_slice` — a run of whole bytes is a field.
* `bitField_eq` — a field is the number that its bits spell, one by one.
-/

namespace KaspaPqv.Lib

/-- The bits `[start, start + len)` of a string, the most significant one first. -/
def bitField (bs : Bytes) (start len : ℕ) : ℕ := beNat bs / 2 ^ (8 * bs.length - (start + len)) % 2 ^ len

theorem bitField_lt (bs : Bytes) (start len : ℕ) : bitField bs start len < 2 ^ len := Nat.mod_lt _ (Nat.two_pow_pos _)

theorem pow_256 (n : ℕ) : 256 ^ n = 2 ^ (8 * n) := by
  rw [pow_mul]
  norm_num

theorem beNat_lt_two_pow (bs : Bytes) : beNat bs < 2 ^ (8 * bs.length) := pow_256 bs.length ▸ beNat_lt bs

@[simp] theorem bitField_all (bs : Bytes) : bitField bs 0 (8 * bs.length) = beNat bs := by
  rw [bitField, Nat.zero_add, Nat.sub_self, pow_zero, Nat.div_one, Nat.mod_eq_of_lt (beNat_lt_two_pow bs)]

/-- The last bits of a string. -/
theorem beNat_mod {bs : Bytes} {len : ℕ} (h : len ≤ 8 * bs.length) :
    beNat bs % 2 ^ len = bitField bs (8 * bs.length - len) len := by
  rw [bitField, show 8 * bs.length - (8 * bs.length - len + len) = 0 by omega, pow_zero, Nat.div_one]

theorem bitField_append_left {a b : Bytes} {start len : ℕ} (h : start + len ≤ 8 * a.length) :
    bitField (a ++ b) start len = bitField a start len := by
  have hexp : 8 * (a ++ b).length - (start + len) = 8 * b.length + (8 * a.length - (start + len)) := by
    rw [List.length_append]
    omega
  have hb := beNat_lt_two_pow b
  rw [bitField, bitField, hexp, pow_add, ← Nat.div_div_eq_div_mul, beNat_append, pow_256, Nat.mul_comm,
    Nat.mul_add_div (Nat.two_pow_pos _), Nat.div_eq_of_lt hb, Nat.add_zero]

theorem bitField_append_right {a b : Bytes} {start len : ℕ} (hstart : 8 * a.length ≤ start)
    (h : start + len ≤ 8 * (a.length + b.length)) :
    bitField (a ++ b) start len = bitField b (start - 8 * a.length) len := by
  set e := 8 * (a.length + b.length) - (start + len) with he
  have hexp : 8 * (a ++ b).length - (start + len) = e := by rw [List.length_append]
  have hexp' : 8 * b.length - (start - 8 * a.length + len) = e := by omega
  obtain ⟨r, hr⟩ : ∃ r, 8 * b.length = e + (len + r) := ⟨start - 8 * a.length, by omega⟩
  have hpow : beNat a * 256 ^ b.length = 2 ^ e * (2 ^ len * (beNat a * 2 ^ r)) := by
    rw [pow_256, hr, pow_add, pow_add]
    ring
  rw [bitField, bitField, hexp, hexp', beNat_append, hpow, Nat.mul_add_div (Nat.two_pow_pos _), Nat.mul_add_mod]

theorem bitField_take {bs : Bytes} {n start len : ℕ} (hn : n ≤ bs.length) (h : start + len ≤ 8 * n) :
    bitField (bs.take n) start len = bitField bs start len := by
  conv_rhs => rw [← List.take_append_drop n bs]
  rw [bitField_append_left]
  rwa [List.length_take, Nat.min_eq_left hn]

theorem bitField_drop {bs : Bytes} {n start len : ℕ} (hn : n ≤ bs.length) (h : start + len ≤ 8 * (bs.length - n)) :
    bitField (bs.drop n) start len = bitField bs (8 * n + start) len := by
  have htake : (bs.take n).length = n := by rw [List.length_take, Nat.min_eq_left hn]
  conv_rhs => rw [← List.take_append_drop n bs]
  rw [bitField_append_right (by omega) (by rw [htake, List.length_drop]; omega), htake, Nat.add_sub_cancel_left]

/-- **A field of a slice.** -/
theorem bitField_slice {bs : Bytes} {i j start len : ℕ} (hij : i ≤ j) (hj : j ≤ bs.length)
    (h : start + len ≤ 8 * (j - i)) : bitField (slice bs i j) start len = bitField bs (8 * i + start) len := by
  have hlen : (bs.take j).length = j := by rw [List.length_take, Nat.min_eq_left hj]
  rw [slice, bitField_drop (by rwa [hlen]) (by rwa [hlen]), bitField_take hj (by omega)]

/-- Whole bytes are a field. -/
theorem beNat_slice {bs : Bytes} {i j : ℕ} (hij : i ≤ j) (hj : j ≤ bs.length) :
    beNat (slice bs i j) = bitField bs (8 * i) (8 * (j - i)) := by
  have hlen : (slice bs i j).length = j - i := by rw [length_slice, Nat.min_eq_left hj]
  rw [← bitField_all, hlen, bitField_slice hij hj (by omega), Nat.add_zero]

/-- The last bits of a slice. -/
theorem beNat_slice_mod {bs : Bytes} {i j b : ℕ} (hij : i ≤ j) (hj : j ≤ bs.length) (hb : b ≤ 8 * (j - i)) :
    beNat (slice bs i j) % 2 ^ b = bitField bs (8 * j - b) b := by
  have hlen : (slice bs i j).length = j - i := by rw [length_slice, Nat.min_eq_left hj]
  rw [beNat_mod (by omega), hlen, bitField_slice hij hj (by omega)]
  congr 1
  omega

/-- **A field of a field.** -/
theorem bitField_sub {bs : Bytes} {start len off n : ℕ} (hoff : off + n ≤ len) (h : start + len ≤ 8 * bs.length) :
    bitField bs start len / 2 ^ (len - (off + n)) % 2 ^ n = bitField bs (start + off) n := by
  set e := 8 * bs.length - (start + len) with he
  have hexp : 8 * bs.length - (start + off + n) = e + (len - (off + n)) := by omega
  obtain ⟨r, hr⟩ : ∃ r, len = (len - (off + n)) + (n + r) := ⟨off, by omega⟩
  set k := len - (off + n)
  rw [bitField, bitField, ← he, hexp, pow_add, ← Nat.div_div_eq_div_mul, hr, pow_add, Nat.mod_mul_right_div_self, pow_add,
    Nat.mod_mul_right_mod]

/-- The first bits of a field need no mask. -/
theorem bitField_sub_zero {bs : Bytes} {start len n : ℕ} (hn : n ≤ len) (h : start + len ≤ 8 * bs.length) :
    bitField bs start len / 2 ^ (len - n) = bitField bs start n := by
  have hlt : bitField bs start len / 2 ^ (len - n) < 2 ^ n := by
    rw [Nat.div_lt_iff_lt_mul (Nat.two_pow_pos _), ← pow_add, Nat.add_sub_cancel' hn]
    exact bitField_lt bs start len
  rw [← Nat.mod_eq_of_lt hlt]
  simpa using @bitField_sub bs start len 0 n (by simpa using hn) h

/-! ### Bits one by one -/

/-- The `w` lowest bits of `v`, most significant first. -/
def beBits : ℕ → ℕ → List Bool
  | 0, _ => []
  | w + 1, v => v.testBit w :: beBits w v

/-- The number that bits spell, most significant first. -/
def ofBits (l : List Bool) : ℕ := l.foldl (fun v bit => 2 * v + bit.toNat) 0

/-- The bits of a string: those of its first byte, of the second one, and so on. -/
def toBits (bs : Bytes) : List Bool := bs.flatMap fun b => beBits 8 b.toNat

@[simp] theorem length_beBits (w v : ℕ) : (beBits w v).length = w := by
  induction w with
  | zero => rfl
  | succ w ih => rw [beBits, List.length_cons, ih]

@[simp] theorem length_toBits (bs : Bytes) : (toBits bs).length = 8 * bs.length := by
  simp [toBits, List.length_flatMap, Nat.mul_comm]

theorem ofBits_append (k l : List Bool) : ofBits (k ++ l) = ofBits k * 2 ^ l.length + ofBits l := by
  -- What is spelled already only moves up, by one place for each bit to come.
  have hfold (l : List Bool) (v : ℕ) :
      l.foldl (fun v bit => 2 * v + bit.toNat) v = v * 2 ^ l.length + ofBits l := by
    induction l generalizing v with
    | nil => simp [ofBits]
    | cons bit l ih =>
      rw [ofBits, List.foldl_cons, List.foldl_cons, ih, ih, List.length_cons, pow_succ]
      ring
  rw [ofBits, List.foldl_append, hfold l]
  rfl

theorem ofBits_cons (bit : Bool) (l : List Bool) : ofBits (bit :: l) = bit.toNat * 2 ^ l.length + ofBits l := by
  simpa [ofBits] using ofBits_append [bit] l

theorem ofBits_lt (l : List Bool) : ofBits l < 2 ^ l.length := by
  induction l with
  | nil => simp [ofBits]
  | cons bit l ih =>
    have hbit : bit.toNat * 2 ^ l.length ≤ 1 * 2 ^ l.length := Nat.mul_le_mul_right _ bit.toNat_le
    rw [ofBits_cons, List.length_cons, pow_succ]
    omega

@[simp] theorem ofBits_beBits (w v : ℕ) : ofBits (beBits w v) = v % 2 ^ w := by
  induction w with
  | zero => simp [beBits, ofBits, Nat.mod_one]
  | succ w ih =>
    rw [beBits, ofBits_cons, ih, length_beBits, Nat.toNat_testBit, Nat.mod_pow_succ]
    ring

/-- A string spells the same number in bits as in bytes. -/
@[simp] theorem ofBits_toBits (bs : Bytes) : ofBits (toBits bs) = beNat bs := by
  induction bs with
  | nil => rfl
  | cons b bs ih =>
    have hbyte : ofBits (beBits 8 b.toNat) = b.toNat := by
      rw [ofBits_beBits, Nat.mod_eq_of_lt b.toNat_lt]
    have hcons : toBits (b :: bs) = beBits 8 b.toNat ++ toBits bs := List.flatMap_cons
    rw [hcons, ofBits_append, hbyte, ih, length_toBits, ← pow_256, ← List.singleton_append, beNat_append, beNat_singleton]

/-- A part of the bits is cut out of the number. -/
theorem ofBits_slice {l : List Bool} {i j : ℕ} (hij : i ≤ j) (hj : j ≤ l.length) :
    ofBits (slice l i j) = ofBits l / 2 ^ (l.length - j) % 2 ^ (j - i) := by
  have hparts : l = l.take i ++ slice l i j ++ l.drop j := by
    rw [← slice_zero, slice_append_slice (Nat.zero_le i) hij, slice_zero, List.take_append_drop]
  have hlen : (slice l i j).length = j - i := by rw [length_slice, Nat.min_eq_left hj]
  have hvalue : ofBits l =
      (ofBits (l.take i) * 2 ^ (j - i) + ofBits (slice l i j)) * 2 ^ (l.length - j) + ofBits (l.drop j) := by
    conv_lhs => rw [hparts]
    rw [ofBits_append, ofBits_append, hlen, List.length_drop]
  have hrest : ofBits (l.drop j) < 2 ^ (l.length - j) := List.length_drop ▸ ofBits_lt (l.drop j)
  have hpart : ofBits (slice l i j) < 2 ^ (j - i) := hlen ▸ ofBits_lt (slice l i j)
  rw [hvalue, Nat.mul_comm, Nat.mul_add_div (Nat.two_pow_pos _), Nat.div_eq_of_lt hrest, Nat.add_zero, Nat.mul_comm,
    Nat.mul_add_mod, Nat.mod_eq_of_lt hpart]

/-- **A field is the number that its bits spell.** -/
theorem bitField_eq {bs : Bytes} {start len : ℕ} (h : start + len ≤ 8 * bs.length) :
    bitField bs start len = ofBits (slice (toBits bs) start (start + len)) := by
  rw [ofBits_slice (Nat.le_add_right _ _) (by rwa [length_toBits]), ofBits_toBits, length_toBits, Nat.add_sub_cancel_left,
    bitField]

end KaspaPqv.Lib
