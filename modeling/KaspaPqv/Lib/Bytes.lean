import KaspaPqv.Lib.Lists
import Mathlib.Data.Vector.Basic
import Mathlib.Tactic.Ring
import Mathlib.Tactic.Linarith

/-!
# Byte strings and fixed-width integers

Byte strings are lists; a string of a known length is a `Block`, whose length is
part of its type. Natural numbers are laid out on a fixed number of bytes, least
significant first (`leBytes`) or most significant first (`beBytes`); what does not
fit is dropped, as a cast to a fixed-width integer drops it.

## What is proved

* `leNat_leBytes`, `beNat_beBytes` — reading back gives the value modulo `256 ^ w`,
  so layouts of values that fit are equal only for equal values (`leBytes_inj`,
  `beBytes_inj`).
* `leBytes_leNat`, `beBytes_beNat` — every string is the layout of the number it spells.
* `beNat_append`, `beNat_singleton` — how a number is read byte by byte.
-/

namespace KaspaPqv.Lib

/-- A byte string. -/
abbrev Bytes := List UInt8

/-- A byte string of `n` bytes. -/
abbrev Block (n : ℕ) := List.Vector UInt8 n

/-- The bytes of a block. -/
abbrev Block.bytes {n : ℕ} (b : Block n) : Bytes := b.toList

@[simp] theorem Block.length_bytes {n : ℕ} (b : Block n) : b.bytes.length = n := b.2

theorem Block.ext {n : ℕ} {a b : Block n} (h : a.bytes = b.bytes) : a = b := Subtype.ext h

/-- `n` zero bytes. -/
def zeros (n : ℕ) : Bytes := List.replicate n 0

@[simp] theorem length_zeros (n : ℕ) : (zeros n).length = n := by simp [zeros]

/-- The block of a string that has the right length. -/
def Block.ofBytes {n : ℕ} (bs : Bytes) (h : bs.length = n) : Block n := ⟨bs, h⟩

@[simp] theorem Block.bytes_ofBytes {n : ℕ} (bs : Bytes) (h : bs.length = n) :
    (Block.ofBytes bs h).bytes = bs := rfl

/-- The zero block. -/
def Block.zero (n : ℕ) : Block n := .ofBytes (zeros n) (length_zeros n)

instance {n : ℕ} : Inhabited (Block n) := ⟨Block.zero n⟩

/-! ### Little-endian -/

/-- The `w` bytes of `v`, least significant first. -/
def leBytes : ℕ → ℕ → Bytes
  | 0, _ => []
  | w + 1, v => UInt8.ofNat v :: leBytes w (v / 256)

/-- The number a string spells, least significant byte first. -/
def leNat : Bytes → ℕ
  | [] => 0
  | b :: bs => b.toNat + 256 * leNat bs

@[simp] theorem length_leBytes (w v : ℕ) : (leBytes w v).length = w := by
  induction w generalizing v with
  | zero => rfl
  | succ w ih => simp [leBytes, ih]

@[simp] theorem leNat_leBytes (w v : ℕ) : leNat (leBytes w v) = v % 256 ^ w := by
  induction w generalizing v with
  | zero => simp [leBytes, leNat, Nat.mod_one]
  | succ w ih =>
    have hb : (UInt8.ofNat v).toNat = v % 256 := by simp
    rw [leBytes, leNat, ih, hb, pow_succ', Nat.mod_mul]

theorem leBytes_inj {w a b : ℕ} (ha : a < 256 ^ w) (hb : b < 256 ^ w)
    (h : leBytes w a = leBytes w b) : a = b := by
  have := congrArg leNat h
  rwa [leNat_leBytes, leNat_leBytes, Nat.mod_eq_of_lt ha, Nat.mod_eq_of_lt hb] at this

theorem leNat_lt (bs : Bytes) : leNat bs < 256 ^ bs.length := by
  induction bs with
  | nil => simp [leNat]
  | cons b bs ih =>
    have := b.toNat_lt
    rw [leNat, List.length_cons, pow_succ]
    omega

theorem leBytes_leNat (bs : Bytes) : leBytes bs.length (leNat bs) = bs := by
  induction bs with
  | nil => rfl
  | cons b bs ih =>
    have hb := b.toNat_lt
    have hdiv : (b.toNat + 256 * leNat bs) / 256 = leNat bs := by omega
    have hmod : UInt8.ofNat (b.toNat + 256 * leNat bs) = b := by
      apply UInt8.toNat_inj.mp
      simp
    rw [List.length_cons, leNat, leBytes, hdiv, hmod, ih]

theorem leNat_append (as bs : Bytes) : leNat (as ++ bs) = leNat as + 256 ^ as.length * leNat bs := by
  induction as with
  | nil => simp [leNat]
  | cons a as ih => simp only [List.cons_append, leNat, ih, List.length_cons, pow_succ]; ring

@[simp] theorem leNat_zeros (n : ℕ) : leNat (zeros n) = 0 := by
  induction n with
  | zero => rfl
  | succ n ih => simpa [zeros, List.replicate_succ, leNat] using ih

/-- Widening a layout that holds its value adds zero bytes. -/
theorem leBytes_add {w v : ℕ} (h : v < 256 ^ w) (n : ℕ) :
    leBytes (w + n) v = leBytes w v ++ zeros n := by
  have hspell : leNat (leBytes w v ++ zeros n) = v := by
    rw [leNat_append, leNat_leBytes, leNat_zeros, Nat.mod_eq_of_lt h, Nat.mul_zero, Nat.add_zero]
  have := leBytes_leNat (leBytes w v ++ zeros n)
  rwa [hspell, List.length_append, length_leBytes, length_zeros] at this

/-! ### Big-endian -/

/-- The `w` bytes of `v`, most significant first. -/
def beBytes (w v : ℕ) : Bytes := (leBytes w v).reverse

/-- The number a string spells, most significant byte first. -/
def beNat (bs : Bytes) : ℕ := leNat bs.reverse

@[simp] theorem length_beBytes (w v : ℕ) : (beBytes w v).length = w := by simp [beBytes]

@[simp] theorem beNat_beBytes (w v : ℕ) : beNat (beBytes w v) = v % 256 ^ w := by
  simp [beNat, beBytes]

theorem beBytes_inj {w a b : ℕ} (ha : a < 256 ^ w) (hb : b < 256 ^ w)
    (h : beBytes w a = beBytes w b) : a = b :=
  leBytes_inj ha hb (List.reverse_injective h)

theorem beNat_lt (bs : Bytes) : beNat bs < 256 ^ bs.length := by
  simpa [beNat] using leNat_lt bs.reverse

theorem beBytes_beNat (bs : Bytes) : beBytes bs.length (beNat bs) = bs := by
  have := leBytes_leNat bs.reverse
  rw [List.length_reverse] at this
  rw [beBytes, beNat, this, List.reverse_reverse]

theorem beNat_append (as bs : Bytes) : beNat (as ++ bs) = beNat as * 256 ^ bs.length + beNat bs := by
  rw [beNat, List.reverse_append, leNat_append, List.length_reverse]
  simp only [beNat]
  ring

@[simp] theorem beNat_singleton (b : UInt8) : beNat [b] = b.toNat := by simp [beNat, leNat]

@[simp] theorem beNat_nil : beNat [] = 0 := rfl

/-- Widening a layout that holds its value adds zero bytes in front. -/
theorem beBytes_add {w v : ℕ} (h : v < 256 ^ w) (n : ℕ) :
    beBytes (n + w) v = zeros n ++ beBytes w v := by
  rw [beBytes, Nat.add_comm, leBytes_add h, List.reverse_append, beBytes]
  simp [zeros]

/-- A shorter layout is a part of a longer one. -/
theorem leBytes_take {w n : ℕ} (h : w ≤ n) (v : ℕ) : (leBytes n v).take w = leBytes w v := by
  induction w generalizing n v with
  | zero => rfl
  | succ w ih =>
    obtain ⟨n, rfl⟩ := Nat.exists_eq_succ_of_ne_zero (by omega : n ≠ 0)
    rw [leBytes, leBytes, List.take_succ_cons, ih (by omega)]

theorem beBytes_drop {w n : ℕ} (h : w ≤ n) (v : ℕ) : (beBytes n v).drop (n - w) = beBytes w v := by
  rw [beBytes, beBytes, ← leBytes_take h, List.drop_reverse, length_leBytes, Nat.sub_sub_self h]

end KaspaPqv.Lib
