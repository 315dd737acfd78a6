import KaspaPqv.Lib.Buffer
import KaspaPqv.Lib.IteratedHash
import KaspaPqv.SlhScript.Adrs
import KaspaPqv.SlhScript.Digits

/-!
# The midstate

Every hash starts with the same block, the public seed and its padding. The signer
compresses this block once for a key, and resumes each hash from there: it lays the rest
of the message out in a buffer of fixed size, pads it by hand, and compresses the blocks.

The compression function is a parameter; `sha256Of` is SHA-256 over it, the standard's
padding and iteration. A failed assertion or a copy that does not fit is `none`.

## What is proved

* `hash_eq` — resuming from the midstate is the plain hash, for every message that
  the buffer holds.
-/

namespace KaspaPqv.SlhScript

open KaspaPqv.Lib

/-! ### SHA-256 -/

/-- The state of the compression function. -/
abbrev Words := List.Vector UInt32 8

/-- The initial hash value. -/
def SHA256_IV : Words :=
  ⟨[0x6a09e667, 0xbb67ae85, 0x3c6ef372, 0xa54ff53a, 0x510e527f, 0x9b05688c, 0x1f83d9ab, 0x5be0cd19], rfl⟩

/-- Words laid out in bytes. -/
def wordBytes (words : List UInt32) : Bytes := words.flatMap fun word => beBytes 4 word.toNat

/-- The padding of a message of a length: one bit, zeros up to eight bytes before the end of
a block, and the length in bits. -/
def sha256Padding (len : ℕ) : Bytes := 0x80 :: (zeros ((119 - len % 64) % 64) ++ beBytes 8 (len * 8))

@[simp] theorem length_wordBytes (words : List UInt32) : (wordBytes words).length = words.length * 4 := by
  simp [wordBytes, List.length_flatMap]

theorem wordBytes_take (words : List UInt32) (n : ℕ) : (wordBytes words).take (n * 4) = wordBytes (words.take n) := by
  induction words generalizing n with
  | nil => simp [wordBytes]
  | cons word words ih =>
    cases n with
    | zero => simp [wordBytes]
    | succ n =>
      have hword : (beBytes 4 word.toNat).length = 4 := length_beBytes 4 _
      have hrest := ih n
      unfold wordBytes at hrest ⊢
      rw [List.flatMap_cons, List.take_succ_cons, List.flatMap_cons, ← hrest, Nat.succ_mul, Nat.add_comm, List.take_append,
        hword, Nat.add_sub_cancel_left, List.take_of_length_le (by omega)]

variable (compress256 : Words → Bytes → Words)

/-- SHA-256 of a message. -/
def sha256Of (msg : Bytes) : Block 32 :=
  .ofBytes (wordBytes (iterate compress256 64 SHA256_IV (msg ++ sha256Padding msg.length)).toList) (by simp)

/-! ### Resuming -/

/-- The buffer of one hash. -/
def BUF_LEN : ℕ := 1280

/-- The state after the first block. -/
structure Midstate where
  state : Words

/-- The midstate of a public seed. -/
def Midstate.new (pkSeed : Hash) : Option Midstate := do
  let block ← copyInto (zeros 64) 0 pkSeed.bytes
  some { state := compress256 SHA256_IV block }

/-- The first words of a state, in bytes. -/
def truncWords (state : Words) : Hash := .ofBytes (wordBytes (state.toList.take (N / 4))) (by simp [N])

/-- The hash of a message at an address. -/
def Midstate.hash (mid : Midstate) (adrs : Adrs) (parts : List Bytes) : Option Hash := do
  let tail := (parts.map List.length).sum
  let total := 64 + ADRS_LEN + tail
  let buf := zeros BUF_LEN
  if ADRS_LEN + tail + 72 ≤ BUF_LEN then
    let buf ← copyInto buf 0 adrs.asBytes
    let (buf, start) ← copyAll buf ADRS_LEN parts
    let buf ← copyInto buf start [0x80]
    let start := start + 1
    let padded := divCeil (start + 8) 64 * 64
    let buf ← copyInto buf (padded - 8) (beBytes 8 (total * 8))
    let blocks ← sub? buf 0 padded
    some (truncWords (iterate compress256 64 mid.state blocks))
  else none

/-! ### The same hash -/

/-- The first block of every message. -/
theorem length_hashPad (pkSeed : Hash) : (hashPad pkSeed).length = 64 := by
  rw [hashPad, List.length_append, Block.length_bytes, length_zeros]
  rfl

theorem new_eq (pkSeed : Hash) :
    Midstate.new compress256 pkSeed = some ⟨iterate compress256 64 SHA256_IV (hashPad pkSeed)⟩ := by
  have hroom : pkSeed.bytes.length ≤ 64 := by
    rw [Block.length_bytes, N]
    omega
  have hcopy := copyInto_zeros [] pkSeed.bytes hroom
  simp only [List.nil_append, List.length_nil, Block.length_bytes] at hcopy
  rw [Midstate.new, hcopy, iterate_block (by norm_num) _ (length_hashPad pkSeed)]
  rfl

/-- The first bytes of a digest are the first words of the state. -/
theorem truncN_sha256Of (msg : Bytes) :
    truncN (sha256Of compress256 msg) =
      truncWords (iterate compress256 64 SHA256_IV (msg ++ sha256Padding msg.length)) :=
  Block.ext (wordBytes_take _ 4)

/-- The message with its padding ends at the block that the buffer is cut at. -/
theorem padded_eq (len : ℕ) :
    len + 1 + (119 - (64 + len) % 64) % 64 + 8 = divCeil (len + 1 + 8) 64 * 64 := by
  rw [divCeil]
  omega

/-- What is written into the buffer: the message and its padding, up to the end of a block. -/
theorem sub?_zeros {blocks : Bytes} {n : ℕ} (h : blocks.length = n) (room : ℕ) : sub? (blocks ++ zeros room) 0 n = some blocks := by
  rw [sub?, if_pos ⟨Nat.zero_le _, by simp [h]⟩, slice_zero, ← h, List.take_left]

/-- **Resuming is hashing**, for every message that the buffer holds. -/
theorem hash_eq (pkSeed : Hash) (adrs : Adrs) {parts : List Bytes} (h : parts.flatten.length ≤ 1186) :
    ((Midstate.new compress256 pkSeed).bind fun mid => mid.hash compress256 adrs parts) =
      some (hash (sha256Of compress256) pkSeed adrs parts) := by
  have htail : (parts.map List.length).sum = parts.flatten.length := List.length_flatten.symm
  have hmsg : (adrs.asBytes ++ parts.flatten).length = 22 + parts.flatten.length := by simp [ADRS_LEN]
  generalize hlen : parts.flatten.length = tail at *
  have hpad := padded_eq (22 + tail)
  generalize hgap : (119 - (64 + (22 + tail)) % 64) % 64 = gap at hpad
  have hstart : divCeil (22 + tail + 1 + 8) 64 * 64 - 8 = 22 + tail + 1 + gap := by omega
  -- the four writes, each behind the one before
  have hadrs : copyInto (zeros BUF_LEN) 0 adrs.asBytes = some (adrs.asBytes ++ zeros 1258) := by
    have hfits : adrs.asBytes.length ≤ BUF_LEN := by rw [adrs.length_asBytes, ADRS_LEN, BUF_LEN]; omega
    have hcopy := copyInto_zeros [] adrs.asBytes hfits
    rwa [List.nil_append, List.nil_append, adrs.length_asBytes] at hcopy
  have hparts : copyAll (adrs.asBytes ++ zeros 1258) ADRS_LEN parts =
      some (adrs.asBytes ++ parts.flatten ++ zeros (1258 - tail), 22 + tail) := by
    have hcopy := copyAll_zeros adrs.asBytes parts (show parts.flatten.length ≤ 1258 by omega)
    rwa [adrs.length_asBytes, hmsg, hlen] at hcopy
  have hbit : copyInto (adrs.asBytes ++ parts.flatten ++ zeros (1258 - tail)) (22 + tail) [0x80] =
      some (adrs.asBytes ++ parts.flatten ++ [0x80] ++ zeros (1257 - tail)) := by
    have hcopy := copyInto_zeros (adrs.asBytes ++ parts.flatten) [0x80] (show [(0x80 : UInt8)].length ≤ 1258 - tail by simp; omega)
    rwa [hmsg, List.length_singleton, Nat.sub_right_comm] at hcopy
  have hfield : copyInto (adrs.asBytes ++ parts.flatten ++ [0x80] ++ zeros (1257 - tail))
      (divCeil (22 + tail + 1 + 8) 64 * 64 - 8) (beBytes 8 ((64 + ADRS_LEN + tail) * 8)) =
      some (adrs.asBytes ++ parts.flatten ++ [0x80] ++ zeros gap ++ beBytes 8 ((64 + ADRS_LEN + tail) * 8) ++
        zeros (1257 - tail - (gap + 8))) := by
    have hcopy := copyInto_gap (adrs.asBytes ++ parts.flatten ++ [0x80]) (beBytes 8 ((64 + ADRS_LEN + tail) * 8))
      (show gap + (beBytes 8 ((64 + ADRS_LEN + tail) * 8)).length ≤ 1257 - tail by rw [length_beBytes]; omega)
    rwa [List.length_append, hmsg, List.length_singleton, length_beBytes, ← hstart] at hcopy
  have hblocks : (adrs.asBytes ++ parts.flatten ++ [0x80] ++ zeros gap ++ beBytes 8 ((64 + ADRS_LEN + tail) * 8)).length =
      divCeil (22 + tail + 1 + 8) 64 * 64 := by
    simp only [List.length_append, List.length_singleton, length_zeros, length_beBytes] at hmsg ⊢
    omega
  have hwhole : hashPad pkSeed ++ adrs.asBytes ++ parts.flatten ++
      sha256Padding (hashPad pkSeed ++ adrs.asBytes ++ parts.flatten).length =
      hashPad pkSeed ++ (adrs.asBytes ++ parts.flatten ++ [0x80] ++ zeros gap ++ beBytes 8 ((64 + ADRS_LEN + tail) * 8)) := by
    rw [List.append_assoc (hashPad pkSeed), List.length_append, hmsg, length_hashPad, sha256Padding, hgap, ADRS_LEN,
      Nat.add_assoc 64]
    simp only [List.append_assoc, List.cons_append, List.nil_append]
  rw [new_eq, Option.bind_some, hash, truncN_sha256Of, hwhole, iterate_append (by norm_num) _ (k := 1) (length_hashPad pkSeed),
    Midstate.hash, htail, if_pos (by rw [ADRS_LEN, BUF_LEN]; omega)]
  simp only [Option.bind_eq_bind]
  rw [hadrs, Option.bind_some, hparts, Option.bind_some, hbit, Option.bind_some, hfield, Option.bind_some,
    sub?_zeros hblocks, Option.bind_some]

end KaspaPqv.SlhScript
