import KaspaPqv.Lib.Hex
import KaspaPqv.Lib.Lines

/-!
# The records of the spend journal

One record a line, `vault_id:leaf:digest:signature`, everything but the leaf in hex; how
a line is written and how it is read back. The text of a journal that was written is ASCII, so
a character here is a byte of the file; what any other text is read as is in
`LmsWallet.AnyText`.

## What is proved

* `parseLine_append_recordText` — a line that ends in the text of a record reads as that
  record, or not at all: nothing put in front of it can make it another one.
-/

namespace KaspaPqv.LmsWallet

open KaspaPqv.Lib

/-- Identifies one one-time key: which vault, which leaf. -/
structure LeafId where
  vaultId : Block 16
  leaf : UInt32
  deriving DecidableEq

/-- That a leaf has signed, and what. -/
structure SpendRecord where
  leaf : LeafId
  digest : Block 32
  signature : Bytes
  deriving DecidableEq

/-- A block of one byte. -/
def blockOf (n : ℕ) (b : UInt8) : Block n := .ofBytes (List.replicate n b) List.length_replicate

/-- Two leaves of two vaults; the hex of the second one's identifier begins with `cd`. -/
def leafA : LeafId := ⟨blockOf 16 0x11, 1⟩
def leafB : LeafId := ⟨blockOf 16 0xcd, 2⟩

/-! ### Writing -/

/-- The line of a record, without the newline. -/
def recordText (r : SpendRecord) : List Char :=
  toHex r.leaf.vaultId.bytes ++ ':' :: (Nat.toDigits 10 r.leaf.leaf.toNat ++ ':' ::
    (toHex r.digest.bytes ++ ':' :: toHex r.signature))

/-! ### Reading -/

/-- An even number of hex digits, and at least one pair. -/
def fromHex (s : List Char) : Option Bytes :=
  if s.length % 2 ≠ 0 ∨ s = [] then none else hexPairs s

/-- `u32::from_str`: decimal digits, with or without a plus sign in front. -/
def parseU32 (s : List Char) : Option UInt32 :=
  let digits := stripPlus s
  if digits ≠ [] ∧ digits.all Char.isDigit ∧ Nat.ofDigitChars 10 digits 0 < 2 ^ 32 then
    some (UInt32.ofNat (Nat.ofDigitChars 10 digits 0))
  else none

/-- A block, if the bytes have its length. -/
def toBlock (n : ℕ) (bytes : Bytes) : Option (Block n) :=
  if h : bytes.length = n then some (.ofBytes bytes h) else none

/-- Read the four fields of a line. -/
def parseFields (vaultId leaf digest signature : List Char) : Option SpendRecord := do
  let vaultId ← fromHex vaultId
  let leaf ← parseU32 leaf
  let digest ← fromHex digest
  let signature ← fromHex signature
  let vaultId ← toBlock 16 vaultId
  let digest ← toBlock 32 digest
  some ⟨⟨vaultId, leaf⟩, digest, signature⟩

/-- Read a line, of exactly four fields. -/
def parseLine (line : List Char) : Option SpendRecord :=
  match (trim line).splitOn ':' with
  | [vaultId, leaf, digest, signature] => parseFields vaultId leaf digest signature
  | _ => none

/-! ### Hex digits -/

theorem fromHex_eq_some {s : List Char} {bs : Bytes} : fromHex s = some bs ↔ s ≠ [] ∧ Reads s bs := by
  unfold fromHex
  constructor
  · intro h
    split_ifs at h with hs
    push Not at hs
    exact ⟨hs.2, hexPairs_eq_some.mp h⟩
  · rintro ⟨hne, hreads⟩
    have hlen := length_of_reads hreads
    rw [if_neg (by simp [hlen, hne]), hexPairs_eq_some]
    exact hreads

theorem reads_toHex (bytes : Bytes) : Reads (toHex bytes) bytes := hexPairs_eq_some.mp (hexPairs_toHex bytes)

/-- What is read of the digits of some bytes is these bytes. -/
theorem eq_of_reads_toHex {bytes bs : Bytes} (h : Reads (toHex bytes) bs) : bs = bytes := by
  have hbs := hexPairs_eq_some.mpr h
  rw [hexPairs_toHex] at hbs
  exact (Option.some.inj hbs).symm

theorem fromHex_toHex_of_ne_nil {bytes : Bytes} (h : bytes ≠ []) : fromHex (toHex bytes) = some bytes := by
  refine fromHex_eq_some.mpr ⟨fun hnil => h (List.eq_nil_of_length_eq_zero ?_), reads_toHex bytes⟩
  have hlen := length_toHex bytes
  rw [hnil, List.length_nil] at hlen
  omega

theorem toBlock_eq_some {n : ℕ} {bytes : Bytes} {b : Block n} : toBlock n bytes = some b ↔ bytes = b.bytes := by
  constructor
  · intro h
    unfold toBlock at h
    split_ifs at h
    cases h
    rfl
  · rintro rfl
    rw [toBlock, dif_pos b.length_bytes]
    rfl

/-! ### The fields of a line -/

theorem isDigit_toDigits {n : ℕ} {c : Char} (hc : c ∈ Nat.toDigits 10 n) : c.isDigit :=
  Nat.isDigit_of_mem_toDigits (by norm_num) (by norm_num) hc

theorem parseU32_toDigits (n : UInt32) : parseU32 (Nat.toDigits 10 n.toNat) = some n := by
  have hplus : '+' ∉ Nat.toDigits 10 n.toNat := fun h => absurd (isDigit_toDigits h) (by decide)
  have hdigits : (Nat.toDigits 10 n.toNat).all Char.isDigit = true :=
    List.all_eq_true.mpr fun _ => isDigit_toDigits
  rw [parseU32, stripPlus_of_not_mem hplus, Nat.ofDigitChars_ten_toDigits,
    if_pos ⟨Nat.toDigits_ne_nil, hdigits, n.toNat_lt⟩, UInt32.ofNat_toNat]

theorem colon_not_mem_toHex (bytes : Bytes) : ':' ∉ toHex bytes := fun h => absurd (mem_toHex h) (by decide)

theorem colon_not_mem_toDigits (n : ℕ) : ':' ∉ Nat.toDigits 10 n := fun h =>
  absurd (isDigit_toDigits h) (by decide)

theorem isWhitespace_of_isDigit {c : Char} (h : c.isDigit) : isWhitespace c = false := by
  simp only [Char.isDigit, Bool.and_eq_true, decide_eq_true_eq, ge_iff_le, UInt32.le_iff_toNat_le] at h
  have hlo : 48 ≤ c.toNat := h.1
  have hhi : c.toNat ≤ 57 := h.2
  exact isWhitespace_of_printable (by omega) (by omega)

/-- A record is written without white space. -/
theorem isWhitespace_recordText (r : SpendRecord) : ∀ c ∈ recordText r, isWhitespace c = false := by
  have hhex : ∀ c ∈ "0123456789abcdef".toList, isWhitespace c = false := by simp [isWhitespace]
  intro c hc
  simp only [recordText, List.mem_append, List.mem_cons] at hc
  rcases hc with h | rfl | h | rfl | h | rfl | h
  · exact hhex c (mem_toHex h)
  · rfl
  · exact isWhitespace_of_isDigit (isDigit_toDigits h)
  · rfl
  · exact hhex c (mem_toHex h)
  · rfl
  · exact hhex c (mem_toHex h)

/-- **What four fields are read as.** -/
theorem parseFields_eq_some {v n d s : List Char} {r : SpendRecord} : parseFields v n d s = some r ↔
    (v ≠ [] ∧ Reads v r.leaf.vaultId.bytes) ∧ parseU32 n = some r.leaf.leaf ∧
      (d ≠ [] ∧ Reads d r.digest.bytes) ∧ s ≠ [] ∧ Reads s r.signature := by
  simp only [parseFields, Option.bind_eq_bind, Option.bind_eq_some_iff, fromHex_eq_some, toBlock_eq_some]
  constructor
  · rintro ⟨vault, hv, leaf, hn, digest, hd, signature, hs, vault', rfl, digest', rfl, h⟩
    cases h
    exact ⟨hv, hn, hd, hs⟩
  · rintro ⟨hv, hn, hd, hs⟩
    exact ⟨_, hv, _, hn, _, hd, _, hs, _, rfl, _, rfl, rfl⟩

/-- The fields of a record, the first one with something in front: read as the record
if it is nothing, and not at all otherwise. -/
theorem parseFields_append {q : List Char} {r r' : SpendRecord}
    (h : parseFields (q ++ toHex r.leaf.vaultId.bytes) (Nat.toDigits 10 r.leaf.leaf.toNat)
      (toHex r.digest.bytes) (toHex r.signature) = some r') : r' = r := by
  obtain ⟨⟨-, hvault⟩, hleaf, ⟨-, hdigest⟩, -, hsignature⟩ := parseFields_eq_some.mp h
  have hlength := length_of_reads hvault
  rw [List.length_append, length_toHex, Block.length_bytes, Block.length_bytes] at hlength
  obtain rfl := List.eq_nil_of_length_eq_zero (show q.length = 0 by omega)
  have hvaultId : r'.leaf.vaultId = r.leaf.vaultId := Block.ext (eq_of_reads_toHex hvault)
  rw [parseU32_toDigits] at hleaf
  obtain ⟨⟨vaultId, leaf⟩, digest, signature⟩ := r'
  obtain rfl : vaultId = r.leaf.vaultId := hvaultId
  obtain rfl : r.leaf.leaf = leaf := Option.some.inj hleaf
  obtain rfl : digest = r.digest := Block.ext (eq_of_reads_toHex hdigest)
  obtain rfl : signature = r.signature := eq_of_reads_toHex hsignature
  rfl

theorem splitOn_recordText (q : List Char) (r : SpendRecord) : (q ++ recordText r).splitOn ':' =
    (q ++ toHex r.leaf.vaultId.bytes).splitOn ':' ++
      [Nat.toDigits 10 r.leaf.leaf.toNat, toHex r.digest.bytes, toHex r.signature] := by
  rw [recordText, ← List.append_assoc, List.splitOn_append_cons_self,
    List.splitOn_append_cons_self_of_not_mem (colon_not_mem_toDigits _),
    List.splitOn_append_cons_self_of_not_mem (colon_not_mem_toHex _),
    List.splitOn_eq_singleton (colon_not_mem_toHex _)]

/-- **A line that ends in the text of a record** reads as that record, or not at all. -/
theorem parseLine_append_recordText {q : List Char} (hq : ∀ c ∈ q, isWhitespace c = false) {r r' : SpendRecord}
    (h : parseLine (q ++ recordText r) = some r') : r' = r := by
  have htrim : trim (q ++ recordText r) = q ++ recordText r :=
    trim_eq_self (List.forall_mem_append.mpr ⟨hq, isWhitespace_recordText r⟩)
  rw [parseLine, htrim, splitOn_recordText] at h
  by_cases hcolon : ':' ∈ q
  · -- a colon in front makes more than four fields
    obtain ⟨a, b, rfl⟩ := List.append_of_mem hcolon
    rw [List.append_assoc, List.cons_append, List.splitOn_append_cons_self] at h
    obtain ⟨x, xs, hx⟩ := List.exists_cons_of_ne_nil (List.splitOn_ne_nil ':' a)
    obtain ⟨y, ys, hy⟩ := List.exists_cons_of_ne_nil (List.splitOn_ne_nil ':' (b ++ toHex r.leaf.vaultId.bytes))
    rw [hx, hy] at h
    split at h
    · rename_i hfour
      have := congrArg List.length hfour
      simp at this
      omega
    · cases h
  · have hfirst : ':' ∉ q ++ toHex r.leaf.vaultId.bytes := by
      simp [hcolon, colon_not_mem_toHex]
    rw [List.splitOn_eq_singleton hfirst] at h
    exact parseFields_append h

end KaspaPqv.LmsWallet
