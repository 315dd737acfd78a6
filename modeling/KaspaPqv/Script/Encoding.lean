import KaspaPqv.Lib.Bytes
import KaspaPqv.Lib.Delimited
import KaspaPqv.Script.Engine

/-!
# Scripts as bytes

A script builder writes instructions one after the other: of an opcode its byte, of a push the
shortest there is. The empty string and the numbers from -1 to 16 have opcodes of their own; any
other push is the string behind its length.

No node takes a push whose length does not fit four bytes. Here such a length is counted out, so
that every script has its bytes.

## What is proved

* `readInstr_encodeInstr` — an instruction can be read from its bytes, whatever follows.
* `encodeScript_injective` — so the instructions can be told from the bytes.
-/

namespace KaspaPqv.Script

open KaspaPqv.Lib

/-! ### Writing -/

/-- The byte of an opcode. -/
def Opcode.byte : Opcode → UInt8
  | .OpIf => 0x63 | .OpEndIf => 0x68
  | .OpToAltStack => 0x6b | .OpFromAltStack => 0x6c
  | .OpSwap => 0x7c | .OpDup => 0x76 | .OpOver => 0x78 | .OpDrop => 0x75
  | .OpNip => 0x77 | .OpPick => 0x79 | .OpRoll => 0x7a
  | .OpCat => 0x7e | .OpSubstr => 0x7f | .OpNum2Bin => 0xcd | .OpBin2Num => 0xce
  | .OpAdd => 0x93 | .OpSub => 0x94 | .OpMul => 0x95 | .OpDiv => 0x96 | .OpMod => 0x97
  | .OpLessThanOrEqual => 0xa1 | .OpGreaterThanOrEqual => 0xa2 | .OpEqual => 0x87
  | .OpSHA256 => 0xa8
  | .OpTxVersion => 0xb2 | .OpTxInputIndex => 0xb9 | .OpOutpointTxId => 0xba | .OpOutpointIndex => 0xbb
  | .OpTxOutputCount => 0xb4 | .OpTxOutputAmount => 0xc2 | .OpTxOutputSpkLen => 0xc7 | .OpTxOutputSpk => 0xc3

/-- The opcode that is the push of a string. -/
def pushOpcode : Bytes → Option UInt8
  | [] => some 0x00
  | [b] => if 1 ≤ b ∧ b ≤ 16 then some (0x50 + b) else if b = 0x81 then some 0x4f else none
  | _ => none

/-- What any other push begins with. -/
def pushHeader (n : ℕ) : Bytes :=
  if n ≤ 75 then [UInt8.ofNat n]
  else if n ≤ 255 then [0x4c, UInt8.ofNat n]
  else if n ≤ 65535 then 0x4d :: leBytes 2 n
  else if n < 2 ^ 32 then 0x4e :: leBytes 4 n
  else 0x50 :: (List.replicate n 1 ++ [0])

/-- The shortest push of a string. -/
def shortestPush (bytes : Bytes) : Bytes :=
  match pushOpcode bytes with
  | some b => [b]
  | none => pushHeader bytes.length ++ bytes

/-- The bytes of an instruction. -/
def encodeInstr : Instr → Bytes
  | .op code => [code.byte]
  | .push bytes => shortestPush bytes

/-- The bytes of a script. -/
def encodeScript (is : List Instr) : Bytes := is.flatMap encodeInstr

theorem shortestPush_of_le {bytes : Bytes} (h : 2 ≤ bytes.length) :
    shortestPush bytes = pushHeader bytes.length ++ bytes := by
  match bytes, h with
  | _ :: _ :: _, _ => rfl

/-! ### Reading -/

/-- The opcodes. -/
def Opcode.all : List Opcode :=
  [.OpIf, .OpEndIf, .OpToAltStack, .OpFromAltStack, .OpSwap, .OpDup, .OpOver, .OpDrop, .OpNip, .OpPick, .OpRoll,
    .OpCat, .OpSubstr, .OpNum2Bin, .OpBin2Num, .OpAdd, .OpSub, .OpMul, .OpDiv, .OpMod, .OpLessThanOrEqual,
    .OpGreaterThanOrEqual, .OpEqual, .OpSHA256, .OpTxVersion, .OpTxInputIndex, .OpOutpointTxId, .OpOutpointIndex,
    .OpTxOutputCount, .OpTxOutputAmount, .OpTxOutputSpkLen, .OpTxOutputSpk]

/-- The opcode of a byte. -/
def Opcode.ofByte (b : UInt8) : Option Opcode := Opcode.all.find? fun code => code.byte = b

/-- The string that an opcode pushes. -/
def pushedBy (b : UInt8) : Option Bytes :=
  if b = 0x00 then some [] else if b = 0x4f then some [0x81]
  else if 0x51 ≤ b ∧ b ≤ 0x60 then some [b - 0x50] else none

/-- The length a push begins with, behind its first byte. -/
def readHeader (b : UInt8) (rest : Bytes) : Option (ℕ × Bytes) :=
  if b ≤ 75 then some (b.toNat, rest)
  else if b = 0x4c then some (leNat (rest.take 1), rest.drop 1)
  else if b = 0x4d then some (leNat (rest.take 2), rest.drop 2)
  else if b = 0x4e then some (leNat (rest.take 4), rest.drop 4)
  else if b = 0x50 then some ((rest.takeWhile (· = 1)).length, (rest.dropWhile (· = 1)).drop 1)
  else none

/-- The instruction that a script begins with, and the rest of it. -/
def readInstr : Bytes → Option (Instr × Bytes)
  | [] => none
  | b :: rest =>
    match Opcode.ofByte b, pushedBy b with
    | some code, _ => some (.op code, rest)
    | none, some bytes => some (.push bytes, rest)
    | none, none => (readHeader b rest).map fun (n, rest) => (.push (rest.take n), rest.drop n)

/-- No opcode has a byte among those that pushes begin with. -/
theorem Opcode.lt_byte (code : Opcode) : 0x60 < code.byte := by
  cases code <;> decide

theorem Opcode.ofByte_byte (code : Opcode) : Opcode.ofByte code.byte = some code := by
  cases code <;> decide

theorem Opcode.ofByte_eq_none {b : UInt8} (h : b ≤ 0x60) : Opcode.ofByte b = none := by
  refine List.find?_eq_none.mpr fun code _ hbyte => ?_
  rw [decide_eq_true_eq] at hbyte
  exact absurd code.lt_byte (UInt8.not_lt.mpr (hbyte ▸ h))

/-- A push that is an opcode. -/
theorem pushedBy_pushOpcode {bytes : Bytes} {b : UInt8} (h : pushOpcode bytes = some b) :
    b ≤ 0x60 ∧ pushedBy b = some bytes := by
  match bytes with
  | [] =>
    obtain rfl := Option.some.inj h
    exact ⟨by decide, rfl⟩
  | [v] =>
    simp only [pushOpcode] at h
    split_ifs at h with hsmall hminus
    · obtain rfl := Option.some.inj h
      obtain ⟨hlow, hhigh⟩ := hsmall
      simp only [UInt8.le_iff_toNat_le] at hlow hhigh
      have hv : ∀ n, 1 ≤ n → n ≤ 16 → 0x50 + UInt8.ofNat n ≤ 0x60 ∧
          pushedBy (0x50 + UInt8.ofNat n) = some [UInt8.ofNat n] := by decide
      simpa using hv v.toNat hlow hhigh
    · obtain rfl := Option.some.inj h
      rw [hminus]
      exact ⟨by decide, rfl⟩
  | _ :: _ :: _ => cases h

/-- The length of any other push. -/
theorem readHeader_pushHeader {n : ℕ} (hpos : 0 < n) (r : Bytes) :
    ∃ b rest, pushHeader n ++ r = b :: rest ∧ b ≤ 0x60 ∧ pushedBy b = none ∧ readHeader b rest = some (n, r) := by
  unfold pushHeader
  split_ifs with hdirect hone htwo hfour
  · have hb : (UInt8.ofNat n).toNat = n := UInt8.toNat_ofNat_of_lt' (Nat.lt_of_le_of_lt hdirect (by decide))
    have hn : ∀ n ≤ 75, 0 < n → UInt8.ofNat n ≤ 0x60 ∧ pushedBy (UInt8.ofNat n) = none ∧ UInt8.ofNat n ≤ 75 := by decide
    obtain ⟨hle, hnone, hdirect'⟩ := hn n hdirect hpos
    exact ⟨_, r, rfl, hle, hnone, by rw [readHeader, if_pos hdirect', hb]⟩
  · refine ⟨0x4c, UInt8.ofNat n :: r, rfl, by decide, rfl, ?_⟩
    have hb : (UInt8.ofNat n).toNat = n := UInt8.toNat_ofNat_of_lt' (Nat.lt_of_le_of_lt hone (by decide))
    simp [readHeader, leNat, hb]
  · refine ⟨0x4d, leBytes 2 n ++ r, rfl, by decide, rfl, ?_⟩
    simpa [readHeader] using Nat.lt_succ_of_le htwo
  · refine ⟨0x4e, leBytes 4 n ++ r, rfl, by decide, rfl, ?_⟩
    simpa [readHeader] using hfour
  · refine ⟨0x50, List.replicate n 1 ++ [0] ++ r, rfl, by decide, rfl, ?_⟩
    simp [readHeader]

/-- **An instruction can be read from its bytes.** -/
theorem readInstr_encodeInstr (i : Instr) (r : Bytes) : readInstr (encodeInstr i ++ r) = some (i, r) := by
  cases i with
  | op code => simp [encodeInstr, readInstr, Opcode.ofByte_byte]
  | push bytes =>
    simp only [encodeInstr, shortestPush]
    cases h : pushOpcode bytes with
    | some b =>
      obtain ⟨hle, hpushed⟩ := pushedBy_pushOpcode h
      simp [readInstr, Opcode.ofByte_eq_none hle, hpushed]
    | none =>
      have hpos : 0 < bytes.length := List.length_pos_iff.mpr fun hnil => by simp [hnil, pushOpcode] at h
      obtain ⟨b, rest, hheader, hle, hnone, hread⟩ := readHeader_pushHeader hpos (bytes ++ r)
      rw [List.append_assoc, hheader]
      simp [readInstr, Opcode.ofByte_eq_none hle, hnone, hread]

theorem delimited_encodeInstr : Delimited (fun _ => True) encodeInstr := by
  intro i i' _ _ r s h
  have hread := readInstr_encodeInstr i r
  rw [h, readInstr_encodeInstr, Option.some.injEq, Prod.mk.injEq] at hread
  exact ⟨hread.1.symm, hread.2.symm⟩

theorem encodeInstr_ne_nil (i : Instr) : encodeInstr i ≠ [] := by
  intro hnil
  have hread := readInstr_encodeInstr i []
  rw [hnil] at hread
  cases hread

/-- **The instructions can be told from the bytes.** -/
theorem encodeScript_injective : Function.Injective encodeScript := by
  intro is
  induction is with
  | nil =>
    intro is' h
    cases is' with
    | nil => rfl
    | cons i' is' => exact absurd (List.append_eq_nil_iff.mp h.symm).1 (encodeInstr_ne_nil i')
  | cons i is ih =>
    intro is' h
    cases is' with
    | nil => exact absurd (List.append_eq_nil_iff.mp h).1 (encodeInstr_ne_nil i)
    | cons i' is' =>
      obtain ⟨rfl, hrest⟩ := delimited_encodeInstr trivial trivial h
      exact congrArg (List.cons i) (ih hrest)

end KaspaPqv.Script
