import KaspaPqv.Lib.Outcome
import Mathlib.Algebra.GroupWithZero.Nat
import Mathlib.Data.List.DropRight

/-!
# Texts

A text is a list of characters, whatever they are; in memory a character takes one to four
bytes (UTF-8). A text may be cut by byte offsets, but only between two characters: a cut
through one of them panics.

## What is proved

* `trim_trim` — trimming a second time does nothing.
* `byteSlice_append` — a piece is cut out of what follows as it is out of the whole.
* `byteSlice_two` — what cutting off two bytes does.
-/

namespace KaspaPqv.Lib

/-! ### White space -/

/-- The Unicode property `White_Space`. -/
def isWhitespace (c : Char) : Bool :=
  (9 ≤ c.toNat && c.toNat ≤ 13) || (0x2000 ≤ c.toNat && c.toNat ≤ 0x200A) ||
    [0x20, 0x85, 0xA0, 0x1680, 0x2028, 0x2029, 0x202F, 0x205F, 0x3000].contains c.toNat

theorem isWhitespace_of_printable {c : Char} (hlo : 0x20 < c.toNat) (hhi : c.toNat < 0x85) : isWhitespace c = false := by
  simp [isWhitespace]
  omega

/-- A text without the white space at its two ends. -/
def trim (s : List Char) : List Char := (s.dropWhile isWhitespace).rdropWhile isWhitespace

theorem mem_of_mem_trim {s : List Char} {c : Char} (h : c ∈ trim s) : c ∈ s :=
  (List.dropWhile_sublist isWhitespace).subset ((List.rdropWhile_prefix isWhitespace _).subset h)

theorem trim_eq_self {s : List Char} (h : ∀ c ∈ s, isWhitespace c = false) : trim s = s := by
  have hdrop : s.dropWhile isWhitespace = s := by
    cases s with
    | nil => rfl
    | cons c s => rw [List.dropWhile_cons_of_neg (by simp [h c])]
  rw [trim, hdrop, List.rdropWhile_eq_self_iff]
  intro hs
  simp [h _ (List.getLast_mem hs)]

/-- What is left begins with no white space. -/
theorem dropWhile_trim (s : List Char) : (trim s).dropWhile isWhitespace = trim s := by
  obtain ⟨t, ht⟩ := List.rdropWhile_prefix isWhitespace (s.dropWhile isWhitespace)
  rw [trim]
  cases hr : (s.dropWhile isWhitespace).rdropWhile isWhitespace with
  | nil => rfl
  | cons c r =>
    rw [hr, List.cons_append] at ht
    have hc := List.head_dropWhile_not isWhitespace (l := s) (by rw [← ht]; exact List.cons_ne_nil _ _)
    simp only [← ht, List.head_cons] at hc
    rw [List.dropWhile_cons_of_neg (by simp [hc])]

/-- **Trimming** a second time does nothing. -/
theorem trim_trim (s : List Char) : trim (trim s) = trim s := by
  rw [trim, dropWhile_trim, trim, List.rdropWhile_idempotent]

/-! ### Bytes -/

/-- The length in bytes. -/
def byteLen (s : List Char) : ℕ := (s.map Char.utf8Size).sum

@[simp] theorem byteLen_nil : byteLen [] = 0 := rfl

@[simp] theorem byteLen_cons (c : Char) (s : List Char) : byteLen (c :: s) = c.utf8Size + byteLen s := rfl

@[simp] theorem byteLen_append (s t : List Char) : byteLen (s ++ t) = byteLen s + byteLen t := by
  simp [byteLen]

theorem byteLen_eq_zero {s : List Char} : byteLen s = 0 ↔ s = [] := by
  cases s with
  | nil => simp
  | cons c s => simp [c.utf8Size_pos.ne']

/-- The first `n` bytes and the rest, unless that cuts a character. -/
def splitAtByte : List Char → ℕ → Option (List Char × List Char)
  | s, 0 => some ([], s)
  | [], _ + 1 => none
  | c :: s, n + 1 =>
    if c.utf8Size ≤ n + 1 then (splitAtByte s (n + 1 - c.utf8Size)).map fun p => (c :: p.1, p.2) else none

/-- The bytes from `i` to `j`; a cut through a character panics. -/
def byteSlice {ε : Type} (s : List Char) (i j : ℕ) : Outcome ε (List Char) :=
  match splitAtByte s i with
  | none => .panic
  | some (_, rest) =>
    match if i ≤ j then splitAtByte rest (j - i) else none with
    | none => .panic
    | some (piece, _) => .ok piece

@[simp] theorem splitAtByte_zero (s : List Char) : splitAtByte s 0 = some ([], s) := by
  cases s <;> rfl

theorem splitAtByte_cons {c : Char} {s : List Char} {n : ℕ} (hn : 0 < n) :
    splitAtByte (c :: s) n =
      if c.utf8Size ≤ n then (splitAtByte s (n - c.utf8Size)).map fun p => (c :: p.1, p.2) else none := by
  cases n with
  | zero => exact absurd hn (Nat.lt_irrefl 0)
  | succ n => rfl

/-- Behind some characters. -/
theorem splitAtByte_append (a s : List Char) (n : ℕ) :
    splitAtByte (a ++ s) (byteLen a + n) = (splitAtByte s n).map fun p => (a ++ p.1, p.2) := by
  induction a with
  | nil => simp
  | cons c a ih =>
    have hpos := c.utf8Size_pos
    have hsub : byteLen (c :: a) + n - c.utf8Size = byteLen a + n := by
      rw [byteLen_cons]
      omega
    rw [List.cons_append, splitAtByte_cons (by rw [byteLen_cons]; omega),
      if_pos (by rw [byteLen_cons]; omega), hsub, ih, Option.map_map]
    rfl

/-- **A piece of what follows.** -/
theorem byteSlice_append {ε : Type} (a s : List Char) (i j : ℕ) :
    (byteSlice (a ++ s) (byteLen a + i) (byteLen a + j) : Outcome ε (List Char)) = byteSlice s i j := by
  unfold byteSlice
  rw [splitAtByte_append, Nat.add_sub_add_left]
  simp only [Nat.add_le_add_iff_left]
  cases splitAtByte s i with
  | none => rfl
  | some p => rfl

/-- **The first two bytes** are one character or two, unless the first or the second one is too wide. -/
theorem byteSlice_two {ε : Type} (c : Char) (s : List Char) :
    (byteSlice (c :: s) 0 2 : Outcome ε (List Char)) =
      if c.utf8Size = 2 then .ok [c]
      else if c.utf8Size = 1 then
        match s with
        | [] => .panic
        | d :: _ => if d.utf8Size = 1 then .ok [c, d] else .panic
      else .panic := by
  have hpos := c.utf8Size_pos
  unfold byteSlice
  simp only [splitAtByte_zero, Nat.zero_le, if_true, Nat.sub_zero]
  rw [splitAtByte_cons (Nat.succ_pos 1)]
  by_cases htwo : c.utf8Size = 2
  · simp [htwo]
  rw [if_neg htwo]
  by_cases hone : c.utf8Size = 1
  · rw [if_pos hone, if_pos (by omega), hone]
    cases s with
    | nil => rfl
    | cons d s =>
      have hd := d.utf8Size_pos
      rw [splitAtByte_cons (Nat.succ_pos 0)]
      by_cases hd1 : d.utf8Size = 1
      · simp [hd1]
      · rw [if_neg (by omega)]
        simp [hd1]
  · rw [if_neg hone, if_neg (by omega)]

end KaspaPqv.Lib
