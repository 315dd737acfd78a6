import KaspaPqv.Lib.Hex

/-!
# Decimal numbers

How an unsigned number is read from decimal digits: a plus sign may stand in front, and the digits are
read one after the other, until one is none, or the number does not fit.

## What is proved

* `parseDecimal_eq_ok` — which texts are read, and as what.
* `parseDecimal_toDigits` — what is written is read back.
-/

namespace KaspaPqv.Lib

/-- The loop over the digits. -/
def decimalDigits (bound : ℕ) (n : ℕ) : List Char → Except String ℕ
  | [] => .ok n
  | c :: s =>
    if c.isDigit = false then .error "invalid digit found in string"
    else if 10 * n + (c.toNat - '0'.toNat) < bound then decimalDigits bound (10 * n + (c.toNat - '0'.toNat)) s
    else .error "number too large to fit in target type"

/-- `from_str` of an unsigned type with `bound` values. -/
def parseDecimal (bound : ℕ) (s : List Char) : Except String ℕ :=
  if s = [] then .error "cannot parse integer from empty string"
  else if stripPlus s = [] then .error "invalid digit found in string"
  else decimalDigits bound 0 (stripPlus s)

theorem le_ofDigitChars (n : ℕ) (s : List Char) : n ≤ Nat.ofDigitChars 10 s n := by
  induction s generalizing n with
  | nil => exact le_refl n
  | cons c s ih =>
    rw [Nat.ofDigitChars_cons]
    exact le_trans (by omega) (ih _)

theorem decimalDigits_eq_ok {bound n m : ℕ} (hn : n < bound) (s : List Char) : decimalDigits bound n s = .ok m ↔
    (∀ c ∈ s, c.isDigit = true) ∧ Nat.ofDigitChars 10 s n = m ∧ m < bound := by
  induction s generalizing n with
  | nil =>
    rw [decimalDigits, Nat.ofDigitChars_nil]
    constructor
    · intro h
      obtain rfl := Except.ok.inj h
      exact ⟨by simp, rfl, hn⟩
    · rintro ⟨-, rfl, -⟩
      rfl
  | cons c s ih =>
    rw [decimalDigits, Nat.ofDigitChars_cons, List.forall_mem_cons]
    by_cases hc : c.isDigit = true
    · rw [if_neg (by simp [hc])]
      split
      · rename_i hlt
        rw [ih hlt]
        simp [hc]
      · rename_i hge
        constructor
        · intro h
          cases h
        · rintro ⟨-, rfl, hlt⟩
          have hle := le_ofDigitChars (10 * n + (c.toNat - '0'.toNat)) s
          omega
    · rw [if_pos (by simpa using hc)]
      constructor
      · intro h
        cases h
      · rintro ⟨⟨h, -⟩, -⟩
        exact absurd h hc

/-- **Which texts are read**, and as what. -/
theorem parseDecimal_eq_ok {bound m : ℕ} (hbound : 0 < bound) {s : List Char} : parseDecimal bound s = .ok m ↔
    stripPlus s ≠ [] ∧ (∀ c ∈ stripPlus s, c.isDigit = true) ∧ Nat.ofDigitChars 10 (stripPlus s) 0 = m ∧ m < bound := by
  unfold parseDecimal
  by_cases hs : s = []
  · subst hs
    simp [stripPlus]
  · rw [if_neg hs]
    by_cases hstrip : stripPlus s = []
    · simp [hstrip]
    · rw [if_neg hstrip, decimalDigits_eq_ok hbound]
      simp [hstrip]

/-- **What is written is read back.** -/
theorem parseDecimal_toDigits {bound n : ℕ} (h : n < bound) : parseDecimal bound (Nat.toDigits 10 n) = .ok n := by
  have hdigit {c : Char} (hc : c ∈ Nat.toDigits 10 n) : c.isDigit = true :=
    Nat.isDigit_of_mem_toDigits (by norm_num) (by norm_num) hc
  have hplus : '+' ∉ Nat.toDigits 10 n := fun hmem => absurd (hdigit hmem) (by decide)
  refine (parseDecimal_eq_ok (Nat.zero_lt_of_lt h)).mpr ?_
  rw [stripPlus_of_not_mem hplus]
  exact ⟨Nat.toDigits_ne_nil, fun _ hc => hdigit hc, Nat.ofDigitChars_ten_toDigits, h⟩

end KaspaPqv.Lib
