import Mathlib.Algebra.BigOperators.Group.List.Basic
import Mathlib.Algebra.Order.Ring.Int
import Mathlib.Data.UInt
import Mathlib.Tactic.Linarith
import Mathlib.Tactic.Ring

/-!
# Cutting a length into parts

A length is cut into parts, none of them longer than a bound, and every part has a price. Where
two parts cost no less when as much as possible is moved from one to the other, no way of cutting
costs more than full parts and a rest do.

## What is proved

* `sum_le_packed` — full parts and a rest cost the most.
-/

namespace KaspaPqv.Lib

/-- The price of full parts and a rest. -/
def packed (price : ℕ → ℤ) (bound length : ℕ) : ℤ := (length / bound : ℕ) * price bound + price (length % bound)

/-- Two parts cost no less when one of them is made longer at the expense of the other. -/
structure Uneven (price : ℕ → ℤ) : Prop where
  zero : price 0 = 0
  exchange : ∀ a b m, a ≤ m → b ≤ m → m ≤ a + b → price a + price b ≤ price m + price (a + b - m)

variable {price : ℕ → ℤ} {bound : ℕ}

/-- One more part. -/
theorem packed_add_le (h : Uneven price) (hbound : 0 < bound) (length : ℕ) {part : ℕ} (hpart : part ≤ bound) :
    packed price bound length + price part ≤ packed price bound (length + part) := by
  have hrest : length % bound < bound := Nat.mod_lt _ hbound
  have hsplit : length = bound * (length / bound) + length % bound := (Nat.div_add_mod length bound).symm
  unfold packed
  rcases Nat.lt_or_ge (length % bound + part) bound with hfits | hfull
  · -- the part goes to the rest
    have hsum : length + part = length % bound + part + bound * (length / bound) := by omega
    have hdiv : (length + part) / bound = length / bound := by
      rw [hsum, Nat.add_mul_div_left _ _ hbound, Nat.div_eq_of_lt hfits, Nat.zero_add]
    have hmod : (length + part) % bound = length % bound + part := by
      rw [hsum, Nat.add_mul_mod_self_left, Nat.mod_eq_of_lt hfits]
    have hmerge := h.exchange (length % bound) part (length % bound + part) (Nat.le_add_right _ _) (Nat.le_add_left _ _)
      le_rfl
    rw [Nat.sub_self, h.zero] at hmerge
    rw [hdiv, hmod]
    linarith
  · -- the part fills the rest up
    have hlt : length % bound + part - bound < bound := by omega
    have hsum : length + part = length % bound + part - bound + bound * (length / bound + 1) := by
      rw [Nat.mul_add, Nat.mul_one]
      omega
    have hdiv : (length + part) / bound = length / bound + 1 := by
      rw [hsum, Nat.add_mul_div_left _ _ hbound, Nat.div_eq_of_lt hlt, Nat.zero_add]
    have hmod : (length + part) % bound = length % bound + part - bound := by
      rw [hsum, Nat.add_mul_mod_self_left, Nat.mod_eq_of_lt hlt]
    have hmove := h.exchange (length % bound) part bound hrest.le hpart hfull
    rw [hdiv, hmod]
    push_cast
    linarith

/-- **Full parts and a rest cost the most**, of all ways of cutting a length into parts that are not too long. -/
theorem sum_le_packed (h : Uneven price) (hbound : 0 < bound) {parts : List ℕ} (hparts : ∀ part ∈ parts, part ≤ bound) :
    (parts.map price).sum ≤ packed price bound parts.sum := by
  induction parts with
  | nil => simp [packed, h.zero]
  | cons part parts ih =>
    obtain ⟨hpart, hparts⟩ := List.forall_mem_cons.mp hparts
    have hone := packed_add_le h hbound parts.sum hpart
    have hih := ih hparts
    rw [List.map_cons, List.sum_cons, List.sum_cons, Nat.add_comm part]
    linarith

end KaspaPqv.Lib
