import KaspaPqv.Lib.Lists
import Mathlib.Algebra.Order.Ring.Nat

/-!
# Iterated hashing

A hash function is iterated over the blocks of a message: a state is carried from block to
block by a compression function. What comes after a whole number of blocks can be hashed
from the state that these blocks leave.

## What is proved

* `iterate_append` — hashing is resumed after whole blocks.
-/

namespace KaspaPqv.Lib

variable {σ α : Type} (compress : σ → List α → σ) {n : ℕ}

/-- The state after the whole blocks of `n` elements of a message, taken in order. -/
def iterate (n : ℕ) (s : σ) (msg : List α) : σ :=
  (List.range (msg.length / n)).foldl (fun s i => compress s (slice msg (i * n) ((i + 1) * n))) s

variable {compress}

/-- A message of one block. -/
theorem iterate_block (hn : 0 < n) (s : σ) {msg : List α} (h : msg.length = n) : iterate compress n s msg = compress s msg := by
  rw [iterate, h, Nat.div_self hn, List.range_one, List.foldl_cons, List.foldl_nil, Nat.zero_mul, Nat.zero_add, Nat.one_mul,
    slice_zero, List.take_of_length_le h.le]

/-- **Hashing is resumed** after whole blocks. -/
theorem iterate_append (hn : 0 < n) (s : σ) {a : List α} {k : ℕ} (h : a.length = k * n) (b : List α) :
    iterate compress n s (a ++ b) = iterate compress n (iterate compress n s a) b := by
  have hcount : (a ++ b).length / n = k + b.length / n := by
    rw [List.length_append, h, Nat.add_comm, Nat.add_mul_div_right _ _ hn, Nat.add_comm]
  have hfirst : ∀ (s : σ), ∀ i ∈ List.range k, compress s (slice (a ++ b) (i * n) ((i + 1) * n)) =
      compress s (slice a (i * n) ((i + 1) * n)) := by
    intro s i hi
    rw [slice_append_of_le (h ▸ Nat.mul_le_mul_right n (List.mem_range.mp hi))]
  have hsecond : ∀ (s : σ) (i : ℕ), compress s (slice (a ++ b) ((k + i) * n) ((k + i + 1) * n)) =
      compress s (slice b (i * n) ((i + 1) * n)) := by
    intro s i
    rw [slice_append_of_ge (h ▸ Nat.mul_le_mul_right n (Nat.le_add_right k i)), h, Nat.add_assoc, Nat.add_mul, Nat.add_mul,
      Nat.add_sub_cancel_left, Nat.add_sub_cancel_left]
  have hwhole : a.length / n = k := by rw [h, Nat.mul_div_cancel _ hn]
  unfold iterate
  rw [hcount, List.range_add, List.foldl_append, List.foldl_map, List.foldl_ext _ _ _ hfirst, hwhole]
  simp only [hsecond]

end KaspaPqv.Lib
