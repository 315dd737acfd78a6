import Mathlib.Data.Nat.Bits
import Mathlib.Data.Nat.Bitwise
import Mathlib.Data.List.GetD

/-!
# Perfect binary trees of hashes

A perfect binary tree is given by its leaves and by the function that makes a node out of
its two children; a node is known by its height above the leaves and its index within
that height. A path opens a leaf: the siblings on the way up to the root.

## What is proved

* `climb_authPath` — climbing from a leaf by its path ends in the node above it, whatever
  the leaf.
* `sibling_lt` — the path stays within the tree.
-/

namespace KaspaPqv.Lib

variable {α : Type} (leaf : ℕ → α) (node : ℕ → ℕ → α → α → α)

/-- The node at a height and an index. -/
def nodeAt : ℕ → ℕ → α
  | 0, i => leaf i
  | h + 1, i => node (h + 1) i (nodeAt h (2 * i)) (nodeAt h (2 * i + 1))

/-- The index of the sibling of the ancestor of leaf `t` at a height. -/
def sibling (t h : ℕ) : ℕ := (t >>> h) ^^^ 1

/-- The path that opens leaf `t`. -/
def authPath (t h : ℕ) : α := nodeAt leaf node h (sibling t h)

/-- The climb from leaf `t`, whose value is `x`, up to a height. The bits of `t` say on
which side the sibling is. -/
def climb (t : ℕ) (path : ℕ → α) (x : α) : ℕ → α
  | 0 => x
  | h + 1 =>
    if (t >>> h) % 2 = 0 then node (h + 1) (t >>> (h + 1)) (climb t path x h) (path h)
    else node (h + 1) (t >>> (h + 1)) (path h) (climb t path x h)

theorem xor_one_of_even {n : ℕ} (h : n % 2 = 0) : n ^^^ 1 = n + 1 := by
  rw [Nat.xor_one_of_even (Nat.even_iff.mpr h)]

theorem xor_one_of_odd {n : ℕ} (h : n % 2 = 1) : n ^^^ 1 = n - 1 := by
  rw [Nat.xor_one_of_odd (Nat.odd_iff.mpr h)]

/-- The ancestors of a leaf stay within the tree. -/
theorem ancestor_lt {t z j : ℕ} (ht : t < 2 ^ z) (hj : j ≤ z) : t >>> j < 2 ^ (z - j) := by
  rw [Nat.shiftRight_eq_div_pow, Nat.div_lt_iff_lt_mul (Nat.two_pow_pos _), ← pow_add, Nat.sub_add_cancel hj]
  exact ht

theorem sibling_lt {t z h : ℕ} (ht : t < 2 ^ z) (hh : h < z) : sibling t h < 2 ^ (z - h) := by
  have hpos : (1 : ℕ) < 2 ^ (z - h) := Nat.one_lt_two_pow (by omega)
  exact Nat.xor_lt_two_pow (ancestor_lt ht hh.le) hpos

variable {node}

/-- Only the siblings below the height matter. -/
theorem climb_congr {t : ℕ} {path path' : ℕ → α} (x : α) {z : ℕ} (h : ∀ j < z, path j = path' j) :
    climb node t path x z = climb node t path' x z := by
  induction z with
  | zero => rfl
  | succ z ih => rw [climb, climb, ih fun j hj => h j (hj.trans z.lt_succ_self), h z z.lt_succ_self]

/-- Only the nodes on the way matter. -/
theorem climb_congr_node {node' : ℕ → ℕ → α → α → α} {t : ℕ} (path : ℕ → α) (x : α) {z : ℕ}
    (h : ∀ j < z, ∀ left right, node (j + 1) (t >>> (j + 1)) left right = node' (j + 1) (t >>> (j + 1)) left right) :
    climb node t path x z = climb node' t path x z := by
  induction z with
  | zero => rfl
  | succ z ih =>
    rw [climb, climb, ih fun j hj => h j (hj.trans z.lt_succ_self), h z z.lt_succ_self, h z z.lt_succ_self]

/-- **Climbing by the path that opens a leaf** ends in the node above the leaf. -/
theorem climb_authPath (t z : ℕ) :
    climb node t (authPath leaf node t) (leaf t) z = nodeAt leaf node z (t >>> z) := by
  induction z with
  | zero => rfl
  | succ z ih =>
    have hhalf : t >>> (z + 1) = t >>> z / 2 := Nat.shiftRight_succ t z
    rw [climb, ih, authPath, sibling, nodeAt, hhalf]
    rcases Nat.mod_two_eq_zero_or_one (t >>> z) with h | h
    · rw [if_pos h, xor_one_of_even h, show 2 * (t >>> z / 2) = t >>> z by omega]
    · rw [if_neg (by omega), xor_one_of_odd h, show 2 * (t >>> z / 2) + 1 = t >>> z by omega,
        show 2 * (t >>> z / 2) = t >>> z - 1 by omega]

/-- From any leaf of the tree, the climb ends in the root. -/
theorem climb_root {t z : ℕ} (ht : t < 2 ^ z) {path : ℕ → α} (hpath : ∀ j < z, path j = authPath leaf node t j) :
    climb node t path (leaf t) z = nodeAt leaf node z 0 := by
  rw [climb_congr _ hpath, climb_authPath leaf, Nat.shiftRight_eq_div_pow, Nat.div_eq_of_lt ht]

end KaspaPqv.Lib
