import KaspaPqv.Lib.PerfectTree
import KaspaPqv.Lib.Lists

/-!
# What a root binds

A value that was reached by hashing tells what it was reached from, unless on the way two
different inputs were hashed to one value. For a chain and for a path up a tree the place where
that happened is named, so that it is a fact about the two ways and not about the function.

## What is proved

* `walk_binds` — of two walks along a chain that end alike, either the starts are alike, or there
  is a step before which they differ and after which they agree.
* `climb_binds` — a climb that ends in a node of a tree went by the tree's own path, or there is a
  level at which it met a node of the tree with other children than the node has.
-/

namespace KaspaPqv.Lib

variable {α : Type}

/-! ### Chains -/

/-- `s` steps along a chain, from step `i`. -/
def walk (f : ℕ → α → α) (i s : ℕ) (x : α) : α := (List.range' i s).foldl (fun x j => f j x) x

section walk

variable {f : ℕ → α → α} {i s : ℕ} {x y : α}

theorem walk_succ (f : ℕ → α → α) (i s : ℕ) (x : α) : walk f i (s + 1) x = f (i + s) (walk f i s x) := by
  rw [walk, List.range'_concat, List.foldl_append, Nat.one_mul]
  rfl

/-- A chain is walked in parts. -/
theorem walk_walk (f : ℕ → α → α) (i s t : ℕ) (x : α) : walk f (i + s) t (walk f i s x) = walk f i (s + t) x := by
  rw [walk, walk, walk, ← List.foldl_append]
  congr 1
  exact List.range'_append_1

/-- **Walks that end alike** start alike, or there is a step that takes two values to one. -/
theorem walk_binds (h : walk f i s x = walk f i s y) :
    x = y ∨ ∃ k < s, walk f i k x ≠ walk f i k y ∧ walk f i (k + 1) x = walk f i (k + 1) y := by
  induction s with
  | zero => exact .inl h
  | succ s ih =>
    by_cases hsame : walk f i s x = walk f i s y
    · rcases ih hsame with hxy | ⟨k, hk, hstep⟩
      · exact .inl hxy
      · exact .inr ⟨k, hk.trans s.lt_succ_self, hstep⟩
    · exact .inr ⟨s, s.lt_succ_self, hsame, h⟩

end walk

/-! ### Paths -/

variable (leaf : ℕ → α) (node : ℕ → ℕ → α → α → α)

/-- The two nodes that a climb makes the next one of. -/
def climbPair (t : ℕ) (path : ℕ → α) (x : α) (h : ℕ) : α × α :=
  if (t >>> h) % 2 = 0 then (climb node t path x h, path h) else (path h, climb node t path x h)

/-- The two children of a node. -/
def childPair (h i : ℕ) : α × α := (nodeAt leaf node h (2 * i), nodeAt leaf node h (2 * i + 1))

variable {leaf node} {t : ℕ} {path : ℕ → α} {x : α}

/-- A climb with the children of a node of the tree comes from the tree's own two nodes. -/
theorem eq_of_climbPair {h : ℕ} (hpair : climbPair node t path x h = childPair leaf node h (t >>> (h + 1))) :
    climb node t path x h = nodeAt leaf node h (t >>> h) ∧ path h = authPath leaf node t h := by
  have hhalf : t >>> (h + 1) = t >>> h / 2 := Nat.shiftRight_succ t h
  rw [climbPair, childPair, hhalf] at hpair
  rw [authPath, sibling]
  rcases Nat.mod_two_eq_zero_or_one (t >>> h) with heven | hodd
  · rw [if_pos heven, show 2 * (t >>> h / 2) = t >>> h by omega] at hpair
    obtain ⟨hclimb, hpath⟩ := Prod.mk.inj hpair
    rw [xor_one_of_even heven]
    exact ⟨hclimb, hpath⟩
  · rw [if_neg (by omega), show 2 * (t >>> h / 2) + 1 = t >>> h by omega,
      show 2 * (t >>> h / 2) = t >>> h - 1 by omega] at hpair
    obtain ⟨hpath, hclimb⟩ := Prod.mk.inj hpair
    rw [xor_one_of_odd hodd]
    exact ⟨hclimb, hpath⟩

/-- **A climb that ends in a node of the tree** began at the tree's leaf and went by its path, or
met a node of the tree with other children. -/
theorem climb_binds {z : ℕ} (h : climb node t path x z = nodeAt leaf node z (t >>> z)) :
    (x = leaf t ∧ ∀ j < z, path j = authPath leaf node t j) ∨
      ∃ j < z, climbPair node t path x j ≠ childPair leaf node j (t >>> (j + 1)) ∧
        climb node t path x (j + 1) = nodeAt leaf node (j + 1) (t >>> (j + 1)) := by
  induction z with
  | zero => exact .inl ⟨h, fun j hj => absurd hj j.not_lt_zero⟩
  | succ z ih =>
    by_cases hpair : climbPair node t path x z = childPair leaf node z (t >>> (z + 1))
    · obtain ⟨hclimb, hlast⟩ := eq_of_climbPair hpair
      rcases ih hclimb with ⟨hleaf, hpath⟩ | ⟨j, hj, hbreak⟩
      · refine .inl ⟨hleaf, fun j hj => ?_⟩
        rcases Nat.lt_succ_iff_lt_or_eq.mp hj with hlt | rfl
        · exact hpath j hlt
        · exact hlast
      · exact .inr ⟨j, hj.trans z.lt_succ_self, hbreak⟩
    · exact .inr ⟨z, z.lt_succ_self, hpair, h⟩

end KaspaPqv.Lib
