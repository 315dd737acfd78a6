import Mathlib.Data.List.Basic
import Mathlib.Data.List.Range

/-!
# Walking on until enough in a row is empty

Positions are visited one after the other, and what is found is kept. The walk ends when
`gap` positions in a row were empty. It finds everything there is, provided that nowhere
below what there is are so many positions in a row empty.

## What is proved

* `GapWalk.Inv.step` — what one position does.
* `GapWalk.Inv.next_lt` — a walk that goes on has not passed the last thing by `gap`.
* `GapWalk.Inv.item_eq_none` — where it ends, nothing comes any more.
* `GapWalk.Inv.empties_lt` — it does not end where there is no gap at all.
-/

namespace KaspaPqv.Lib

variable {β : Type}

/-- Where a walk is: what it has found, how many positions in a row were empty, and the next one. -/
structure GapWalk (β : Type) where
  found : List β
  empties : ℕ
  next : ℕ

namespace GapWalk

/-- Before the first position. -/
def start : GapWalk β := ⟨[], 0, 0⟩

/-- Visit a position. -/
def step (item : ℕ → Option β) (w : GapWalk β) : GapWalk β :=
  match item w.next with
  | some b => ⟨w.found ++ [b], 0, w.next + 1⟩
  | none => ⟨w.found, w.empties + 1, w.next + 1⟩

theorem next_step (item : ℕ → Option β) (w : GapWalk β) : (w.step item).next = w.next + 1 := by
  unfold step
  split
  · rfl
  · rfl

/-- What holds on the way, if there is nothing from `bound` on. -/
structure Inv (item : ℕ → Option β) (bound gap : ℕ) (w : GapWalk β) : Prop where
  found_eq : w.found = (List.range w.next).filterMap item
  empties_le : w.empties ≤ w.next
  trailing : ∀ j, w.next ≤ j + w.empties → j < w.next → item j = none
  next_le : w.next ≤ bound + w.empties
  empties_le_gap : w.empties ≤ gap

variable {item : ℕ → Option β} {bound gap : ℕ} {w : GapWalk β}

theorem Inv.start (item : ℕ → Option β) (bound gap : ℕ) : Inv item bound gap start where
  found_eq := rfl
  empties_le := Nat.le_refl 0
  trailing j _ hj := absurd hj (Nat.not_lt_zero j)
  next_le := Nat.zero_le _
  empties_le_gap := Nat.zero_le gap

/-- **One position.** -/
theorem Inv.step (h : Inv item bound gap w) (hbound : ∀ i b, item i = some b → i < bound) (hlt : w.empties < gap) :
    Inv item bound gap (w.step item) := by
  unfold GapWalk.step
  rcases hitem : item w.next with _ | b
  · refine ⟨?_, Nat.succ_le_succ h.empties_le, fun j hj hlt => ?_, ?_, hlt⟩
    · simp [List.range_succ, List.filterMap_append, h.found_eq, hitem]
    · rcases Nat.lt_or_ge j w.next with hbefore | hhere
      · exact h.trailing j (by change w.next + 1 ≤ j + (w.empties + 1) at hj; omega) hbefore
      · obtain rfl : j = w.next := by
          change j < w.next + 1 at hlt
          omega
        exact hitem
    · have := h.next_le
      change w.next + 1 ≤ bound + (w.empties + 1)
      omega
  · refine ⟨?_, Nat.zero_le _, fun j hj hlt => ?_, hbound _ b hitem, Nat.zero_le gap⟩
    · simp [List.range_succ, List.filterMap_append, h.found_eq, hitem]
    · change w.next + 1 ≤ j + 0 at hj
      change j < w.next + 1 at hlt
      omega

/-- **A walk that goes on** is near what there is. -/
theorem Inv.next_lt (h : Inv item bound gap w) (hlt : w.empties < gap) : w.next < bound + gap := by
  have := h.next_le
  omega

/-- Where the walk ends, the last `gap` positions were empty. -/
theorem Inv.item_passed (h : Inv item bound gap w) (hend : gap ≤ w.empties) {j : ℕ} (hj : j < gap) :
    item (w.next - gap + j) = none := by
  have hempties := h.empties_le
  exact h.trailing _ (by omega) (by omega)

/-- **Where the walk ends**, nothing comes any more. -/
theorem Inv.item_eq_none (h : Inv item bound gap w) (hend : gap ≤ w.empties)
    (hgap : ∀ s m, (item m).isSome → s + gap ≤ m → ∃ j < gap, (item (s + j)).isSome) {m : ℕ} (hm : w.next ≤ m) :
    item m = none := by
  have hempties := h.empties_le
  cases hitem : item m with
  | none => rfl
  | some b =>
    -- the positions just passed would be a gap below `m`
    obtain ⟨j, hj, hsome⟩ := hgap (w.next - gap) m (by rw [hitem]; rfl) (by omega)
    rw [h.item_passed hend hj] at hsome
    cases hsome

/-- **A walk does not end** where `gap` positions in a row are never empty. -/
theorem Inv.empties_lt (h : Inv item bound gap w) (hnext : w.next ≤ bound)
    (hdense : ∀ s, s + gap ≤ bound → ∃ j < gap, (item (s + j)).isSome) : w.empties < gap := by
  by_contra hlt
  have hempties := h.empties_le
  obtain ⟨j, hj, hsome⟩ := hdense (w.next - gap) (by omega)
  rw [h.item_passed (Nat.le_of_not_lt hlt) hj] at hsome
  cases hsome

/-- What is found does not depend on where exactly the walk ends. -/
theorem Inv.found_eq_bound (h : Inv item bound gap w) (hbound : ∀ i b, item i = some b → i < bound) (hend : gap ≤ w.empties)
    (hgap : ∀ s m, (item m).isSome → s + gap ≤ m → ∃ j < gap, (item (s + j)).isSome) :
    w.found = (List.range bound).filterMap item := by
  have hcut : ∀ n k, (∀ i, n ≤ i → item i = none) → (List.range (n + k)).filterMap item = (List.range n).filterMap item := by
    intro n k hnone
    induction k with
    | zero => rfl
    | succ k ih =>
      rw [← Nat.add_assoc, List.range_succ, List.filterMap_append, ih]
      simp [hnone (n + k) (by omega)]
  have hnext : ∀ i, w.next ≤ i → item i = none := fun i => h.item_eq_none hend hgap
  have hlast : ∀ i, bound ≤ i → item i = none := by
    intro i hi
    cases hitem : item i with
    | none => rfl
    | some b => exact absurd (hbound i b hitem) (by omega)
  rw [h.found_eq, ← hcut w.next bound hnext, ← hcut bound w.next hlast, Nat.add_comm]

/-- What is found is found in order. -/
theorem pairwise_found {index : β → ℕ} (hindex : ∀ i b, item i = some b → index b = i) (n : ℕ) :
    (((List.range n).filterMap item).map index).Pairwise (· < ·) := by
  rw [List.pairwise_map, List.pairwise_filterMap]
  refine List.pairwise_lt_range.imp ?_
  intro i j hij b hb b' hb'
  rw [hindex i b hb, hindex j b' hb']
  exact hij

end GapWalk

end KaspaPqv.Lib
