import Mathlib.Data.List.Nodup
import Mathlib.Algebra.GroupWithZero.Nat
import Mathlib.Data.UInt

/-!
# What is held

Items are told by a key and have a value. They are never taken out of the list they are in: the
keys of those that are gone are kept beside it, and what is held is the rest. Sums are over natural
numbers, so that none of them wraps.

## What is proved

* `held_take` — one item less.
* `held_append` — more items.
* `held_exchange` — one item is given for others.
-/

namespace KaspaPqv.Lib

variable {α κ : Type} [DecidableEq κ]

/-- The value of the items whose key is not gone. -/
def held (key : α → κ) (value : α → ℕ) (items : List α) (gone : List κ) : ℕ :=
  ((items.filter fun x => key x ∉ gone).map value).sum

variable {key : α → κ} {value : α → ℕ} {items : List α} {gone : List κ}

/-- **One item less**: its value is taken off the sum. -/
theorem held_take (hnodup : (items.map key).Nodup) {c : α} (hc : c ∈ items) (hgone : key c ∉ gone) :
    held key value items (key c :: gone) + value c = held key value items gone := by
  unfold held
  induction items with
  | nil => cases hc
  | cons x items ih =>
    rw [List.map_cons, List.nodup_cons] at hnodup
    obtain ⟨hx, hnodup⟩ := hnodup
    rcases List.mem_cons.mp hc with rfl | hc
    · have hrest : (items.filter fun x => key x ∉ key c :: gone) = items.filter fun x => key x ∉ gone := by
        refine List.filter_congr fun y hy => ?_
        have hne : key y ≠ key c := fun h => hx (h ▸ List.mem_map_of_mem hy)
        simp [hne]
      rw [List.filter_cons_of_neg (by simp), List.filter_cons_of_pos (by simpa using hgone), hrest, List.map_cons,
        List.sum_cons, Nat.add_comm]
    · have hne : key x ≠ key c := fun h => hx (h ▸ List.mem_map_of_mem hc)
      have hih := ih hnodup hc
      by_cases hmem : key x ∈ gone
      · rw [List.filter_cons_of_neg (by simp [hmem]), List.filter_cons_of_neg (by simp [hmem]), hih]
      · rw [List.filter_cons_of_pos (by simp [hmem, hne]), List.filter_cons_of_pos (by simp [hmem]), List.map_cons,
          List.map_cons, List.sum_cons, List.sum_cons, Nat.add_assoc, hih]

/-- **More items**, none of which is gone. -/
theorem held_append {new : List α} (hnew : ∀ x ∈ new, key x ∉ gone) :
    held key value (new ++ items) gone = (new.map value).sum + held key value items gone := by
  have hall : (new.filter fun x => key x ∉ gone) = new :=
    List.filter_eq_self.mpr fun x hx => by simpa using hnew x hx
  rw [held, List.filter_append, hall, List.map_append, List.sum_append, held]

/-- **One item is given for others.** -/
theorem held_exchange {c : α} {new : List α} (hnodup : ((new ++ items).map key).Nodup) (hc : c ∈ items)
    (hgone : key c ∉ gone) (hkeys : ∀ k ∈ gone, k ∈ items.map key) :
    held key value (new ++ items) (key c :: gone) + value c = (new.map value).sum + held key value items gone := by
  rw [List.map_append] at hnodup
  obtain ⟨-, hitems, hdisjoint⟩ := List.nodup_append.mp hnodup
  have hnew : ∀ x ∈ new, key x ∉ key c :: gone := by
    intro x hx hmem
    have hold : key x ∈ items.map key := by
      rcases List.mem_cons.mp hmem with heq | hmem
      · exact heq ▸ List.mem_map_of_mem hc
      · exact hkeys _ hmem
    exact hdisjoint _ (List.mem_map_of_mem hx) _ hold rfl
  rw [held_append hnew, Nat.add_assoc, held_take hitems hc hgone]

end KaspaPqv.Lib
