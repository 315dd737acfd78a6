import Mathlib.Data.List.Range
import Mathlib.Data.List.GetD

/-!
# Lists read by position

Slices of lists, lists that are given by what is at each position, and loops over
positions that may fail.

## What is proved

* `slice_flatMap_range` — the pieces of a list that is put together from equal ones.
* `slice_map_range`, `zipIdx_map_range` — slices and positions of a list given by position.
* `mapM_eq_some`, `foldlM_eq_some`, `foldlM_range_eq_some` — a loop none of whose turns fails.
-/

namespace KaspaPqv.Lib

variable {α β : Type}

/-- The elements of a list from `start` up to `stop`, the second one excluded. -/
def slice (bs : List α) (start stop : ℕ) : List α := (bs.take stop).drop start

@[simp] theorem length_slice (bs : List α) (start stop : ℕ) :
    (slice bs start stop).length = min stop bs.length - start := by
  simp [slice]

theorem slice_zero (bs : List α) (stop : ℕ) : slice bs 0 stop = bs.take stop := by simp [slice]

theorem slice_succ {bs : List α} {i : ℕ} (h : i < bs.length) : slice bs i (i + 1) = [bs[i]] := by
  rw [slice, List.drop_take, show i + 1 - i = 1 by omega, List.drop_eq_getElem_cons h,
    List.take_succ_cons, List.take_zero]

theorem slice_append_of_le {a b : List α} {i j : ℕ} (h : j ≤ a.length) : slice (a ++ b) i j = slice a i j := by
  rw [slice, List.take_append_of_le_length h, slice]

theorem slice_append_of_ge {a b : List α} {i j : ℕ} (h : a.length ≤ i) :
    slice (a ++ b) i j = slice b (i - a.length) (j - a.length) := by
  rw [slice, List.take_append, List.drop_append, List.drop_eq_nil_of_le (by simp; omega), List.nil_append, slice]
  rcases Nat.le_total a.length j with hj | hj
  · rw [List.length_take, Nat.min_eq_right hj]
  · simp [Nat.sub_eq_zero_of_le hj]

variable {n : ℕ} {f : ℕ → List α}

theorem length_flatMap_range (hf : ∀ i, (f i).length = n) (k : ℕ) : ((List.range k).flatMap f).length = k * n := by
  simp [List.length_flatMap, hf]

/-- A piece of equal pieces put together. -/
theorem slice_flatMap_range (hf : ∀ i, (f i).length = n) {k i : ℕ} (hi : i < k) :
    slice ((List.range k).flatMap f) (i * n) ((i + 1) * n) = f i := by
  induction k with
  | zero => omega
  | succ k ih =>
    rw [List.range_succ, List.flatMap_append, List.flatMap_singleton]
    rcases Nat.lt_succ_iff_lt_or_eq.mp hi with h | rfl
    · rw [slice_append_of_le, ih h]
      rw [length_flatMap_range hf]
      exact Nat.mul_le_mul_right n h
    · rw [slice_append_of_ge (by rw [length_flatMap_range hf]), length_flatMap_range hf, Nat.sub_self, slice_zero,
        List.take_of_length_le]
      rw [hf]
      simp [Nat.succ_mul]

/-- Pieces of one length can be told from what they are put together to. -/
theorem flatMap_range_inj {f g : ℕ → List α} {k : ℕ} (hf : ∀ i < k, (f i).length = n) (hg : ∀ i < k, (g i).length = n)
    (h : (List.range k).flatMap f = (List.range k).flatMap g) : ∀ i < k, f i = g i := by
  induction k with
  | zero => exact fun i hi => absurd hi i.not_lt_zero
  | succ k ih =>
    rw [List.range_succ, List.flatMap_append, List.flatMap_append, List.flatMap_singleton, List.flatMap_singleton] at h
    obtain ⟨hinit, hlast⟩ := List.append_inj' h ((hf k k.lt_succ_self).trans (hg k k.lt_succ_self).symm)
    intro i hi
    rcases Nat.lt_succ_iff_lt_or_eq.mp hi with hlt | rfl
    · exact ih (fun j hj => hf j (hj.trans k.lt_succ_self)) (fun j hj => hg j (hj.trans k.lt_succ_self)) hinit i hlt
    · exact hlast

/-- Where pieces put together end is told by an element that no piece begins with. -/
theorem flatMap_range_append_inj {f : ℕ → List α} {x : α} (hf : ∀ i, ∃ y ys, f i = y :: ys ∧ y ≠ x) {k k' : ℕ}
    {r r' : List α} (h : (List.range k).flatMap f ++ x :: r = (List.range k').flatMap f ++ x :: r') :
    k = k' ∧ r = r' := by
  have hless {k m : ℕ} {r r' : List α} (h : (List.range k).flatMap f ++ x :: r =
      (List.range (k + (m + 1))).flatMap f ++ x :: r') : False := by
    rw [List.range_add, List.flatMap_append, List.append_assoc] at h
    have hcut := List.append_cancel_left h
    obtain ⟨y, ys, hy, hne⟩ := hf k
    rw [List.range_succ_eq_map, List.map_cons, List.flatMap_cons, Nat.add_zero, hy] at hcut
    exact hne (List.cons.inj hcut).1.symm
  rcases Nat.lt_trichotomy k k' with hlt | rfl | hlt
  · obtain ⟨m, rfl⟩ := Nat.exists_eq_add_of_lt hlt
    exact (hless (m := m) (by rw [← Nat.add_assoc]; exact h)).elim
  · exact ⟨rfl, (List.cons.inj (List.append_cancel_left h)).2⟩
  · obtain ⟨m, rfl⟩ := Nat.exists_eq_add_of_lt hlt
    exact (hless (m := m) (by rw [← Nat.add_assoc]; exact h.symm)).elim

/-- A part of a part. -/
theorem slice_slice {l : List α} {s e i j : ℕ} (h : s + j ≤ e) : slice (slice l s e) i j = slice l (s + i) (s + j) := by
  rw [slice, slice, slice, List.take_drop, List.take_take, Nat.min_eq_left h, List.drop_drop]

theorem slice_append_slice {l : List α} {i j k : ℕ} (hij : i ≤ j) (hjk : j ≤ k) :
    slice l i j ++ slice l j k = slice l i k := by
  rw [slice, slice, slice, List.drop_take, List.drop_take, List.drop_take, ← List.take_append_drop (j - i) (List.take (k - i) _),
    List.take_take, List.drop_take, List.drop_drop, Nat.min_eq_left (by omega), Nat.add_sub_cancel' hij]
  congr 2
  omega

theorem getElem?_slice {l : List α} {s e r : ℕ} (h : s + r < e) : (slice l s e)[r]? = l[s + r]? := by
  rw [slice, List.getElem?_drop, List.getElem?_take_of_lt h]

/-! ### Lists given by position -/

theorem eq_map_range [Inhabited α] (l : List α) : l = (List.range l.length).map fun i => l.getD i default := by
  refine List.ext_getElem (by simp) fun i h _ => ?_
  simp [List.getElem?_eq_getElem h]

theorem slice_map_range {n i j : ℕ} (hj : j ≤ n) (f : ℕ → α) :
    slice ((List.range n).map f) i j = (List.range (j - i)).map fun k => f (i + k) := by
  refine List.ext_getElem (by simp [Nat.min_eq_left hj]) fun k _ _ => ?_
  simp [slice]

theorem getElem?_map_range {n i : ℕ} (hi : i < n) (f : ℕ → α) : ((List.range n).map f)[i]? = some (f i) := by
  simp [hi]

theorem zipIdx_map_range (n : ℕ) (f : ℕ → α) :
    ((List.range n).map f).zipIdx = (List.range n).map fun i => (f i, i) := by
  refine List.ext_getElem (by simp) fun k _ _ => ?_
  simp

/-! ### Loops that may fail -/

theorem mapM_eq_some {f : α → Option β} {g : α → β} {l : List α} (h : ∀ x ∈ l, f x = some (g x)) :
    l.mapM f = some (l.map g) := by
  induction l with
  | nil => rfl
  | cons x l ih =>
    have hrest := ih fun y hy => h y (List.mem_cons_of_mem x hy)
    simp [List.mapM_cons, h x List.mem_cons_self, hrest]

theorem foldlM_eq_some {f : β → α → Option β} {g : β → α → β} {l : List α} (h : ∀ b, ∀ x ∈ l, f b x = some (g b x)) (b : β) :
    l.foldlM f b = some (l.foldl g b) := by
  induction l generalizing b with
  | nil => rfl
  | cons x l ih =>
    have hrest := ih (fun b y hy => h b y (List.mem_cons_of_mem x hy)) (g b x)
    simp only [List.foldlM_cons, List.foldl_cons, h b x List.mem_cons_self, Option.bind_eq_bind, Option.bind_some, hrest]

theorem mapM_eq_ok {ε : Type} {f : α → Except ε β} {g : α → β} {l : List α} (h : ∀ x ∈ l, f x = .ok (g x)) :
    l.mapM f = .ok (l.map g) := by
  induction l with
  | nil => rfl
  | cons x l ih =>
    have hrest := ih fun y hy => h y (List.mem_cons_of_mem x hy)
    simp [List.mapM_cons, h x List.mem_cons_self, hrest, bind, Except.bind, pure, Except.pure]

/-- A loop in a loop. -/
theorem foldlM_flatten (f : β → α → Option β) (b : β) (ls : List (List α)) :
    ls.flatten.foldlM f b = ls.foldlM (fun b l => l.foldlM f b) b := by
  induction ls generalizing b with
  | nil => rfl
  | cons l ls ih => simp only [List.flatten_cons, List.foldlM_append, List.foldlM_cons, ih]

/-- A search that finds one thing. -/
theorem filterMap_eq_singleton {f : α → Option β} {l : List α} (hl : l.Nodup) {b : β} :
    l.filterMap f = [b] ↔ ∃ a ∈ l, f a = some b ∧ ∀ x ∈ l, x ≠ a → f x = none := by
  constructor
  · intro h
    obtain ⟨l₁, a, l₂, rfl, hbefore, ha, hafter⟩ := List.filterMap_eq_cons_iff.mp h
    refine ⟨a, by simp, ha, fun x hx hne => ?_⟩
    rcases List.mem_append.mp hx with hx | hx
    · exact hbefore x hx
    · exact List.filterMap_eq_nil_iff.mp hafter x ((List.mem_cons.mp hx).resolve_left hne)
  · rintro ⟨a, ha, hb, hothers⟩
    obtain ⟨l₁, l₂, rfl⟩ := List.append_of_mem ha
    obtain ⟨-, hsecond, hdisjoint⟩ := List.nodup_append.mp hl
    have hbefore : l₁.filterMap f = [] := List.filterMap_eq_nil_iff.mpr fun x hx =>
      hothers x (by simp [hx]) (hdisjoint x hx a (by simp))
    have hafter : l₂.filterMap f = [] := List.filterMap_eq_nil_iff.mpr fun x hx =>
      hothers x (by simp [hx]) fun h => (List.nodup_cons.mp hsecond).1 (h ▸ hx)
    rw [List.filterMap_append, hbefore, List.filterMap_cons_some hb, hafter, List.nil_append]

/-- A loop over the first `n` positions, from what its state is before each turn. -/
theorem foldlM_range_eq_some {n : ℕ} {f : β → ℕ → Option β} (I : ℕ → β) (h : ∀ i < n, f (I i) i = some (I (i + 1))) :
    (List.range n).foldlM f (I 0) = some (I n) := by
  induction n with
  | zero => rfl
  | succ n ih =>
    rw [List.range_succ, List.foldlM_append, ih fun i hi => h i (hi.trans n.lt_succ_self)]
    simp [h n n.lt_succ_self]

/-- What a loop that cannot fail comes to. -/
theorem foldl_range_eq {n : ℕ} {f : β → ℕ → β} (I : ℕ → β) (h : ∀ i < n, f (I i) i = I (i + 1)) :
    (List.range n).foldl f (I 0) = I n := by
  induction n with
  | zero => rfl
  | succ n ih =>
    rw [List.range_succ, List.foldl_append, ih fun i hi => h i (hi.trans n.lt_succ_self)]
    exact h n n.lt_succ_self

end KaspaPqv.Lib
