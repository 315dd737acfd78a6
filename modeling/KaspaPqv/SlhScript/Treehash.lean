import KaspaPqv.Lib.Lists
import KaspaPqv.Lib.PerfectTree
import Mathlib.Tactic.Ring
import Mathlib.Tactic.SplitIfs

/-!
# The streaming tree hash

The root of a perfect tree and the path that opens one leaf, from leaves taken left to
right: a stack holds the complete subtrees that wait for their right neighbours, and a
node of the path is noted when it passes by. A failed assertion, an empty stack at the
end and a function for leaves or nodes that panics are `none`.

The invariant: after `i` leaves the stack holds one node for each set bit of `i`
(`pending`), and the path has the nodes that are complete by then (`pathSeen`).

## What is proved

* `treehashAuth_eq` — the root and the path are those of the tree; no leaf or node outside of it is
  asked for.
* `treehashAuth_opens` — so for every target the path leads from the leaf to the root.
-/

namespace KaspaPqv.SlhScript

open KaspaPqv.Lib

variable {α : Type}

/-- What the inner loop works on: the stack of waiting nodes, top first, and the path. -/
abbrev TreeStack (α : Type) := List (ℕ × ℕ × α)

/-- The inner loop for a node at a height and an index: while the top of the stack is its
left neighbour, join the two; then push. -/
def joinUp (z target : ℕ) (node : ℕ → ℕ → α → α → Option α) :
    TreeStack α → List α → (height index : ℕ) → α → Option (TreeStack α × List α)
  | stack, auth, height, index, value =>
    let auth := if height < z ∧ index = (target >>> height) ^^^ 1 then auth.set height value else auth
    match stack with
    | (h, leftIndex, left) :: rest =>
      if h = height then
        (node (height + 1) (index >>> 1) left value).bind fun value =>
          -- `debug_assert_eq!(left_index, index ^ 1)`
          if leftIndex = index ^^^ 1 then joinUp z target node rest auth (height + 1) (index >>> 1) value else none
      else some ((height, index, value) :: stack, auth)
    | [] => some ([(height, index, value)], auth)

/-- One turn of the outer loop: take leaf `i`. -/
def takeLeaf (z target : ℕ) (leaf : ℕ → Option α) (node : ℕ → ℕ → α → α → Option α) (s : TreeStack α × List α)
    (i : ℕ) : Option (TreeStack α × List α) :=
  (leaf i).bind fun value => joinUp z target node s.1 s.2 0 i value

/-- The root of a tree of height `z`, and the path that opens leaf `target`. -/
def treehashAuth [Inhabited α] (z target : ℕ) (leaf : ℕ → Option α) (node : ℕ → ℕ → α → α → Option α) :
    Option (α × List α) :=
  ((List.range (1 <<< z)).foldlM (takeLeaf z target leaf node) ([], List.replicate z default)).bind fun (stack, auth) =>
    match stack with
    | (height, _, root) :: rest => if rest.isEmpty ∧ height = z then some (root, auth) else none
    | [] => none

/-- The node function makes the nodes of a tree of height `z`. -/
def NodesOf (node? : ℕ → ℕ → α → α → Option α) (node : ℕ → ℕ → α → α → α) (z : ℕ) : Prop :=
  ∀ h < z, ∀ i < 2 ^ (z - (h + 1)), ∀ left right, node? (h + 1) i left right = some (node (h + 1) i left right)

theorem NodesOf.total (node : ℕ → ℕ → α → α → α) (z : ℕ) :
    NodesOf (fun h i left right => some (node h i left right)) node z :=
  fun _ _ _ _ _ _ => rfl

/-! ### The invariant -/

section invariant

variable (leaf : ℕ → α) (node : ℕ → ℕ → α → α → α)

/-- The nodes that wait from height `h` on, when `n` nodes of height `h` are complete: one
for each set bit of `n`. -/
def pending : (levels h n : ℕ) → TreeStack α
  | 0, _, _ => []
  | k + 1, h, n =>
    if n % 2 = 1 then (h, n - 1, nodeAt leaf node h (n - 1)) :: pending k (h + 1) (n / 2)
    else pending k (h + 1) (n / 2)

/-- The path to `target` as far as its nodes are complete after `i` leaves. -/
def pathSeen [Inhabited α] (target i j : ℕ) : α :=
  if (sibling target j + 1) * 2 ^ j ≤ i then authPath leaf node target j else default

variable {leaf node}

theorem pending_zero (k h : ℕ) : pending leaf node k h 0 = [] := by
  induction k generalizing h with
  | zero => rfl
  | succ k ih => exact ih (h + 1)

/-- A full tree waits as one node. -/
theorem pending_two_pow (k h : ℕ) : pending leaf node (k + 1) h (2 ^ k) = [(h + k, 0, nodeAt leaf node (h + k) 0)] := by
  induction k generalizing h with
  | zero => simp [pending]
  | succ k ih =>
    have heven : 2 ^ (k + 1) % 2 = 0 := by rw [pow_succ, Nat.mul_mod_left]
    have hhalf : 2 ^ (k + 1) / 2 = 2 ^ k := by rw [pow_succ, Nat.mul_div_cancel _ Nat.two_pos]
    rw [pending, if_neg (by omega), hhalf, ih, Nat.add_right_comm, Nat.add_assoc]

/-- The nodes that wait from a height on have at least that height. -/
theorem height_of_pending {k h n h' i : ℕ} {v : α} {rest : TreeStack α}
    (hp : pending leaf node k h n = (h', i, v) :: rest) : h ≤ h' := by
  induction k generalizing h n with
  | zero => cases hp
  | succ k ih =>
    rw [pending] at hp
    split_ifs at hp
    · cases hp
      exact le_rfl
    · exact (Nat.le_succ h).trans (ih hp)

theorem set_map_range (z h : ℕ) (f : ℕ → α) (v : α) :
    ((List.range z).map f).set h v = (List.range z).map fun j => if j = h then v else f j := by
  refine List.ext_getElem (by simp) fun j _ _ => ?_
  simp only [List.getElem_set, List.getElem_map, List.getElem_range, eq_comm]

variable [Inhabited α]

/-- A node that is complete: it is noted if it is on the path. -/
theorem pathSeen_step (leaf : ℕ → α) (node : ℕ → ℕ → α → α → α) (target : ℕ) {i h n : ℕ} (hi : (n + 1) * 2 ^ h = i + 1) :
    pathSeen leaf node target (i + 1) h =
      if n = sibling target h then nodeAt leaf node h n else pathSeen leaf node target i h := by
  have hpos := Nat.two_pow_pos h
  unfold pathSeen
  rcases lt_trichotomy n (sibling target h) with hlt | heq | hgt
  · have : (n + 1) * 2 ^ h < (sibling target h + 1) * 2 ^ h := Nat.mul_lt_mul_of_pos_right (by omega) hpos
    rw [if_neg (by omega), if_neg (by omega), if_neg (by omega)]
  · rw [if_pos (by rw [← heq, hi]), if_pos heq, authPath, heq]
  · have : (sibling target h + 1) * 2 ^ h ≤ n * 2 ^ h := Nat.mul_le_mul_right _ hgt
    rw [Nat.succ_mul] at hi
    rw [if_pos (by omega), if_neg (by omega), if_pos (by omega)]

/-- Above a node that is not joined, nothing is complete. -/
theorem pathSeen_above {target i h n j : ℕ} (hi : (n + 1) * 2 ^ h = i + 1) (hn : n % 2 = 0) (hj : h < j) :
    pathSeen leaf node target (i + 1) j = pathSeen leaf node target i j := by
  obtain ⟨r, rfl⟩ : ∃ r, j = h + (r + 1) := ⟨j - h - 1, by omega⟩
  have hne : (sibling target (h + (r + 1)) + 1) * 2 ^ (h + (r + 1)) ≠ i + 1 := by
    intro heq
    have hmul : (sibling target (h + (r + 1)) + 1) * 2 ^ (h + (r + 1)) =
        2 * ((sibling target (h + (r + 1)) + 1) * 2 ^ r) * 2 ^ h := by
      rw [pow_add, pow_succ]
      ring
    have hodd := Nat.eq_of_mul_eq_mul_right (Nat.two_pow_pos h) ((hmul.symm.trans heq).trans hi.symm)
    omega
  unfold pathSeen
  have hiff : (sibling target (h + (r + 1)) + 1) * 2 ^ (h + (r + 1)) ≤ i + 1 ↔
      (sibling target (h + (r + 1)) + 1) * 2 ^ (h + (r + 1)) ≤ i := by omega
  simp only [hiff]

/-- The path while leaf `i` is on its way up: below height `h` it has been seen to. -/
def pathMid (leaf : ℕ → α) (node : ℕ → ℕ → α → α → α) (target i h j : ℕ) : α :=
  if j < h then pathSeen leaf node target (i + 1) j else pathSeen leaf node target i j

/-- Noting the node at height `h`. -/
theorem note_pathMid {z target i h n : ℕ} (hi : (n + 1) * 2 ^ h = i + 1) :
    (if h < z ∧ n = (target >>> h) ^^^ 1 then
        ((List.range z).map (pathMid leaf node target i h)).set h (nodeAt leaf node h n)
      else (List.range z).map (pathMid leaf node target i h)) =
      (List.range z).map (pathMid leaf node target i (h + 1)) := by
  have hstep := pathSeen_step leaf node target hi
  have hother {j : ℕ} (hj : j ≠ h) : pathMid leaf node target i (h + 1) j = pathMid leaf node target i h j := by
    unfold pathMid
    rcases Nat.lt_or_gt_of_ne hj with hlt | hgt
    · rw [if_pos (by omega), if_pos hlt]
    · rw [if_neg (by omega), if_neg (by omega)]
  have hself : pathMid leaf node target i (h + 1) h =
      if n = sibling target h then nodeAt leaf node h n else pathMid leaf node target i h h := by
    rw [pathMid, pathMid, if_pos h.lt_succ_self, if_neg (lt_irrefl h), hstep]
  change (if h < z ∧ n = sibling target h then _ else _) = _
  split_ifs with hnote
  · rw [set_map_range]
    refine List.map_congr_left fun j _ => ?_
    rcases eq_or_ne j h with rfl | hj
    · rw [if_pos rfl, hself, if_pos hnote.2]
    · rw [if_neg hj, hother hj]
  · refine List.map_congr_left fun j hj => ?_
    rcases eq_or_ne j h with rfl | hne
    · rw [hself, if_neg fun hsib => hnote ⟨List.mem_range.mp hj, hsib⟩]
    · rw [hother hne]

/-- **One leaf on its way up**: the carry of adding one to the number of leaves. -/
theorem joinUp_pending (leaf : ℕ → α) {node? : ℕ → ℕ → α → α → Option α} {node : ℕ → ℕ → α → α → α} {z : ℕ}
    (hnodes : NodesOf node? node z) (target : ℕ) {i : ℕ} (hz : i + 1 ≤ 2 ^ z) (k : ℕ) :
    ∀ {h n : ℕ}, (n + 1) * 2 ^ h = i + 1 → n + 1 < 2 ^ k →
    joinUp z target node? (pending leaf node k h n) ((List.range z).map (pathMid leaf node target i h)) h n
        (nodeAt leaf node h n) =
      some (pending leaf node k h (n + 1), (List.range z).map (pathSeen leaf node target (i + 1))) := by
  induction k with
  | zero =>
    intro h n _ hlt
    rw [pow_zero] at hlt
    omega
  | succ k ih =>
    intro h n hi hlt
    rw [pow_succ] at hlt
    unfold joinUp
    simp only [note_pathMid hi]
    rcases Nat.mod_two_eq_zero_or_one n with hn | hn
    · -- no left neighbour: the node waits itself
      have hafter : (List.range z).map (pathMid leaf node target i (h + 1)) =
          (List.range z).map (pathSeen leaf node target (i + 1)) := by
        refine List.map_congr_left fun j _ => ?_
        unfold pathMid
        split_ifs with hj
        · rfl
        · rw [pathSeen_above hi hn (by omega)]
      have hbefore : pending leaf node (k + 1) h n = pending leaf node k (h + 1) (n / 2) := if_neg (by omega)
      have hpush : pending leaf node (k + 1) h (n + 1) =
          (h, n, nodeAt leaf node h n) :: pending leaf node k (h + 1) (n / 2) := by
        rw [pending, if_pos (by omega), Nat.add_sub_cancel, show (n + 1) / 2 = n / 2 by omega]
      rw [hbefore, hpush, hafter]
      rcases hstack : pending leaf node k (h + 1) (n / 2) with _ | ⟨⟨h', i', v⟩, rest⟩
      · rfl
      · have hle := height_of_pending hstack
        simp only
        rw [if_neg (by omega)]
    · -- join with the left neighbour, and carry on one level higher
      have hbefore : pending leaf node (k + 1) h n =
          (h, n - 1, nodeAt leaf node h (n - 1)) :: pending leaf node k (h + 1) (n / 2) := if_pos hn
      have hafter : pending leaf node (k + 1) h (n + 1) = pending leaf node k (h + 1) (n / 2 + 1) := by
        rw [pending, if_neg (by omega), show (n + 1) / 2 = n / 2 + 1 by omega]
      have hnode : node (h + 1) (n / 2) (nodeAt leaf node h (n - 1)) (nodeAt leaf node h n) =
          nodeAt leaf node (h + 1) (n / 2) := by
        rw [nodeAt, show 2 * (n / 2) = n - 1 by omega, show n - 1 + 1 = n by omega]
      have hi' : (n / 2 + 1) * 2 ^ (h + 1) = i + 1 := by
        rw [← hi, pow_succ, show n + 1 = (n / 2 + 1) * 2 by omega]
        ring
      -- the node is in the tree, since its last leaf is
      have hroom : (n / 2 + 1) * 2 ^ (h + 1) ≤ 2 ^ z := hi'.le.trans hz
      have hh : h + 1 ≤ z := (Nat.pow_le_pow_iff_right (by norm_num)).mp
        ((Nat.le_mul_of_pos_left _ (Nat.succ_pos _)).trans hroom)
      have hindex : n / 2 < 2 ^ (z - (h + 1)) := by
        refine Nat.lt_of_mul_lt_mul_right (a := 2 ^ (h + 1)) ?_
        rw [← pow_add, Nat.sub_add_cancel hh]
        rw [Nat.succ_mul] at hroom
        have := Nat.two_pow_pos (h + 1)
        omega
      rw [hbefore]
      simp only [if_true, xor_one_of_odd hn, Nat.shiftRight_one, hnodes h hh _ hindex, Option.bind_some, hnode]
      rw [ih hi' (by omega), hafter]

end invariant

/-- **The streaming tree hash** returns the root of the tree and the path to the target. -/
theorem treehashAuth_eq [Inhabited α] {z target : ℕ} (ht : target < 2 ^ z) {leaf? : ℕ → Option α} {leaf : ℕ → α}
    (hleaf : ∀ i < 2 ^ z, leaf? i = some (leaf i)) {node? : ℕ → ℕ → α → α → Option α} {node : ℕ → ℕ → α → α → α}
    (hnodes : NodesOf node? node z) :
    treehashAuth z target leaf? node? =
      some (nodeAt leaf node z 0, (List.range z).map (authPath leaf node target)) := by
  have hfold := foldlM_range_eq_some (n := 2 ^ z) (f := takeLeaf z target leaf? node?)
    (fun i => (pending leaf node (z + 1) 0 i, (List.range z).map (pathSeen leaf node target i))) fun i hi => by
      have hlt : i + 1 < 2 ^ (z + 1) := by
        have := Nat.two_pow_pos z
        rw [pow_succ]
        omega
      have hstart : pathMid leaf node target i 0 = pathSeen leaf node target i :=
        funext fun j => if_neg (Nat.not_lt_zero j)
      have hup := joinUp_pending leaf hnodes target (i := i) hi (z + 1) (h := 0) (n := i) (by simp) hlt
      rw [takeLeaf, hleaf i hi, Option.bind_some, ← hup, hstart]
      rfl
  have hnone : (List.range z).map (pathSeen leaf node target 0) = List.replicate z default := by
    have hzero : pathSeen leaf node target 0 = fun _ => default := by
      funext j
      refine if_neg ?_
      exact Nat.not_le.mpr (Nat.mul_pos (sibling target j).succ_pos (Nat.two_pow_pos j))
    rw [hzero, List.map_const', List.length_range]
  have hall : (List.range z).map (pathSeen leaf node target (2 ^ z)) =
      (List.range z).map (authPath leaf node target) := by
    refine List.map_congr_left fun j hj => if_pos ?_
    have hj := List.mem_range.mp hj
    calc (sibling target j + 1) * 2 ^ j ≤ 2 ^ (z - j) * 2 ^ j := Nat.mul_le_mul_right _ (sibling_lt ht hj)
      _ = 2 ^ z := by rw [← pow_add, Nat.sub_add_cancel hj.le]
  simp only [pending_zero, hnone, hall, pending_two_pow, Nat.zero_add] at hfold
  rw [treehashAuth, Nat.one_shiftLeft, hfold]
  simp

/-! ### The path opens the leaf -/

/-- The way from a leaf to the root: each sibling of the path on its side of the node. -/
def foldAuth (node : ℕ → ℕ → α → α → α) (target : ℕ) (leaf : α) (auth : List α) : α :=
  auth.zipIdx.foldl (fun x (sibling, j) =>
    if (target >>> j) &&& 1 = 0 then node (j + 1) (target >>> (j + 1)) x sibling
    else node (j + 1) (target >>> (j + 1)) sibling x) leaf

theorem foldAuth_map_range (node : ℕ → ℕ → α → α → α) (target : ℕ) (leaf : α) (path : ℕ → α) (z : ℕ) :
    foldAuth node target leaf ((List.range z).map path) = climb node target path leaf z := by
  rw [foldAuth, zipIdx_map_range, List.foldl_map]
  refine foldl_range_eq (climb node target path leaf) fun j _ => ?_
  simp only [Nat.and_one_is_mod]
  rw [climb]

/-- **The streaming tree hash opens its target**: for every height, target, leaves and nodes it
ends with the root of the tree, and with the sibling of the target's ancestor at each height,
so that the path leads from the leaf to the root. -/
theorem treehashAuth_opens [Inhabited α] {z target : ℕ} (ht : target < 2 ^ z) (leaf : ℕ → α) (node : ℕ → ℕ → α → α → α) :
    ∃ auth, treehashAuth z target (fun i => some (leaf i)) (fun h i left right => some (node h i left right)) =
        some (nodeAt leaf node z 0, auth) ∧ auth.length = z ∧
      (∀ j < z, auth[j]? = some (nodeAt leaf node j ((target >>> j) ^^^ 1))) ∧
      foldAuth node target (leaf target) auth = nodeAt leaf node z 0 := by
  have hrun := treehashAuth_eq ht (fun i _ => @rfl _ (some (leaf i))) (NodesOf.total node z)
  refine ⟨_, hrun, by simp, fun j hj => getElem?_map_range hj _, ?_⟩
  rw [foldAuth_map_range]
  exact climb_root leaf ht fun _ _ => rfl

/-- A tree of four leaves whose nodes say what they are made of. -/
theorem treehashAuth_opens_two :
    ∃ auth, treehashAuth 2 1 (fun i => some (10 + i)) (fun h i l r => some (h + i + l + 2 * r)) = some (115, auth) ∧
      foldAuth (fun h i l r => h + i + l + 2 * r) 1 11 auth = 115 := by
  obtain ⟨auth, hrun, -, -, hfold⟩ := treehashAuth_opens (show 1 < 2 ^ 2 by decide) (fun i => 10 + i)
    (fun h i l r => h + i + l + 2 * r)
  exact ⟨auth, hrun, hfold⟩

end KaspaPqv.SlhScript
