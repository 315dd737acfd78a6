import KaspaPqv.LmsWallet.Run

/-!
# The life of a vault

A vault has a fixed number of one-time keys, and every spend uses up one. After the last leaf the
change starts the next vault, at the next key index. The wallet warns before that happens, and
the closer it comes the more urgently.

Here spends are counted from the first leaf of a key index, whatever is moved by them.

## What is proved

* `advance_iterate` — which key index and which leaf the `n`-th spend is made from.
* `advance_inj` — no two spends are made from one leaf.
* `status_eq` — which leaves have which status.
* `advance_lifecycle` — what all this comes to, along any number of spends.
-/

namespace KaspaPqv.LmsWallet

/-- Leaves consumed before the wallet starts warning. -/
def leafWarningThreshold : UInt32 := 30000

/-- Leaves remaining at which the warning becomes urgent. -/
def leafCriticalRemaining : UInt32 := 100

/-- Whether a vault needs attention. -/
inductive BudgetStatus where
  | healthy
  | approaching
  | critical
  | exhausted
  deriving DecidableEq

namespace LeafBudget

def status (budget : LeafBudget) : BudgetStatus :=
  if budget.remaining = 0 then .exhausted
  else if budget.remaining ≤ leafCriticalRemaining then .critical
  else if budget.leaf ≥ leafWarningThreshold then .approaching
  else .healthy

/-- The wallet should prompt the user to migrate. -/
def shouldPromptMigration (budget : LeafBudget) : Bool := budget.status ≠ .healthy

/-- The line that is shown after a spend. -/
def summary (budget : LeafBudget) : String :=
  match budget.status with
  | .healthy => s!"{budget.remaining} of {budget.total} one-time keys remaining"
  | .approaching => s!"{budget.remaining} of {budget.total} one-time keys remaining. Consider migrating this vault to the " ++
      "next key index; the wallet can move the balance for you."
  | .critical => s!"Only {budget.remaining} one-time keys remaining. Migrate to the next key index now — " ++
      "when the last leaf is spent, any balance left here can no longer be moved."
  | .exhausted => "This vault is exhausted. No further spends are possible from it."

end LeafBudget

/-- How urgent a status is. -/
def BudgetStatus.urgency : BudgetStatus → ℕ
  | .healthy => 0
  | .approaching => 1
  | .critical => 2
  | .exhausted => 3

namespace Vault

variable (vault : Vault)

/-- The key index and the leaf that the change of a spend is paid to. -/
def advance (key : UInt32 × UInt32) : UInt32 × UInt32 :=
  let target := vault.changeTarget key.1 key.2
  (target.keyIndex, target.leaf)

theorem toNat_leafCount : vault.leafCount.toNat = 32768 := rfl

/-! ### The walk -/

theorem toNat_succ {leaf : UInt32} (h : leaf < vault.leafCount) : (leaf + 1).toNat = leaf.toNat + 1 := by
  have hlt := UInt32.lt_iff_toNat_lt.mp h
  rw [toNat_leafCount] at hlt
  rw [UInt32.toNat_add, UInt32.toNat_one]
  omega

/-- Only the last leaf pays its change to the next vault. -/
theorem changeTarget_eq (keyIndex : UInt32) {leaf : UInt32} (h : leaf < vault.leafCount) :
    vault.changeTarget keyIndex leaf =
      if leaf.toNat = 32767 then .nextVault (keyIndex + 1) 0 else .nextLeaf keyIndex (leaf + 1) := by
  have hlt := UInt32.lt_iff_toNat_lt.mp h
  have hnext : leaf + 1 < vault.leafCount ↔ leaf.toNat + 1 < 32768 := by
    rw [UInt32.lt_iff_toNat_lt, vault.toNat_succ h, toNat_leafCount]
  rw [toNat_leafCount] at hlt
  unfold changeTarget LmsWallet.changeTarget
  by_cases hmore : leaf.toNat + 1 < 32768
  · rw [if_pos (hnext.mpr hmore), if_neg (by omega)]
  · rw [if_neg fun hlt' => hmore (hnext.mp hlt'), if_pos (by omega)]

/-- **After `n` spends** from the first leaf of a key index. -/
theorem advance_iterate (k : UInt32) (n : ℕ) (h : k.toNat + n / vault.leafCount.toNat < 2 ^ 32) :
    (vault.advance^[n] (k, 0)).1.toNat = k.toNat + n / vault.leafCount.toNat ∧
      (vault.advance^[n] (k, 0)).2.toNat = n % vault.leafCount.toNat := by
  induction n with
  | zero => simp
  | succ n ih =>
    rw [toNat_leafCount] at h ih ⊢
    obtain ⟨hindex, hleaf⟩ := ih (by omega)
    have hlt : (vault.advance^[n] (k, 0)).2 < vault.leafCount := by
      rw [UInt32.lt_iff_toNat_lt, hleaf, toNat_leafCount]
      omega
    rw [Function.iterate_succ_apply', advance, vault.changeTarget_eq _ hlt, hleaf]
    by_cases hlast : n % 32768 = 32767
    · rw [if_pos hlast]
      change ((vault.advance^[n] (k, 0)).1 + 1).toNat = _ ∧ (0 : UInt32).toNat = _
      rw [UInt32.toNat_add, UInt32.toNat_one, UInt32.toNat_zero, hindex]
      omega
    · rw [if_neg hlast]
      change (vault.advance^[n] (k, 0)).1.toNat = _ ∧ ((vault.advance^[n] (k, 0)).2 + 1).toNat = _
      rw [vault.toNat_succ hlt, hindex, hleaf]
      omega

/-- **No two spends are made from one leaf**, as long as there are key indices. -/
theorem advance_inj (k : UInt32) {m n : ℕ} (hm : k.toNat + m / vault.leafCount.toNat < 2 ^ 32)
    (hn : k.toNat + n / vault.leafCount.toNat < 2 ^ 32) (h : vault.advance^[m] (k, 0) = vault.advance^[n] (k, 0)) :
    m = n := by
  obtain ⟨hindex, hleaf⟩ := vault.advance_iterate k m hm
  obtain ⟨hindex', hleaf'⟩ := vault.advance_iterate k n hn
  rw [h] at hindex hleaf
  rw [← Nat.div_add_mod m vault.leafCount.toNat, ← Nat.div_add_mod n vault.leafCount.toNat, ← hleaf, ← hleaf',
    Nat.add_left_cancel (hindex.symm.trans hindex')]

/-! ### The status -/

theorem toNat_remaining {leaf : UInt32} (h : leaf < vault.leafCount) :
    (vault.budgetAfter leaf).remaining.toNat = vault.leafCount.toNat - 1 - leaf.toNat := by
  have hlt := UInt32.lt_iff_toNat_lt.mp h
  have hsucc := vault.toNat_succ h
  have hle : leaf + 1 ≤ vault.leafCount := by
    rw [UInt32.le_iff_toNat_le, hsucc]
    exact hlt
  rw [budgetAfter, if_pos hle, UInt32.toNat_sub_of_le _ _ hle, hsucc]
  omega

/-- **Which leaves have which status.** -/
theorem status_eq {leaf : UInt32} (h : leaf < vault.leafCount) : (vault.budgetAfter leaf).status =
    if leaf.toNat = 32767 then .exhausted else if 32667 ≤ leaf.toNat then .critical
    else if 30000 ≤ leaf.toNat then .approaching else .healthy := by
  have hlt := UInt32.lt_iff_toNat_lt.mp h
  have hrest := vault.toNat_remaining h
  rw [toNat_leafCount] at hlt hrest
  have hexhausted : (vault.budgetAfter leaf).remaining = 0 ↔ leaf.toNat = 32767 := by
    rw [← UInt32.toNat_inj, hrest, UInt32.toNat_zero]
    omega
  have hcritical : (vault.budgetAfter leaf).remaining ≤ leafCriticalRemaining ↔ 32667 ≤ leaf.toNat := by
    rw [UInt32.le_iff_toNat_le, hrest, show leafCriticalRemaining.toNat = 100 from rfl]
    omega
  have happroaching : (vault.budgetAfter leaf).leaf ≥ leafWarningThreshold ↔ 30000 ≤ leaf.toNat :=
    UInt32.le_iff_toNat_le
  simp only [LeafBudget.status, hexhausted, hcritical, happroaching]

/-- Later leaves are not less urgent. -/
theorem urgency_mono {leaf leaf' : UInt32} (hle : leaf ≤ leaf') (h : leaf' < vault.leafCount) :
    (vault.budgetAfter leaf).status.urgency ≤ (vault.budgetAfter leaf').status.urgency := by
  have hle' := UInt32.le_iff_toNat_le.mp hle
  have hlt := UInt32.lt_iff_toNat_lt.mp h
  rw [vault.status_eq h, vault.status_eq (UInt32.lt_of_le_of_lt hle h)]
  rw [toNat_leafCount] at hlt
  split_ifs <;> first | omega | decide

/-- **The change of an exhausted vault** goes to the next one. -/
theorem isMigration_iff (keyIndex : UInt32) {leaf : UInt32} (h : leaf < vault.leafCount) :
    (vault.changeTarget keyIndex leaf).isMigration = true ↔ (vault.budgetAfter leaf).status = .exhausted := by
  rw [vault.changeTarget_eq keyIndex h, vault.status_eq h]
  split_ifs <;> simp [ChangeTarget.isMigration]

/-- **Along any number of spends** from the first leaf of a key index, as long as there are key indices: the leaves of
each vault are used in order, and none twice; its change goes to the next vault when its supply is exhausted, and
only then; and the user is told to migrate from leaf 30000 of each vault on, never less urgently than before. -/
theorem advance_lifecycle (k : UInt32) (n : ℕ) (h : k.toNat + n / vault.leafCount.toNat < 2 ^ 32) :
    let key := vault.advance^[n] (k, 0)
    key.1.toNat = k.toNat + n / vault.leafCount.toNat ∧ key.2.toNat = n % vault.leafCount.toNat ∧
      (∀ m < n, vault.advance^[m] (k, 0) ≠ key) ∧
      ((vault.changeTarget key.1 key.2).isMigration = true ↔ (vault.budgetAfter key.2).status = .exhausted) ∧
      ((vault.budgetAfter key.2).shouldPromptMigration = true ↔
        leafWarningThreshold.toNat ≤ n % vault.leafCount.toNat) ∧
      ∀ m < n, m / vault.leafCount.toNat = n / vault.leafCount.toNat →
        (vault.budgetAfter (vault.advance^[m] (k, 0)).2).status.urgency ≤ (vault.budgetAfter key.2).status.urgency := by
  intro key
  obtain ⟨hindex, hleaf⟩ := vault.advance_iterate k n h
  have hlt : key.2 < vault.leafCount := by
    rw [UInt32.lt_iff_toNat_lt, hleaf]
    exact Nat.mod_lt n (Nat.zero_lt_succ 32767)
  have hearlier {m : ℕ} (hm : m < n) : k.toNat + m / vault.leafCount.toNat < 2 ^ 32 :=
    (Nat.add_le_add_left (Nat.div_le_div_right hm.le) _).trans_lt h
  refine ⟨hindex, hleaf, fun m hm hsame => ?_, vault.isMigration_iff key.1 hlt, ?_, fun m hm hvault => ?_⟩
  · exact absurd (vault.advance_inj k (hearlier hm) h hsame) hm.ne
  · rw [LeafBudget.shouldPromptMigration, vault.status_eq hlt, hleaf, show leafWarningThreshold.toNat = 30000 from rfl]
    split_ifs <;> simp <;> omega
  · obtain ⟨-, hleaf'⟩ := vault.advance_iterate k m (hearlier hm)
    refine vault.urgency_mono ?_ hlt
    have hm' := Nat.div_add_mod m vault.leafCount.toNat
    have hn' := Nat.div_add_mod n vault.leafCount.toNat
    rw [hvault] at hm'
    rw [UInt32.le_iff_toNat_le, hleaf', hleaf]
    omega

end Vault

/-- The first spend of the second vault. -/
theorem advance_lifecycle_next :
    (testVault.advance^[32768] (0, 0)).1.toNat = 1 ∧ (testVault.advance^[32768] (0, 0)).2.toNat = 0 := by
  obtain ⟨hindex, hleaf, -⟩ := testVault.advance_lifecycle 0 32768 (by decide)
  exact ⟨hindex, hleaf⟩

end KaspaPqv.LmsWallet
