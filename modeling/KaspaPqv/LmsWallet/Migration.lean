import KaspaPqv.LmsWallet.Run

/-!
# Planning a migration

A migration moves what is left of a vault into the vault of the next key index: the
destination carries the funds, and the change output, which a spend cannot do without,
the dust minimum. It is meant to be available at any leaf.

The plan leaves nothing for the change output, and takes the next key index only at the
last leaf.

## What is proved

* `planMigration_eq_ok` — when there is a plan, and what it is.
* `planMigration_realisable_iff` — every plan is realisable exactly where there is none.
* `fee_of_plan` — what a spend of the planned amount falls short of the fee by.
-/

namespace KaspaPqv.LmsWallet

open KaspaPqv.Lib KaspaPqv.Script KaspaPqv.VaultCore

/-- A migration. -/
structure MigrationPlan where
  /-- The vault the funds are leaving. -/
  fromKeyIndex : UInt32
  /-- The vault they are entering. -/
  toKeyIndex : UInt32
  leaf : UInt32
  /-- What will land in the new vault, after the fee. -/
  amount : UInt64
  deriving DecidableEq

/-- Plan a migration into the next key index. -/
def planMigration (vault : Vault) (keyIndex : UInt32) (utxo : VaultUtxo) (fee : UInt64) :
    Except String MigrationPlan := do
  ensure (fee < utxo.amount) s!"fee {fee} exceeds the {utxo.amount} available"
  let target := vault.changeTarget keyIndex utxo.leaf
  pure ⟨keyIndex, target.keyIndex, utxo.leaf, utxo.amount - fee⟩

/-- A spend of two outputs carries out a plan: the first delivers the amount to the new vault,
the other one can be relayed, and the fee asked for is left. -/
def Realises (destination : ScriptPublicKey) (plan : MigrationPlan) (utxo : VaultUtxo) (fee : UInt64)
    (outputs : List OutputView) : Prop :=
  ∃ other : OutputView, outputs = [⟨plan.amount, destination.version, destination.script⟩, other] ∧
    dustThreshold ≤ other.amount ∧ outputsTotal outputs + fee.toNat ≤ utxo.amount.toNat

variable {vault : Vault} {keyIndex : UInt32} {utxo : VaultUtxo} {fee : UInt64} {plan : MigrationPlan}

/-- **When there is a plan**: the coin is worth more than the fee. -/
theorem planMigration_eq_ok : planMigration vault keyIndex utxo fee = .ok plan ↔
    fee < utxo.amount ∧
      plan = ⟨keyIndex, (vault.changeTarget keyIndex utxo.leaf).keyIndex, utxo.leaf, utxo.amount - fee⟩ := by
  rw [planMigration, ensure_bind_eq_ok]
  simp [pure, Except.pure, eq_comm]

/-- The whole balance moves, less the fee. -/
theorem planMigration_amount (h : planMigration vault keyIndex utxo fee = .ok plan) :
    plan.amount.toNat + fee.toNat = utxo.amount.toNat := by
  obtain ⟨hfee, rfl⟩ := planMigration_eq_ok.mp h
  have hlt := UInt64.lt_iff_toNat_lt.mp hfee
  have hamount : (utxo.amount - fee).toNat = utxo.amount.toNat - fee.toNat :=
    UInt64.toNat_sub_of_le _ _ (UInt64.le_iff_toNat_le.mpr hlt.le)
  change (utxo.amount - fee).toNat + _ = _
  omega

/-- Only at the last leaf is the next key index the one the funds go to. -/
theorem planMigration_toKeyIndex (h : planMigration vault keyIndex utxo fee = .ok plan)
    (hleaf : utxo.leaf < vault.leafCount) :
    plan.toKeyIndex = if utxo.leaf + 1 = vault.leafCount then keyIndex + 1 else keyIndex := by
  obtain ⟨-, rfl⟩ := planMigration_eq_ok.mp h
  have hcount : vault.leafCount.toNat = 32768 := rfl
  have hlt := UInt32.lt_iff_toNat_lt.mp hleaf
  have hsucc : (utxo.leaf + 1).toNat = utxo.leaf.toNat + 1 := by
    rw [UInt32.toNat_add, UInt32.toNat_one]
    omega
  simp only [Vault.changeTarget, changeTarget, UInt32.lt_iff_toNat_lt, ← UInt32.toNat_inj, hsucc, hcount]
  split_ifs with hnext hlast
  · omega
  · rfl
  · rfl
  · omega

/-- **Room for both outputs** is what a plan needs. -/
theorem exists_realises_iff {destination : ScriptPublicKey} :
    (∃ outputs, Realises destination plan utxo fee outputs) ↔
      plan.amount.toNat + dustThreshold.toNat + fee.toNat ≤ utxo.amount.toNat := by
  constructor
  · rintro ⟨_, other, rfl, hdust, htotal⟩
    have hdust' := UInt64.le_iff_toNat_le.mp hdust
    simp only [outputsTotal, List.map_cons, List.map_nil, List.sum_cons, List.sum_nil] at htotal
    omega
  · intro h
    refine ⟨_, ⟨dustThreshold, destination.version, destination.script⟩, rfl, UInt64.le_refl _, ?_⟩
    simp only [outputsTotal, List.map_cons, List.map_nil, List.sum_cons, List.sum_nil]
    omega

/-- A plan leaves no room for the other output. -/
theorem not_realises {destination : ScriptPublicKey} (h : planMigration vault keyIndex utxo fee = .ok plan) :
    ¬∃ outputs, Realises destination plan utxo fee outputs := by
  rw [exists_realises_iff]
  have hamount := planMigration_amount h
  have hdust : dustThreshold.toNat = 2000000 := rfl
  omega

/-- **No plan is realisable**: every call is refused, or its plan cannot be carried out. -/
theorem planMigration_realisable_iff (vault : Vault) (keyIndex : UInt32) (utxo : VaultUtxo) (fee : UInt64)
    (destination : ScriptPublicKey) :
    (∀ plan, planMigration vault keyIndex utxo fee = .ok plan → plan.toKeyIndex.toNat = keyIndex.toNat + 1 ∧
      ∃ outputs, Realises destination plan utxo fee outputs) ↔ utxo.amount ≤ fee := by
  constructor
  · intro h
    by_contra hfee
    obtain ⟨plan, hplan⟩ : ∃ plan, planMigration vault keyIndex utxo fee = .ok plan :=
      ⟨_, planMigration_eq_ok.mpr ⟨UInt64.not_le.mp hfee, rfl⟩⟩
    exact not_realises hplan (h _ hplan).2
  · intro hfee plan hplan
    exact absurd (planMigration_eq_ok.mp hplan).1 (UInt64.not_lt.mpr hfee)

/-- Ten coins at the first leaf, and a fee of five thousand. -/
theorem not_planMigration_realisable :
    ¬∀ (vault : Vault) (keyIndex : UInt32) (utxo : VaultUtxo) (fee : UInt64) (destination : ScriptPublicKey)
      (plan : MigrationPlan), keyIndex.toNat < 2 ^ 31 - 1 → utxo.leaf < vault.leafCount →
      planMigration vault keyIndex utxo fee = .ok plan → plan.toKeyIndex.toNat = keyIndex.toNat + 1 ∧
        ∃ outputs, Realises destination plan utxo fee outputs := by
  intro h
  have hplan : planMigration testVault 2 ⟨Block.zero 32, 0, 1000000000, 0⟩ 5000 = .ok ⟨2, 2, 0, 999995000⟩ := rfl
  exact not_realises hplan (h _ _ _ _ ⟨0, []⟩ _ (by decide) (by decide) hplan).2

/-- **A spend of the planned amount** that is estimated, its total not wrapping, falls short of the fee
asked for by all that its other output carries, and so by the dust minimum at least. -/
theorem fee_of_plan {Params : Type} {kaspa : Kaspa Params} {shape : SpendShape Params} {r : PreflightReport}
    {destination other : OutputView} (h : planMigration vault keyIndex utxo fee = .ok plan)
    (hamount : destination.amount = plan.amount) (houtputs : shape.outputs = [destination, other])
    (hutxo : shape.utxoAmount = utxo.amount) (hr : estimate kaspa shape = .ok r)
    (hwraps : ¬WrapsUnnoticed kaspa shape) : r.fee.toNat + dustThreshold.toNat ≤ fee.toNat := by
  have hlt : outputsTotal shape.outputs < 2 ^ 64 := Nat.lt_of_not_le fun hle => hwraps (wrapsUnnoticed_of_estimate hr hle)
  have hfee := estimate_fee hr
  rw [Nat.mod_eq_of_lt hlt, houtputs, hutxo] at hfee
  obtain ⟨-, -, hdust, -⟩ := estimate_eq_ok.mp hr
  have hother := UInt64.le_iff_toNat_le.mp (hdust other (by simp [houtputs]))
  have hplanned := planMigration_amount h
  simp only [outputsTotal, List.map_cons, List.map_nil, List.sum_cons, List.sum_nil, hamount] at hfee
  omega

end KaspaPqv.LmsWallet
