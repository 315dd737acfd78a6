import KaspaPqv.LmsScript.Verify
import KaspaPqv.VaultCore.Preflight

/-!
# Vaults

One LMS key, and the redeem scripts its leaves are unlocked by; what a spend of a leaf
leaves of the vault, and where its change goes.

## What is proved

* `Vault.redeemScript_eq_ok` — every leaf in range has a redeem script.
-/

namespace KaspaPqv.LmsWallet

open KaspaPqv.Lib KaspaPqv.Script KaspaPqv.VaultCore KaspaPqv.LmsScript

/-- The parameters of the wallet's vaults. -/
def vaultParams : LmsParams := .sha256H15W2

/-- Destination and change. -/
def canonicalOutputCount : ℕ := 2

/-- A vault's public material. -/
structure Vault where
  publicKey : LmsPublicKey

/-- How much of a vault's supply of one-time keys is left. -/
structure LeafBudget where
  leaf : UInt32
  total : UInt32
  remaining : UInt32
  deriving DecidableEq

/-- Which vault a change output belongs to: the same one, at the next leaf, or the next
one, at its first leaf. -/
inductive ChangeTarget where
  | nextLeaf (keyIndex leaf : UInt32)
  | nextVault (keyIndex leaf : UInt32)
  deriving DecidableEq

/-- Where change from spending `leaf` of `keyIndex` should go. -/
def changeTarget (keyIndex leaf leafCount : UInt32) : ChangeTarget :=
  if leaf + 1 < leafCount then .nextLeaf keyIndex (leaf + 1) else .nextVault (keyIndex + 1) 0

namespace Vault

/-- The number of one-time leaves. -/
def leafCount (_ : Vault) : UInt32 := UInt32.ofNat vaultParams.leafCount

/-- The budget after spending `leaf`; the subtraction saturates. -/
def budgetAfter (vault : Vault) (leaf : UInt32) : LeafBudget where
  leaf := leaf
  total := vault.leafCount
  remaining := if leaf + 1 ≤ vault.leafCount then vault.leafCount - (leaf + 1) else 0

/-- Where change from spending `leaf` goes. -/
def changeTarget (vault : Vault) (keyIndex leaf : UInt32) : ChangeTarget :=
  LmsWallet.changeTarget keyIndex leaf vault.leafCount

variable {Params : Type} (kaspa : Kaspa Params)

/-- The redeem script for a number of outputs. -/
def redeemScriptForShape (vault : Vault) (leaf : UInt32) (outputCount : ℕ) : Except String Bytes := do
  ensure (leaf < vault.leafCount) s!"leaf {leaf} out of range"
  let script ← (emitVaultScript vaultParams vault.publicKey leaf.toNat outputCount : Gen Unit Instr String Unit).code ()
  pure (kaspa.build script)

/-- The redeem script for one leaf. -/
def redeemScript (vault : Vault) (leaf : UInt32) : Except String Bytes :=
  vault.redeemScriptForShape kaspa leaf canonicalOutputCount

/-- **Every leaf in range has a redeem script.** -/
theorem redeemScript_eq_ok (vault : Vault) {leaf : UInt32} (h : leaf < vault.leafCount) :
    ∃ script, vault.redeemScript kaspa leaf = .ok script := by
  have hleaf : leaf.toNat < vaultParams.leafCount := UInt32.lt_iff_toNat_lt.mp h
  obtain ⟨is, hcode⟩ := emitVaultScript_code (by decide) (.inl rfl) vault.publicKey hleaf
    (n := canonicalOutputCount) (by decide) (by decide)
  refine ⟨kaspa.build is, ?_⟩
  rw [redeemScript, redeemScriptForShape, ensure_bind_eq_ok, hcode]
  exact ⟨h, rfl⟩

end Vault

end KaspaPqv.LmsWallet
