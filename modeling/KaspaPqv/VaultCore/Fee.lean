import KaspaPqv.Script.Encoding
import KaspaPqv.VaultCore.Preflight
import Mathlib.Tactic.NormNum

/-!
# The fee of an estimate

The fee a spend is reported to cost is what its coin is worth less the total of its outputs.
The total is added up in 64 bits, before any bound on the amounts is checked, so it may wrap:
outputs worth far more than the coin then pass as outputs worth less.

## What is proved

* `estimate_fee_iff` — the fee is right, and no spend pays out more than its coin, unless the
  total wraps and every check passes with what is left of it.
* `not_estimate_fee` — such a spend: two outputs of `2 ^ 63` and more, from ten coins.
-/

namespace KaspaPqv.VaultCore

open KaspaPqv.Lib KaspaPqv.Script

/-! ### The total -/

/-- The total of the outputs over unbounded integers. -/
def outputsTotal (outputs : List OutputView) : ℕ := (outputs.map fun o => o.amount.toNat).sum

/-- Machine integers add up to the total, less what is carried out of the 64 bits. -/
theorem toNat_totalOut (outputs : List OutputView) : (totalOut outputs).toNat = outputsTotal outputs % 2 ^ 64 := by
  induction outputs with
  | nil => rfl
  | cons o outputs ih =>
    simp only [totalOut, outputsTotal, List.map_cons, List.sum_cons] at ih ⊢
    rw [UInt64.toNat_add, ih]
    simp [Nat.add_mod]

/-- A total that fits into 64 bits is added up right. -/
theorem toNat_totalOut_of_lt {outputs : List OutputView} (h : outputsTotal outputs < 2 ^ 64) :
    (totalOut outputs).toNat = outputsTotal outputs := by
  rw [toNat_totalOut, Nat.mod_eq_of_lt h]

variable {Params : Type} {kaspa : Kaspa Params} {shape : SpendShape Params} {r : PreflightReport}

/-- What the fee of a report is, whether or not the total wraps. -/
theorem estimate_fee (h : estimate kaspa shape = .ok r) :
    r.fee.toNat + outputsTotal shape.outputs % 2 ^ 64 = shape.utxoAmount.toNat := by
  obtain ⟨-, htotal, -, -, storage, -, rfl⟩ := estimate_eq_ok.mp h
  have hle := UInt64.le_iff_toNat_le.mp htotal
  have hfee : (shape.utxoAmount - totalOut shape.outputs).toNat =
      shape.utxoAmount.toNat - (totalOut shape.outputs).toNat := UInt64.toNat_sub_of_le _ _ htotal
  change (shape.utxoAmount - totalOut shape.outputs).toNat + _ = _
  rw [hfee, ← toNat_totalOut]
  omega

/-! ### A total that wraps -/

/-- The total wraps, and all that is checked of the spend holds: the total only as far as
64 bits show it. -/
structure WrapsUnnoticed (kaspa : Kaspa Params) (shape : SpendShape Params) : Prop where
  wraps : 2 ^ 64 ≤ outputsTotal shape.outputs
  count : shape.outputs.length = shape.expectedOutputCount
  within : outputsTotal shape.outputs % 2 ^ 64 ≤ shape.utxoAmount.toNat
  no_dust : ∀ o ∈ shape.outputs, dustThreshold ≤ o.amount
  relayable : ∀ o ∈ toOutputs shape.outputs, Relayable kaspa o
  storage : (kaspa.storageMass shape.params shape.tx [shape.utxoEntry]).isSome

/-- Such a spend is estimated. -/
theorem WrapsUnnoticed.estimate_eq_ok (h : WrapsUnnoticed kaspa shape) : ∃ r, estimate kaspa shape = .ok r := by
  obtain ⟨storage, hstorage⟩ := Option.isSome_iff_exists.mp h.storage
  refine ⟨shape.report kaspa storage, VaultCore.estimate_eq_ok.mpr ?_⟩
  have hwithin : totalOut shape.outputs ≤ shape.utxoAmount := by
    rw [UInt64.le_iff_toNat_le, toNat_totalOut]
    exact h.within
  exact ⟨h.count, hwithin, h.no_dust, h.relayable, storage, hstorage, rfl⟩

/-- An estimated spend whose total wraps is such a spend. -/
theorem wrapsUnnoticed_of_estimate (h : estimate kaspa shape = .ok r) (hwraps : 2 ^ 64 ≤ outputsTotal shape.outputs) :
    WrapsUnnoticed kaspa shape := by
  obtain ⟨hcount, hwithin, hdust, hrelay, storage, hstorage, -⟩ := estimate_eq_ok.mp h
  rw [UInt64.le_iff_toNat_le, toNat_totalOut] at hwithin
  exact ⟨hwraps, hcount, hwithin, hdust, hrelay, Option.isSome_iff_exists.mpr ⟨storage, hstorage⟩⟩

/-- **The fee of an estimate** is what the outputs leave of the coin, for every spend but those
whose total wraps unnoticed. -/
theorem estimate_fee_iff (kaspa : Kaspa Params) (shape : SpendShape Params) :
    (∀ r, estimate kaspa shape = .ok r → outputsTotal shape.outputs ≤ shape.utxoAmount.toNat ∧
      r.fee.toNat = shape.utxoAmount.toNat - outputsTotal shape.outputs) ↔ ¬WrapsUnnoticed kaspa shape := by
  constructor
  · intro hfee hwraps
    obtain ⟨r, hr⟩ := hwraps.estimate_eq_ok
    have hle := (hfee r hr).1
    have hlt := shape.utxoAmount.toNat_lt
    have htotal := hwraps.wraps
    omega
  · intro hwraps r hr
    have hlt : outputsTotal shape.outputs < 2 ^ 64 :=
      Nat.lt_of_not_le fun h => hwraps (wrapsUnnoticed_of_estimate hr h)
    have hfee := estimate_fee hr
    rw [Nat.mod_eq_of_lt hlt] at hfee
    omega

/-! ### Ten coins and two outputs of half of all -/

/-- The script of a pay-to-script-hash output. -/
def scriptHashScript (digest : Bytes) : Bytes := [0xaa, 0x20] ++ digest ++ [0x87]

/-- An output that pays to the script whose hash is zero. -/
def scriptHashOutput (amount : UInt64) : OutputView := ⟨amount, 0, scriptHashScript (zeros 32)⟩

/-- A node library that knows pay-to-script-hash outputs, and for which amounts this large have
no storage mass. The hash of every script is zero. -/
def scriptHashKaspa : Kaspa Unit where
  build := encodeScript
  payToScriptHashScript _ := ⟨0, (scriptHashOutput 0).script⟩
  payToScriptHashSignatureScript redeemScript witness := .ok (witness ++ shortestPush redeemScript)
  maxScriptPublicKeyVersion := 0
  isStandard spk := spk.script.length = 35 ∧ spk.script.take 2 = [0xaa, 0x20] ∧ spk.script.drop 34 = [0x87]
  nonContextualMasses _ _ := ⟨30000, 99564⟩
  storageMass _ _ _ := some 0
  normalizedTransient _ m := m.transientMass / 2
  normalizedMax _ m storage := max (max m.computeMass (m.transientMass / 2)) storage
  estimatedSerializedSize _ := 24891
  computeLimit _ := 500000

/-- A pay-to-script-hash output is relayed. -/
theorem relayable_scriptHashScript (amount : UInt64) {digest : Bytes} (h : digest.length = 32) :
    Relayable scriptHashKaspa ⟨amount, ⟨0, scriptHashScript digest⟩⟩ := by
  refine ⟨UInt16.le_rfl, ?_⟩
  simp [scriptHashKaspa, scriptHashScript, h]

/-- Ten coins, and two outputs that add up to `2 ^ 64` and five more. -/
def wrappingShape : SpendShape Unit where
  params := ()
  signatureScript := []
  utxoScriptPubkey := ⟨0, (scriptHashOutput 0).script⟩
  utxoAmount := 1000000000
  outpointTxid := Block.zero 32
  outpointIndex := 0
  txVersion := 1
  outputs := [scriptHashOutput 9223372036854775808, scriptHashOutput 9223372037354775808]
  expectedOutputCount := 2
  budgetUnits := 60

theorem outputsTotal_wrappingShape : outputsTotal wrappingShape.outputs = 2 ^ 64 + 500000000 := rfl

theorem wrappingShape_wraps : WrapsUnnoticed scriptHashKaspa wrappingShape where
  wraps := by rw [outputsTotal_wrappingShape]; norm_num
  count := rfl
  within := by rw [outputsTotal_wrappingShape]; decide
  no_dust := by decide
  relayable := by unfold Relayable; decide
  storage := rfl

/-- **Not for every spend.** -/
theorem not_estimate_fee : ¬∀ (kaspa : Kaspa Unit) (shape : SpendShape Unit) (r : PreflightReport),
    estimate kaspa shape = .ok r → outputsTotal shape.outputs ≤ shape.utxoAmount.toNat ∧
      r.fee.toNat = shape.utxoAmount.toNat - outputsTotal shape.outputs := by
  intro h
  obtain ⟨r, hr⟩ := wrappingShape_wraps.estimate_eq_ok
  have hle := (h _ _ r hr).1
  have htotal := wrappingShape_wraps.wraps
  have hlt := wrappingShape.utxoAmount.toNat_lt
  omega

end KaspaPqv.VaultCore
