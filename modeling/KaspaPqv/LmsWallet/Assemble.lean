import KaspaPqv.LmsWallet.Spend

/-!
# Assembling a transaction

A signed spend is made into a transaction twice: once with the largest compute budget, to
measure what its script uses, and once with the budget it needs. The engine that runs the
script is the node's (`ScriptEngine`).

## What is proved

* `assemble_eq_ok` — the transaction assembled is the one built under the budget it declares.
-/

namespace KaspaPqv.LmsWallet

open KaspaPqv.Lib KaspaPqv.Script KaspaPqv.VaultCore

/-- The node's script engine, on a transaction with one input and the coin it spends. -/
structure ScriptEngine where
  /-- The script units used, without a limit. -/
  execute : MassTransaction → UtxoEntry → Except String UInt64
  /-- The script units used, within what a compute budget allows. -/
  executeWithLimit : MassTransaction → UtxoEntry → UInt16 → Except String UInt64

/-- Added to the measured budget. -/
def budgetMarginUnits : UInt16 := 2

/-- The largest budget an input may declare. -/
def maxBudgetUnits : UInt16 := 65535

/-- A transaction ready to broadcast, with what it cost to verify. -/
structure AssembledTransaction where
  tx : MassTransaction
  /-- The coin being spent. -/
  utxo : UtxoEntry
  measuredScriptUnits : UInt64
  declaredBudgetUnits : UInt16

/-- `u64::div_ceil`. -/
def divCeil (a b : UInt64) : UInt64 := if a % b = 0 then a / b else a / b + 1

/-- `u16::saturating_add`. -/
def saturatingAdd (a b : UInt16) : UInt16 := UInt16.ofNat (min (a.toNat + b.toNat) 65535)

variable {Params : Type} (kaspa : Kaspa Params) (engine : ScriptEngine)

/-- The transaction of a spend, and the coin it spends. -/
def buildTx (signed : SignedSpend) (utxo : VaultUtxo) (txVersion : UInt16) (outputs : List OutputView)
    (budgetUnits : UInt16) : MassTransaction × UtxoEntry :=
  ({ version := txVersion
     inputs := [⟨⟨utxo.txid, utxo.index⟩, signed.signatureScript, 0, budgetUnits⟩]
     outputs := toOutputs outputs
     lockTime := 0
     gas := 0
     payload := [] },
   ⟨utxo.amount, kaspa.payToScriptHashScript signed.redeemScript⟩)

def verifyAndMeasure (tx : MassTransaction) (utxo : UtxoEntry) : Except String UInt64 :=
  (engine.execute tx utxo).mapError fun e => s!"the assembled spend does not verify: {e}"

def verifyUnderBudget (tx : MassTransaction) (utxo : UtxoEntry) (budgetUnits : UInt16) : Except String UInt64 :=
  (engine.executeWithLimit tx utxo budgetUnits).mapError fun e =>
    s!"the assembled spend does not verify under its declared compute budget: {e}"

/-- Assemble a transaction, measuring the compute budget. -/
def assemble (signed : SignedSpend) (utxo : VaultUtxo) (txVersion : UInt16) (outputs : List OutputView) :
    Except String AssembledTransaction := do
  let total := totalOut outputs
  ensure (total ≤ utxo.amount) s!"outputs total {total} exceeds the {utxo.amount} available"
  let probe := buildTx kaspa signed utxo txVersion outputs maxBudgetUnits
  let measured ← (verifyAndMeasure engine probe.1 probe.2).mapError fun e => s!"dry run: {e}"
  -- script units to grams to budget units
  let needed := divCeil (divCeil measured 100) 100
  ensure (needed.toNat < 2 ^ 16) s!"spend needs {needed} budget units, above the per-input maximum"
  let declared := saturatingAdd (UInt16.ofNat needed.toNat) budgetMarginUnits
  let (tx, utxoEntry) := buildTx kaspa signed utxo txVersion outputs declared
  let _ ← verifyUnderBudget engine tx utxoEntry declared
  pure ⟨tx, utxoEntry, measured, declared⟩

/-- What a spend needs of the budget, before the margin. -/
def neededUnits (measured : UInt64) : UInt64 := divCeil (divCeil measured 100) 100

/-- **What is assembled** is the transaction built under the budget that it declares. -/
theorem assemble_eq_ok {signed : SignedSpend} {utxo : VaultUtxo} {txVersion : UInt16} {outputs : List OutputView}
    {assembled : AssembledTransaction} (h : assemble kaspa engine signed utxo txVersion outputs = .ok assembled) :
    (assembled.tx, assembled.utxo) =
        buildTx kaspa signed utxo txVersion outputs assembled.declaredBudgetUnits ∧
      (neededUnits assembled.measuredScriptUnits).toNat < 2 ^ 16 ∧ assembled.declaredBudgetUnits =
        saturatingAdd (UInt16.ofNat (neededUnits assembled.measuredScriptUnits).toNat) budgetMarginUnits := by
  obtain ⟨-, h⟩ := ensure_bind_eq_ok.mp h
  obtain ⟨measured, -, h⟩ := bind_eq_ok.mp h
  obtain ⟨hfits, h⟩ := ensure_bind_eq_ok.mp h
  obtain ⟨_, -, h⟩ := bind_eq_ok.mp h
  cases h
  exact ⟨rfl, hfits, rfl⟩

end KaspaPqv.LmsWallet
