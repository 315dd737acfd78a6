import KaspaPqv.VaultCore.Preflight
import KaspaPqv.VaultCore.RebuiltDigest

/-!
# Transactions that unlock their coin

A coin of a vault is paid to the hash of a redeem script. The one input of a spend carries the
pushes of a witness and the redeem script, and the engine runs the redeem script on what the
pushes leave, in the transaction itself. The node's library turns instructions into bytes; here a
spend is related to the instructions, which are what the engine of the model runs.

## What is proved

* `Sees.spendView_eq` — what the digest covers of a transaction with one input.
* `Sees.rebuiltDigest_eq` — the script rebuilds the digest that was computed before signing.
-/

namespace KaspaPqv.VaultCore

open KaspaPqv.Lib KaspaPqv.Script

/-- What the opcodes see is this transaction. -/
structure Sees (c : TxContext) (t : MassTransaction) : Prop where
  version_eq : c.tx.version = t.version
  inputs_eq : c.tx.inputs = t.inputs.map TransactionInput.previousOutpoint
  outputs_eq : c.tx.outputs = t.outputs

/-- A transaction spends a coin with these items: the coin is paid to the hash of the script, and the one input
carries the script and pushes that leave the items. -/
structure Carries {NodeParams : Type} (kaspa : Kaspa NodeParams) (script : List Instr) (items : List Bytes)
    (t : MassTransaction) (coin : UtxoEntry) : Prop where
  locked : coin.scriptPublicKey = kaspa.payToScriptHashScript (kaspa.build script)
  carried : ∃ outpoint signatureScript budget witness, t.inputs = [⟨outpoint, signatureScript, 0, budget⟩] ∧
    kaspa.payToScriptHashSignatureScript (kaspa.build script) (kaspa.build witness) = .ok signatureScript ∧
    ∀ env, execute env witness [] = some items

/-- A script takes items in a transaction: it leaves one item, a true one. -/
def Unlocks (sha256 : Bytes → Block 32) (script : List Instr) (items : List Bytes) (c : TxContext) : Prop :=
  ∃ item, execute ⟨sha256, some c⟩ script items = some [item] ∧ isTrue item

variable {c : TxContext} {t : MassTransaction} {txid : Block 32} {index : UInt32} {outputs : List OutputView}

theorem map_outputView_toOutputs (outputs : List OutputView) : (toOutputs outputs).map outputView = outputs := by
  rw [toOutputs, List.map_map]
  exact List.map_id' outputs

/-- **The view of a transaction** with one input is that of its own outpoint and outputs. -/
theorem Sees.spendView_eq (h : Sees c t) (hinputs : t.inputs.map TransactionInput.previousOutpoint = [⟨txid, index⟩])
    (houtputs : t.outputs = toOutputs outputs) : spendView c = ⟨t.version, txid, index, outputs⟩ := by
  have houtpoint : c.outpoint = ⟨txid, index⟩ := by
    have hmem : c.outpoint ∈ c.tx.inputs := List.get_mem _ _
    rw [h.inputs_eq, hinputs] at hmem
    exact List.mem_singleton.mp hmem
  rw [spendView, houtpoint, h.version_eq, h.outputs_eq, houtputs, map_outputView_toOutputs]

/-- **The digest that was signed** is the one that the script rebuilds. -/
theorem Sees.rebuiltDigest_eq {sha256 : Bytes → Block 32} {digest : Block 32} (h : Sees c t)
    (hinputs : t.inputs.map TransactionInput.previousOutpoint = [⟨txid, index⟩])
    (houtputs : t.outputs = toOutputs outputs)
    (hdigest : bindingDigest sha256 ⟨t.version, txid, index, outputs⟩ = .ok digest) :
    rebuiltDigest ⟨sha256, some c⟩ outputs.length = some digest := by
  obtain ⟨pre, hpre, -⟩ := map_eq_ok.mp hdigest
  obtain ⟨hfits, -⟩ := bindingPreimage_eq_ok.mp hpre
  have hlen : c.tx.outputs.length = outputs.length := by
    rw [h.outputs_eq, houtputs, toOutputs, List.length_map]
  have hrebuilt := @rebuiltDigest_length ⟨sha256, some c⟩ c rfl (hlen ▸ hfits.count_pos)
    (hlen ▸ Nat.le_of_lt_succ hfits.count)
  rw [hlen, h.spendView_eq hinputs houtputs, hdigest] at hrebuilt
  exact hrebuilt

end KaspaPqv.VaultCore
