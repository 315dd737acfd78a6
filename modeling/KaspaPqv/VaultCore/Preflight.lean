import KaspaPqv.VaultCore.Binding
import Mathlib.Data.UInt

/-!
# Checks before signing

What is checked of a spend before it is signed: the shape, the amounts, the scripts it
pays to, its mass and its fee. Amounts are machine integers, and adding them up wraps.
Mass, standardness and the encoding of scripts are the node library's (`Kaspa`), which is
not modelled.

## What is proved

* `estimate_eq_ok`, `enforce_eq_ok` — what holds of a spend that passes, and what it
  is reported to cost.
-/

namespace KaspaPqv.VaultCore

open KaspaPqv.Lib KaspaPqv.Script

/-! ### The node library -/

/-- An input and the script that unlocks it. -/
structure TransactionInput where
  previousOutpoint : Outpoint
  signatureScript : Bytes
  sequence : UInt64
  computeBudget : UInt16
  deriving DecidableEq

/-- A transaction of the native subnetwork, with all that goes into its mass. -/
structure MassTransaction where
  version : UInt16
  inputs : List TransactionInput
  outputs : List TransactionOutput
  lockTime : UInt64
  gas : UInt64
  payload : Bytes
  deriving DecidableEq

/-- A coin that is not an output yet confirmed under any score. -/
structure UtxoEntry where
  amount : UInt64
  scriptPublicKey : ScriptPublicKey
  deriving DecidableEq

/-- The masses of a transaction that do not depend on what it spends. -/
structure NonContextualMasses where
  computeMass : UInt64
  transientMass : UInt64
  deriving DecidableEq

/-- What the wallets use of the node library, over its consensus parameters `Params`. -/
structure Kaspa (Params : Type) where
  /-- The bytes a script builder writes. -/
  build : List Instr → Bytes
  payToScriptHashScript : Bytes → ScriptPublicKey
  payToScriptHashSignatureScript : Bytes → Bytes → Except String Bytes
  maxScriptPublicKeyVersion : UInt16
  /-- The script class is not `NonStandard`. -/
  isStandard : ScriptPublicKey → Bool
  nonContextualMasses : Params → MassTransaction → NonContextualMasses
  storageMass : Params → MassTransaction → List UtxoEntry → Option UInt64
  normalizedTransient : Params → NonContextualMasses → UInt64
  /-- The largest dimension, given the storage mass. -/
  normalizedMax : Params → NonContextualMasses → UInt64 → UInt64
  estimatedSerializedSize : MassTransaction → UInt64
  /-- The compute mass a block allows. -/
  computeLimit : Params → UInt64

/-! ### The checks -/

/-- In sompi per kilogram of mass. -/
def minimumRelayTransactionFee : UInt64 := 100000

/-- The smallest value any output may carry, in sompi. -/
def dustThreshold : UInt64 := 2000000

/-- A spend to evaluate. -/
structure SpendShape (Params : Type) where
  params : Params
  signatureScript : Bytes
  utxoScriptPubkey : ScriptPublicKey
  utxoAmount : UInt64
  outpointTxid : Block 32
  outpointIndex : UInt32
  txVersion : UInt16
  outputs : List OutputView
  expectedOutputCount : ℕ
  budgetUnits : UInt16

/-- What a spend will cost. -/
structure PreflightReport where
  fee : UInt64
  minimumFee : UInt64
  size : UInt64
  computeMass : UInt64
  transientMass : UInt64
  normalizedTransientMass : UInt64
  storageMass : UInt64
  normalizedMaxMass : UInt64
  deriving DecidableEq

def PreflightReport.summary (r : PreflightReport) : String :=
  s!"{r.size} bytes, mass {r.normalizedMaxMass} (compute {r.computeMass}, " ++
    s!"transient {r.normalizedTransientMass} normalized, storage {r.storageMass}), " ++
    s!"fee {r.fee} sompi against a {r.minimumFee} minimum"

/-- `u64::saturating_mul`. -/
def saturatingMul (a b : UInt64) : UInt64 := UInt64.ofNat (min (a.toNat * b.toNat) (2 ^ 64 - 1))

/-- The fee floor of the mempool. -/
def minimumRelayFee (mass : UInt64) : UInt64 :=
  let fee := saturatingMul mass minimumRelayTransactionFee / 1000
  if fee = 0 then minimumRelayTransactionFee else fee

/-- The outputs as the node library takes them. -/
def toOutputs (views : List OutputView) : List TransactionOutput :=
  views.map fun o => ⟨o.amount, ⟨o.spkVersion, o.script⟩⟩

/-- The total of the outputs, as machine integers add up. -/
def totalOut (outputs : List OutputView) : UInt64 := (outputs.map OutputView.amount).sum

/-- One turn of the loop over the amounts. -/
def checkDust (output : OutputView × ℕ) : Except String Unit :=
  ensure (output.1.amount ≥ dustThreshold)
    (s!"output {output.2} carries {output.1.amount} sompi, below the {dustThreshold} sompi (0.02 KAS) dust " ++
      "floor. Storage mass scales with the inverse of an output's value, so anything " ++
      "smaller is rejected however the rest of the transaction is shaped. Raise the " ++
      "amount, or drop the output and let the value go to fee.")

variable {Params : Type} (kaspa : Kaspa Params)

/-- One turn of the loop over the scripts. -/
def checkScript (output : TransactionOutput × ℕ) : Except String Unit := do
  let version := output.1.scriptPublicKey.version
  ensure (version ≤ kaspa.maxScriptPublicKeyVersion)
    (s!"output {output.2} has script public key version {version} but standard relay allows at " ++
      s!"most {kaspa.maxScriptPublicKeyVersion}")
  ensure (kaspa.isStandard output.1.scriptPublicKey = true)
    (s!"output {output.2} is not a standard script type (expected pay-to-pubkey or " ++
      "pay-to-script-hash); a mempool will reject this transaction")

/-- The unsigned transaction that is sized. -/
def SpendShape.tx (shape : SpendShape Params) : MassTransaction where
  version := shape.txVersion
  inputs := [⟨⟨shape.outpointTxid, shape.outpointIndex⟩, shape.signatureScript, 0, shape.budgetUnits⟩]
  outputs := toOutputs shape.outputs
  lockTime := 0
  gas := 0
  payload := []

/-- The coin it spends. -/
def SpendShape.utxoEntry (shape : SpendShape Params) : UtxoEntry := ⟨shape.utxoAmount, shape.utxoScriptPubkey⟩

/-- The report, given the storage mass. -/
def SpendShape.report (shape : SpendShape Params) (storage : UInt64) : PreflightReport :=
  let nonContextual := kaspa.nonContextualMasses shape.params shape.tx
  let normalizedTransient := kaspa.normalizedTransient shape.params nonContextual
  let feeMass := max nonContextual.computeMass normalizedTransient
  { fee := shape.utxoAmount - totalOut shape.outputs
    minimumFee := minimumRelayFee feeMass
    size := kaspa.estimatedSerializedSize shape.tx
    computeMass := nonContextual.computeMass
    transientMass := nonContextual.transientMass
    normalizedTransientMass := normalizedTransient
    storageMass := storage
    normalizedMaxMass := kaspa.normalizedMax shape.params nonContextual storage }

/-- Compute the report without enforcing it. -/
def estimate (shape : SpendShape Params) : Except String PreflightReport := do
  ensure (shape.outputs.length = shape.expectedOutputCount)
    (s!"a vault spend must have exactly {shape.expectedOutputCount} outputs; " ++
      "the redeem script is unrolled to that shape")
  let total := totalOut shape.outputs
  ensure (total ≤ shape.utxoAmount) s!"outputs total {total} exceeds the {shape.utxoAmount} available"
  shape.outputs.zipIdx.forM checkDust
  (toOutputs shape.outputs).zipIdx.forM (checkScript kaspa)
  let storage ← orFail (kaspa.storageMass shape.params shape.tx [shape.utxoEntry])
    "storage mass overflowed; an output amount is too small"
  pure (shape.report kaspa storage)

/-- Evaluate a spend and refuse it if it cannot relay or cannot be mined. -/
def enforce (shape : SpendShape Params) : Except String PreflightReport := do
  let report ← estimate kaspa shape
  ensure (report.fee ≥ report.minimumFee)
    (s!"fee of {report.fee} sompi is below the {report.minimumFee} minimum for this transaction " ++
      s!"({report.summary})")
  let limit := kaspa.computeLimit shape.params
  ensure (report.normalizedMaxMass ≤ limit)
    (s!"spend needs {report.normalizedMaxMass} normalized mass but a block allows {limit} — it can never be " ++
      "included. Usually caused by a change output small enough to inflate storage " ++
      s!"mass ({report.storageMass}).")
  pure report

/-! ### What passes -/

theorem forM_eq_ok {α ε : Type} {f : α → Except ε Unit} {l : List α} {u : Unit} :
    l.forM f = .ok u ↔ ∀ a ∈ l, f a = .ok () := by
  induction l with
  | nil => exact ⟨(fun _ _ ha => nomatch ha), fun _ => rfl⟩
  | cons a l ih =>
    change (f a >>= fun _ => l.forM f) = .ok u ↔ _
    rw [bind_eq_ok, List.forall_mem_cons, ← ih]
    constructor
    · rintro ⟨⟨⟩, ha, hl⟩
      exact ⟨ha, hl⟩
    · exact fun ⟨ha, hl⟩ => ⟨(), ha, hl⟩

/-- A check made of every element, its position being only for the error. -/
theorem forM_zipIdx_eq_ok {α ε : Type} {p : α → Prop} {f : α × ℕ → Except ε Unit} {l : List α} {u : Unit}
    (h : ∀ a i, f (a, i) = .ok () ↔ p a) : l.zipIdx.forM f = .ok u ↔ ∀ a ∈ l, p a := by
  rw [forM_eq_ok]
  constructor
  · intro hl a ha
    obtain ⟨i, hi⟩ := List.mem_iff_getElem?.mp ha
    exact (h a i).mp (hl (a, i) (List.mk_mem_zipIdx_iff_getElem?.mpr hi))
  · rintro hl ⟨a, i⟩ ha
    exact (h a i).mpr (hl a (List.mem_of_getElem? (List.mk_mem_zipIdx_iff_getElem?.mp ha)))

/-- An output a mempool will relay. -/
def Relayable (o : TransactionOutput) : Prop :=
  o.scriptPublicKey.version ≤ kaspa.maxScriptPublicKeyVersion ∧ kaspa.isStandard o.scriptPublicKey = true

variable {kaspa} {shape : SpendShape Params} {r : PreflightReport}

theorem checkDust_eq_ok {o : OutputView} {i : ℕ} : checkDust (o, i) = .ok () ↔ dustThreshold ≤ o.amount :=
  ensure_eq_ok

theorem checkScript_eq_ok {o : TransactionOutput} {i : ℕ} :
    checkScript kaspa (o, i) = .ok () ↔ Relayable kaspa o := by
  rw [checkScript, ensure_bind_eq_ok, ensure_eq_ok, Relayable]

/-- **What an estimate takes**: the shape, a total within the coin, no dust, and outputs
that relay. -/
theorem estimate_eq_ok : estimate kaspa shape = .ok r ↔
    shape.outputs.length = shape.expectedOutputCount ∧ totalOut shape.outputs ≤ shape.utxoAmount ∧
    (∀ o ∈ shape.outputs, dustThreshold ≤ o.amount) ∧ (∀ o ∈ toOutputs shape.outputs, Relayable kaspa o) ∧
    ∃ storage, kaspa.storageMass shape.params shape.tx [shape.utxoEntry] = some storage ∧
      r = shape.report kaspa storage := by
  rw [estimate, ensure_bind_eq_ok, ensure_bind_eq_ok, bind_eq_ok]
  have hdust {u : Unit} : shape.outputs.zipIdx.forM checkDust = .ok u ↔ _ :=
    forM_zipIdx_eq_ok fun _ _ => checkDust_eq_ok
  have hscript {u : Unit} : (toOutputs shape.outputs).zipIdx.forM (checkScript kaspa) = .ok u ↔ _ :=
    forM_zipIdx_eq_ok fun _ _ => checkScript_eq_ok
  simp only [hdust, bind_eq_ok, hscript, orFail_eq_ok]
  simp [pure, Except.pure, eq_comm]

/-- **What passes**: besides, the fee is at least the floor, and a block has room. -/
theorem enforce_eq_ok : enforce kaspa shape = .ok r ↔
    estimate kaspa shape = .ok r ∧ r.minimumFee ≤ r.fee ∧ r.normalizedMaxMass ≤ kaspa.computeLimit shape.params := by
  rw [enforce, bind_eq_ok]
  simp only [ensure_bind_eq_ok]
  constructor
  · rintro ⟨r', hr, hfee, hmass, h⟩
    cases h
    exact ⟨hr, hfee, hmass⟩
  · exact fun ⟨hr, hfee, hmass⟩ => ⟨r, hr, hfee, hmass, rfl⟩

end KaspaPqv.VaultCore
