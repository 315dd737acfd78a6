import KaspaPqv.LmsWallet.Assemble
import KaspaPqv.SlhWallet.Vault

/-!
# Spends of the stateless scheme

A spend is sized with a signature script of zeros and a compute budget that is an estimate,
checked, signed and put together; the script engine of the node measures what it uses, and
runs it again under the budget that is declared. Then the spend is sized with this budget.

Nothing is used up by a call that fails: the key signs as often as it is asked to.

## What is proved

* `buildSpend_eq_ok` — what a call takes to return a spend: a check of the shape, a signature,
  and a transaction made of it that has the outputs given.
-/

namespace KaspaPqv.SlhWallet

open KaspaPqv.Lib KaspaPqv.Script KaspaPqv.VaultCore KaspaPqv.SlhScript
open LmsWallet (ScriptEngine)

/-- The compute budget declared while sizing. -/
def preflightBudgetUnits : UInt16 := 200

/-- Added to the measured budget. -/
def budgetMarginUnits : UInt16 := 2

/-- A coin of the vault. -/
structure VaultUtxo where
  txid : Block 32
  index : UInt32
  amount : UInt64
  deriving DecidableEq

/-- A signed spend, verified and ready to broadcast. -/
structure SignedSpend where
  digest : Block 32
  tx : MassTransaction
  /-- The coin being spent. -/
  utxo : UtxoEntry
  redeemScript : Bytes
  measuredScriptUnits : UInt64
  declaredBudgetUnits : UInt16
  report : PreflightReport
  deriving DecidableEq

/-- `u16::checked_add`. -/
def checkedAdd (a b : UInt16) : Option UInt16 := if a.toNat + b.toNat < 2 ^ 16 then some (a + b) else none

/-- The pushes of a witness. -/
def witnessOf (plan : BlobPlan) (signature : Bytes) : Except String (List Instr) :=
  (witnessPushes plan signature : Gen Unit Instr String Unit).code ()

/-- A witness of zeros. -/
def placeholderWitness (plan : BlobPlan) : Except String (List Instr) := witnessOf plan (zeros plan.p.sigLen)

variable {NodeParams : Type} (kaspa : Kaspa NodeParams)

/-- The transaction of a spend, and the coin it spends. -/
def buildTx (signatureScript redeemScript : Bytes) (utxo : VaultUtxo) (txVersion : UInt16) (outputs : List OutputView)
    (budgetUnits : UInt16) : MassTransaction × UtxoEntry :=
  ({ version := txVersion
     inputs := [⟨⟨utxo.txid, utxo.index⟩, signatureScript, 0, budgetUnits⟩]
     outputs := toOutputs outputs
     lockTime := 0
     gas := 0
     payload := [] },
   ⟨utxo.amount, kaspa.payToScriptHashScript redeemScript⟩)

/-- Run a spend, within a budget or without one. -/
def verify (engine : ScriptEngine) (tx : MassTransaction) (utxo : UtxoEntry) (budgetUnits : Option UInt16) :
    Except String UInt64 :=
  let used := match budgetUnits with
    | none => engine.execute tx utxo
    | some units => engine.executeWithLimit tx utxo units
  used.mapError fun e => s!"the assembled spend does not verify: {e}"

/-- The script that unlocks the coin, from a witness. -/
def signatureScriptOf (redeemScript : Bytes) (witness : List Instr) : Except String Bytes :=
  (kaspa.payToScriptHashSignatureScript redeemScript (kaspa.build witness)).mapError fun e =>
    s!"signature script assembly failed: {e}"

/-- The signature script of a spend, of its full size but filled with zeros. -/
def placeholderSignatureScript (vault : SlhVault) : Except String Bytes := do
  let redeemScript ← vault.redeemScript kaspa
  let witness ← placeholderWitness vault.plan
  signatureScriptOf kaspa redeemScript witness

/-- The shape of an unsigned spend. -/
def shape (params : NodeParams) (vault : SlhVault) (utxo : VaultUtxo) (txVersion : UInt16) (outputs : List OutputView)
    (budgetUnits : UInt16) : Except String (SpendShape NodeParams) := do
  let signatureScript ← placeholderSignatureScript kaspa vault
  let redeemScript ← vault.redeemScript kaspa
  pure {
    params := params
    signatureScript := signatureScript
    utxoScriptPubkey := kaspa.payToScriptHashScript redeemScript
    utxoAmount := utxo.amount
    outpointTxid := utxo.txid
    outpointIndex := utxo.index
    txVersion := txVersion
    outputs := outputs
    expectedOutputCount := canonicalOutputCount
    budgetUnits := budgetUnits }

/-- What an unsigned spend will cost. -/
def preflight (params : NodeParams) (vault : SlhVault) (utxo : VaultUtxo) (txVersion : UInt16)
    (outputs : List OutputView) (budgetUnits : UInt16) : Except String PreflightReport := do
  let shape ← shape kaspa params vault utxo txVersion outputs budgetUnits
  estimate kaspa shape

section

variable (sha256 : Bytes → Block 32) (engine : ScriptEngine)

/-- What is checked before signing, and the digest to sign. -/
def checkSpend (params : NodeParams) (vault : SlhVault) (utxo : VaultUtxo) (txVersion : UInt16)
    (outputs : List OutputView) : Except String (Block 32) := do
  ensure (outputs.length = canonicalOutputCount)
    (s!"a vault spend must have exactly {canonicalOutputCount} outputs; the redeem " ++
      "script is unrolled to that shape")
  let report ← preflight kaspa params vault utxo txVersion outputs preflightBudgetUnits
  ensure (report.fee ≥ report.minimumFee)
    s!"fee of {report.fee} sompi is below the {report.minimumFee} minimum for this spend ({report.summary})"
  let limit := kaspa.computeLimit params
  ensure (report.normalizedMaxMass ≤ limit)
    (s!"spend needs {report.normalizedMaxMass} normalized mass but a block allows {limit} — it can never be included. " ++
      s!"Usually caused by a change output small enough to inflate storage mass ({report.storageMass}).")
  (bindingDigest sha256 ⟨txVersion, utxo.txid, utxo.index, outputs⟩).mapError fun e => s!"computing the binding digest: {e}"

/-- The budget to declare for what was measured. -/
def declaredBudget (measured : UInt64) : Except String UInt16 := do
  -- script units to grams to budget units
  let needed := LmsWallet.divCeil (LmsWallet.divCeil measured 100) 100
  ensure (needed.toNat < 2 ^ 16) s!"spend needs {needed} budget units, above the per-input maximum"
  orFail (checkedAdd (UInt16.ofNat needed.toNat) budgetMarginUnits) "compute budget overflows its u16 field"

/-- What is done with a signature. -/
def assembleSpend (params : NodeParams) (vault : SlhVault) (keypair : Keypair) (utxo : VaultUtxo) (txVersion : UInt16)
    (outputs : List OutputView) (digest : Block 32) (signature : Bytes) : Except String SignedSpend := do
  ensure (keypair.secret.p = vault.p)
    s!"the key was generated under {keypair.secret.p.name} but the vault is a {vault.p.name} address"
  let redeemScript ← vault.redeemScript kaspa
  let witness ← witnessOf vault.plan signature
  let signatureScript ← signatureScriptOf kaspa redeemScript witness
  let probe := buildTx kaspa signatureScript redeemScript utxo txVersion outputs LmsWallet.maxBudgetUnits
  let measured ← (verify engine probe.1 probe.2 none).mapError fun e => s!"dry run: {e}"
  let declared ← declaredBudget measured
  let (tx, utxoEntry) := buildTx kaspa signatureScript redeemScript utxo txVersion outputs declared
  let _ ← verify engine tx utxoEntry (some declared)
  -- the declared budget goes into the mass, and so into the floor
  let report ← preflight kaspa params vault utxo txVersion outputs declared
  ensure (report.fee ≥ report.minimumFee)
    (s!"fee of {report.fee} sompi is below the {report.minimumFee} minimum once the compute budget is declared " ++
      s!"({report.summary})")
  pure {
    digest := digest
    tx := tx
    utxo := utxoEntry
    redeemScript := redeemScript
    measuredScriptUnits := measured
    declaredBudgetUnits := declared
    report := report }

/-- Build and sign a spend. The leaf layer that the key keeps is dropped with it. -/
def buildSpend (params : NodeParams) (vault : SlhVault) (keypair : Keypair) (utxo : VaultUtxo) (txVersion : UInt16)
    (outputs : List OutputView) : Outcome String SignedSpend := do
  let digest ← .ofExcept (checkSpend kaspa sha256 params vault utxo txVersion outputs)
  let (signature, _) ← .orPanic (keypair.secret.sign sha256 digest.bytes)
  .ofExcept (assembleSpend kaspa engine params vault keypair utxo txVersion outputs digest signature)

end

/-! ### What a call returns -/

variable {kaspa} {sha256 : Bytes → Block 32} {engine : ScriptEngine} {params : NodeParams} {vault : SlhVault}
  {keypair : Keypair} {utxo : VaultUtxo} {txVersion : UInt16} {outputs : List OutputView} {spend : SignedSpend}

/-- The shape that is sized is of the spend's own coin and outputs. -/
theorem shape_fields {budgetUnits : UInt16} {s : SpendShape NodeParams}
    (h : shape kaspa params vault utxo txVersion outputs budgetUnits = .ok s) :
    s.outputs = outputs ∧ s.utxoAmount = utxo.amount := by
  obtain ⟨signatureScript, -, h⟩ := bind_eq_ok.mp h
  obtain ⟨redeemScript, -, h⟩ := bind_eq_ok.mp h
  cases h
  exact ⟨rfl, rfl⟩

/-- What a preflight takes is an estimate of the spend's own coin and outputs. -/
theorem preflight_eq_ok {budgetUnits : UInt16} {r : PreflightReport}
    (h : preflight kaspa params vault utxo txVersion outputs budgetUnits = .ok r) :
    ∃ s, estimate kaspa s = .ok r ∧ s.outputs = outputs ∧ s.utxoAmount = utxo.amount := by
  obtain ⟨s, hs, hest⟩ := bind_eq_ok.mp h
  exact ⟨s, hest, shape_fields hs⟩

/-- **What passes the checks**, and the digest it has. -/
theorem checkSpend_eq_ok {digest : Block 32} :
    checkSpend kaspa sha256 params vault utxo txVersion outputs = .ok digest ↔
      outputs.length = canonicalOutputCount ∧
        ∃ r, preflight kaspa params vault utxo txVersion outputs preflightBudgetUnits = .ok r ∧
          r.minimumFee ≤ r.fee ∧ r.normalizedMaxMass ≤ kaspa.computeLimit params ∧
          bindingDigest sha256 ⟨txVersion, utxo.txid, utxo.index, outputs⟩ = .ok digest := by
  rw [checkSpend, ensure_bind_eq_ok, bind_eq_ok]
  simp only [ensure_bind_eq_ok, mapError_eq_ok]

/-- The scripts of a spend, for a signature: what unlocks the coin, and what it was paid to. -/
def signedScripts (kaspa : Kaspa NodeParams) (vault : SlhVault) (signature : Bytes) :
    Except String (Bytes × Bytes) := do
  let redeemScript ← vault.redeemScript kaspa
  let witness ← witnessOf vault.plan signature
  let signatureScript ← signatureScriptOf kaspa redeemScript witness
  pure (signatureScript, redeemScript)

/-- **What is assembled**: the transaction built of the scripts, under a budget declared for what was measured, for
which it was sized again. -/
theorem assembleSpend_eq_ok {digest : Block 32} {signature : Bytes}
    (h : assembleSpend kaspa engine params vault keypair utxo txVersion outputs digest signature = .ok spend) :
    keypair.secret.p = vault.p ∧ spend.digest = digest ∧
      (∃ scripts, signedScripts kaspa vault signature = .ok scripts ∧ (spend.tx, spend.utxo) =
        buildTx kaspa scripts.1 scripts.2 utxo txVersion outputs spend.declaredBudgetUnits) ∧
      declaredBudget spend.measuredScriptUnits = .ok spend.declaredBudgetUnits ∧
      spend.report.minimumFee ≤ spend.report.fee ∧
      preflight kaspa params vault utxo txVersion outputs spend.declaredBudgetUnits = .ok spend.report := by
  obtain ⟨hset, h⟩ := ensure_bind_eq_ok.mp h
  obtain ⟨redeemScript, hredeem, h⟩ := bind_eq_ok.mp h
  obtain ⟨witness, hwitness, h⟩ := bind_eq_ok.mp h
  obtain ⟨signatureScript, hscript, h⟩ := bind_eq_ok.mp h
  obtain ⟨measured, -, h⟩ := bind_eq_ok.mp h
  obtain ⟨declared, hdeclared, h⟩ := bind_eq_ok.mp h
  obtain ⟨_, -, h⟩ := bind_eq_ok.mp h
  obtain ⟨report, hreport, h⟩ := bind_eq_ok.mp h
  obtain ⟨hfee, h⟩ := ensure_bind_eq_ok.mp h
  cases h
  have hscripts : signedScripts kaspa vault signature = .ok (signatureScript, redeemScript) :=
    bind_eq_ok.mpr ⟨_, hredeem, bind_eq_ok.mpr ⟨_, hwitness, bind_eq_ok.mpr ⟨_, hscript, rfl⟩⟩⟩
  exact ⟨hset, rfl, ⟨_, hscripts, rfl⟩, hdeclared, hfee, hreport⟩

/-- **What a call takes to return a spend.** -/
theorem buildSpend_eq_ok : buildSpend kaspa sha256 engine params vault keypair utxo txVersion outputs = .ok spend ↔
    ∃ digest signature secret, checkSpend kaspa sha256 params vault utxo txVersion outputs = .ok digest ∧
      keypair.secret.sign sha256 digest.bytes = some (signature, secret) ∧
      assembleSpend kaspa engine params vault keypair utxo txVersion outputs digest signature = .ok spend := by
  rw [buildSpend, Outcome.ofExcept_bind_eq_ok]
  simp only [Outcome.orPanic_bind_eq_ok, Outcome.ofExcept_eq_ok]
  constructor
  · rintro ⟨digest, hcheck, ⟨signature, secret⟩, hsign, hspend⟩
    exact ⟨digest, signature, secret, hcheck, hsign, hspend⟩
  · rintro ⟨digest, signature, secret, hcheck, hsign, hspend⟩
    exact ⟨digest, hcheck, ⟨signature, secret⟩, hsign, hspend⟩

end KaspaPqv.SlhWallet
