import KaspaPqv.Lib.Text
import KaspaPqv.LmsWallet.Run
import KaspaPqv.SlhWallet.Spend
import KaspaPqv.VaultNode.Connect

/-!
# The spend command of the stateless scheme

`cmdSpend` opens the vault with its key, takes the largest coin that the vault has, decides
on the fee, builds the spend and broadcasts it. The change goes back to the vault.

## What is proved

* `chooseOutputs_eq_ok`, `planSpend_eq_ok` — what a plan spends, whom it pays, and how the
  change is reckoned.
* `cmdSpend_eq_ok` — what a call broadcasts is the spend that was built.
-/

namespace KaspaPqv.SlhWallet

open KaspaPqv.Lib KaspaPqv.Script KaspaPqv.VaultCore KaspaPqv.SlhScript
open LmsWallet (AddressLib Client ScriptEngine saturatingSub)

/-- What the command line says. -/
structure Args where
  «to» : Option String
  amount : Option UInt64
  fee : Option UInt64
  yes : Bool
  dryRun : Bool

/-- What the command line, the environment and the settings say together. -/
structure Resolved (Node : Type) where
  material : KeyMaterial Node
  keyIndex : UInt32
  network : String

/-- What the command uses of its surroundings. -/
structure Surroundings (NodeParams Prefix Address : Type) where
  addresses : AddressLib Prefix Address
  parseAddress : String → Except String Address
  prefixOf : Address → Prefix
  prefixText : Prefix → String
  /-- How an amount is written in KAS. -/
  kas : UInt64 → String
  /-- A public node for a network. -/
  newRpc : VaultNode.NetworkId → Except String (VaultNode.Rpc Address)
  networkText : VaultNode.NetworkId → String
  mainnetParams : NodeParams
  testnetParams : NodeParams
  /-- The line that is typed. -/
  readLine : Except String (List Char)

variable {Node ChildNumber NodeParams Prefix Address : Type} (B : Bip32 Node ChildNumber) (kaspa : Kaspa NodeParams)
  (sha256 : Bytes → Block 32) (engine : ScriptEngine) (cli : Surroundings NodeParams Prefix Address)

/-! ### The vault and its coins -/

/-- The vault and its key. -/
def openVaultWithKey (resolved : Resolved Node) (scheme : Scheme) : Outcome String (SlhVault × Keypair) := do
  let set ← .ofOption (paramsFor scheme) s!"{scheme.label} is not an SLH-DSA scheme"
  let derivation := { Derivation.DEFAULT with scheme := scheme }
  let xi ← .ofExcept ((derivation.xiFrom B 0 resolved.keyIndex sha256 resolved.material).mapError fun e =>
    s!"deriving the vault seed: {e}")
  SlhVault.fromXi sha256 set xi

def connect (network : String) : Except String (Client Address) :=
  (if network = "mainnet" then VaultNode.NodeClient.mainnet cli.newRpc cli.networkText
    else VaultNode.NodeClient.testnet10 cli.newRpc cli.networkText).map VaultNode.NodeClient.rpc

/-- The consensus parameters of a network. -/
def networkParams (network : String) : NodeParams :=
  if network = "mainnet" then cli.mainnetParams else cli.testnetParams

/-- The coins of an address, the largest first. -/
def vaultUtxos (lib : AddressLib Prefix Address) (client : Client Address) (address : Address) :
    Except String (List VaultUtxo) := do
  let found ← client.utxosFor lib [address]
  let utxos := ((found (lib.text address)).getD []).map fun e => (⟨e.txid, e.index, e.amount⟩ : VaultUtxo)
  pure (utxos.mergeSort fun a b => b.amount ≤ a.amount)

/-! ### Planning -/

def p2shOrPubkeyOutput (lib : AddressLib Prefix Address) (address : Address) (amount : UInt64) : OutputView :=
  LmsWallet.toOutput lib address amount

/-- The output that pays the change back. -/
def changeOutput (changeSpk : ScriptPublicKey) (change : UInt64) : OutputView :=
  ⟨change, changeSpk.version, changeSpk.script⟩

/-- The fee asked for, or one a fifth above the floor. -/
def chosenFee (fee : Option UInt64) (probe : PreflightReport) : UInt64 :=
  fee.getD (saturatingMul probe.minimumFee 12 / 10)

/-- The outputs: what is paid, and the change that the fee leaves. -/
def chooseOutputs (params : NodeParams) (vault : SlhVault) (utxo : VaultUtxo) (destination : Address) (amount : UInt64)
    (askedFee : Option UInt64) : Except String (List OutputView) := do
  let redeemScript ← vault.redeemScript kaspa
  let changeSpk := kaspa.payToScriptHashScript redeemScript
  let provisional := [p2shOrPubkeyOutput cli.addresses destination amount,
    changeOutput changeSpk (saturatingSub utxo.amount amount / 2)]
  let probe ← preflight kaspa params vault utxo 1 provisional preflightBudgetUnits
  let fee := chosenFee askedFee probe
  ensure (amount + fee < utxo.amount)
    s!"amount {cli.kas amount} plus fee {cli.kas fee} exceeds the {cli.kas utxo.amount} KAS in the UTXO"
  let change := utxo.amount - amount - fee
  pure [p2shOrPubkeyOutput cli.addresses destination amount, changeOutput changeSpk change]

/-- All that a spend is built from. -/
structure SpendPlan (NodeParams Address : Type) where
  client : Client Address
  params : NodeParams
  vault : SlhVault
  keypair : Keypair
  utxo : VaultUtxo
  destination : Address
  amount : UInt64
  outputs : List OutputView

variable [DecidableEq Prefix]

/-- The coin to spend and the outputs. -/
def planSpend (args : Args) (resolved : Resolved Node) (scheme : Scheme) (addressPrefix : Prefix) :
    Outcome String (SpendPlan NodeParams Address) := do
  let text ← .ofOption args.«to» "--to is required: where should the coins go?"
  let destination ← .ofExcept ((cli.parseAddress text).mapError fun e => s!"--to is not a valid address: {e}")
  .ofExcept (ensure (cli.prefixOf destination = addressPrefix)
    s!"--to is a {cli.prefixText (cli.prefixOf destination)} address but the network is {resolved.network}")
  let amount ← .ofOption args.amount "--amount is required, in sompi"
  let (vault, keypair) ← openVaultWithKey B sha256 resolved scheme
  let address ← .ofExcept (vault.address kaspa cli.addresses addressPrefix)
  let client ← .ofExcept (connect cli resolved.network)
  let utxos ← .ofExcept (vaultUtxos cli.addresses client address)
  let utxo ← .ofOption utxos.head? s!"vault {cli.addresses.text address} holds no coins"
  let params := networkParams cli resolved.network
  let outputs ← .ofExcept (chooseOutputs kaspa cli params vault utxo destination amount args.fee)
  pure ⟨client, params, vault, keypair, utxo, destination, amount, outputs⟩

/-! ### Running -/

/-- Ask whether to broadcast. -/
def confirm (args : Args) : Except String Unit :=
  if args.yes then .ok ()
  else do
    let line ← cli.readLine
    ensure (trim line = "yes".toList) "aborted"

/-- What is done with a built spend: the transaction that the node has taken. -/
def broadcastSpend (args : Args) (client : Client Address) (spend : SignedSpend) :
    Except String (Option MassTransaction) :=
  if args.dryRun then pure none
  else do
    confirm cli args
    let _ ← (client.submitTransaction spend.tx).mapError fun e =>
      s!"submit_transaction rejected the spend: {e}\n\nNothing was consumed. The vault key is stateless, so " ++
        "the same spend can be rebuilt at a different fee and broadcast again."
    pure (some spend.tx)

/-- The spend of a plan. -/
def SpendPlan.build (plan : SpendPlan NodeParams Address) : Outcome String SignedSpend :=
  buildSpend kaspa sha256 engine plan.params plan.vault plan.keypair plan.utxo 1 plan.outputs

/-- The spend command: the transaction that the node has taken, if it has taken one. -/
def cmdSpend (args : Args) (resolved : Resolved Node) (scheme : Scheme) (addressPrefix : Prefix) :
    Outcome String (Option MassTransaction) := do
  let plan ← planSpend B kaspa sha256 cli args resolved scheme addressPrefix
  let spend ← (plan.build kaspa sha256 engine).mapError fun e => s!"building the spend: {e}"
  .ofExcept (broadcastSpend cli args plan.client spend)

/-! ### What a plan is -/

variable {B} {kaspa} {sha256} {engine} {cli} {args : Args} {resolved : Resolved Node} {scheme : Scheme}
  {addressPrefix : Prefix}

omit [DecidableEq Prefix] in
/-- **How the outputs come about**: the provisional ones pass a preflight, from which the fee is
chosen; the coin is worth more than amount and fee, and the rest is the change. All sums are
those of 64 bits. -/
theorem chooseOutputs_eq_ok {params : NodeParams} {vault : SlhVault} {utxo : VaultUtxo} {destination : Address}
    {amount : UInt64} {askedFee : Option UInt64} {outputs : List OutputView} :
    chooseOutputs kaspa cli params vault utxo destination amount askedFee = .ok outputs ↔
      ∃ redeemScript probe, vault.redeemScript kaspa = .ok redeemScript ∧
        preflight kaspa params vault utxo 1 [p2shOrPubkeyOutput cli.addresses destination amount,
          changeOutput (kaspa.payToScriptHashScript redeemScript) (saturatingSub utxo.amount amount / 2)]
          preflightBudgetUnits = .ok probe ∧
        amount + chosenFee askedFee probe < utxo.amount ∧
        [p2shOrPubkeyOutput cli.addresses destination amount,
          changeOutput (kaspa.payToScriptHashScript redeemScript) (utxo.amount - amount - chosenFee askedFee probe)] =
          outputs := by
  simp only [chooseOutputs, bind_eq_ok, ensure_eq_ok]
  constructor
  · rintro ⟨redeemScript, hscript, probe, hprobe, _, hguard, h⟩
    exact ⟨redeemScript, probe, hscript, hprobe, hguard, Except.ok.inj h⟩
  · rintro ⟨redeemScript, probe, hscript, hprobe, hguard, rfl⟩
    exact ⟨redeemScript, hscript, probe, hprobe, (), hguard, rfl⟩

/-- **What a plan spends, and whom it pays.** -/
theorem planSpend_eq_ok {plan : SpendPlan NodeParams Address} :
    planSpend B kaspa sha256 cli args resolved scheme addressPrefix = .ok plan ↔
      ∃ text address utxos, args.«to» = some text ∧ cli.parseAddress text = .ok plan.destination ∧
        cli.prefixOf plan.destination = addressPrefix ∧ args.amount = some plan.amount ∧
        openVaultWithKey B sha256 resolved scheme = .ok (plan.vault, plan.keypair) ∧
        plan.vault.address kaspa cli.addresses addressPrefix = .ok address ∧
        connect cli resolved.network = .ok plan.client ∧
        vaultUtxos cli.addresses plan.client address = .ok (plan.utxo :: utxos) ∧
        networkParams cli resolved.network = plan.params ∧
        chooseOutputs kaspa cli plan.params plan.vault plan.utxo plan.destination plan.amount args.fee =
          .ok plan.outputs := by
  simp only [planSpend, Outcome.bind_eq_ok, Outcome.ofOption_eq_ok, Outcome.ofExcept_eq_ok, mapError_eq_ok,
    ensure_eq_ok]
  constructor
  · rintro ⟨text, hto, destination, hparse, _, hprefix, amount, hamount, ⟨vault, keypair⟩, hopen, address, haddress,
      client, hclient, utxos, hutxos, utxo, hutxo, outputs, houtputs, h⟩
    cases h
    obtain ⟨rest, rfl⟩ := List.head?_eq_some_iff.mp hutxo
    exact ⟨text, address, rest, hto, hparse, hprefix, hamount, hopen, haddress, hclient, hutxos, rfl, houtputs⟩
  · obtain ⟨client, params, vault, keypair, utxo, destination, amount, outputs⟩ := plan
    rintro ⟨text, address, utxos, hto, hparse, hprefix, hamount, hopen, haddress, hclient, hutxos, rfl, houtputs⟩
    exact ⟨text, hto, destination, hparse, (), hprefix, amount, hamount, (vault, keypair), hopen, address, haddress,
      client, hclient, utxo :: utxos, hutxos, utxo, rfl, outputs, houtputs, rfl⟩

/-- **What a call broadcasts** is the spend that was built of its plan. -/
theorem cmdSpend_eq_ok {t : MassTransaction}
    (h : cmdSpend B kaspa sha256 engine cli args resolved scheme addressPrefix = .ok (some t)) :
    ∃ plan spend, planSpend B kaspa sha256 cli args resolved scheme addressPrefix = .ok plan ∧
      plan.build kaspa sha256 engine = .ok spend ∧ spend.tx = t := by
  obtain ⟨plan, hplan, h⟩ := Outcome.bind_eq_ok.mp h
  obtain ⟨spend, hspend, h⟩ := Outcome.bind_eq_ok.mp h
  refine ⟨plan, spend, hplan, Outcome.mapError_eq_ok.mp hspend, ?_⟩
  have hcast := Outcome.ofExcept_eq_ok.mp h
  unfold broadcastSpend at hcast
  split_ifs at hcast
  · cases Except.ok.inj hcast
  · obtain ⟨_, -, hcast⟩ := bind_eq_ok.mp hcast
    obtain ⟨_, -, hcast⟩ := bind_eq_ok.mp hcast
    exact Option.some.inj (Except.ok.inj hcast)

end KaspaPqv.SlhWallet
