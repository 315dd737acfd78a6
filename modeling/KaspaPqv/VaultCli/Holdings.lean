import KaspaPqv.VaultCli.Conservation
import KaspaPqv.VaultNode.Client

/-!
# What the stateless wallet holds

A stateless vault has one address, and any number of coins may be there. `cmdBalance` lists them,
the largest first. A spend consumes one of them, as the redeem script looks at one input only.

## What is proved

* `vaultUtxos_serves` — what is listed of an address: all of its coins, in order.
* `cmdBalance_lists` — the list is that of the vault's coins, the total is what they are worth,
  and a spend takes the first of the list, so that no coin of the vault is worth more.
-/

namespace KaspaPqv.VaultCli.SlhCmd

open KaspaPqv.Lib KaspaPqv.Script KaspaPqv.VaultCore KaspaPqv.SlhScript KaspaPqv.SlhWallet
open LmsWallet (AddressLib Client Coin)
open VaultNode (worth)

/-- What is shown. -/
inductive Shown (Address : Type) where
  | unfunded (address : Address)
  | holds (address : Address) (utxos : List VaultUtxo) (total : UInt64)

variable {Node ChildNumber NodeParams Prefix Address : Type} (B : Bip32 Node ChildNumber) (kaspa : Kaspa NodeParams)
  (sha256 : Bytes → Block 32) (cli : Surroundings NodeParams Prefix Address)

/-- The vault without its key. -/
def openVault (resolved : Resolved Node) (scheme : Scheme) : Outcome String SlhVault := do
  let (vault, _) ← openVaultWithKey B sha256 resolved scheme
  pure vault

/-- Show what the vault holds. -/
def cmdBalance (resolved : Resolved Node) (scheme : Scheme) (addressPrefix : Prefix) :
    Outcome String (Shown Address) := do
  let vault ← openVault B sha256 resolved scheme
  let address ← .ofExcept (vault.address kaspa cli.addresses addressPrefix)
  let client ← .ofExcept (connect cli resolved.network)
  let utxos ← .ofExcept (vaultUtxos cli.addresses client address)
  if utxos.isEmpty then pure (.unfunded address)
  else pure (.holds address utxos (utxos.map VaultUtxo.amount).sum)

/-! ### The coins of the vault -/

/-- The coin as it is listed. -/
def listed (c : Coin) : VaultUtxo := ⟨c.outpoint.transactionId, c.outpoint.index, c.amount⟩

/-- The coins at the redeem script. -/
def coinsAt (coins : List Coin) (redeemScript : Bytes) : List Coin :=
  coins.filter fun c => c.scriptPublicKey = kaspa.payToScriptHashScript redeemScript

variable {B} {kaspa} {sha256} {cli} {lib : AddressLib Prefix Address} {client : Client Address} {coins : List Coin}
  {resolved : Resolved Node} {scheme : Scheme} {addressPrefix : Prefix}

/-- **What is listed**: every coin of the address once, the largest first. -/
theorem vaultUtxos_serves (hlib : lib.Lawful kaspa) (hserves : client.Serves lib addressPrefix coins)
    {redeemScript : Bytes} {address : Address}
    (haddress : lib.extractScriptPubKeyAddress (kaspa.payToScriptHashScript redeemScript) addressPrefix = .ok address)
    {utxos : List VaultUtxo} (h : vaultUtxos lib client address = .ok utxos) :
    utxos.Perm ((coinsAt kaspa coins redeemScript).map listed) ∧ utxos.Pairwise fun a b => b.amount ≤ a.amount := by
  obtain ⟨found, hfound, h⟩ := bind_eq_ok.mp h
  obtain rfl := Except.ok.inj h
  have hpay := hlib.pay_of_extract _ _ _ haddress
  obtain ⟨entries, hentries, hkeys⟩ := LmsWallet.utxosFor_eq_ok hserves (List.nodup_singleton address) hfound
  have hheld := VaultNode.heldUnder_of_serves hlib hentries (List.mem_singleton_self address) (by rw [hpay, haddress])
  rw [hpay] at hheld
  refine ⟨(List.mergeSort_perm _ _).trans ?_, ?_⟩
  · have hgetD : (found (lib.text address)).getD [] = LmsWallet.heldUnder lib entries (lib.text address) := by
      rw [hkeys]
      split_ifs with hnil
      · rw [hnil]
        rfl
      · rfl
    rw [hgetD]
    refine (hheld.map _).trans (List.Perm.of_eq ?_)
    rw [List.map_map]
    rfl
  · refine (List.pairwise_mergeSort ?_ ?_ _).imp fun h => of_decide_eq_true h
    · intro a b c hab hbc
      exact decide_eq_true (UInt64.le_trans (of_decide_eq_true hbc) (of_decide_eq_true hab))
    · intro a b
      rw [Bool.or_eq_true, decide_eq_true_eq, decide_eq_true_eq]
      exact UInt64.le_total b.amount a.amount

/-- The amounts add up to what the coins are worth. -/
theorem toNat_total {utxos : List VaultUtxo} {held : List Coin} (hperm : utxos.Perm (held.map listed))
    (hsupply : worth held < 2 ^ 64) : (utxos.map VaultUtxo.amount).sum.toNat = worth held := by
  rw [(hperm.map _).sum_eq, List.map_map, VaultNode.toNat_sum, List.map_map]
  exact Nat.mod_eq_of_lt hsupply

theorem openVault_eq_ok {vault : SlhVault} : openVault B sha256 resolved scheme = .ok vault ↔
    ∃ keypair, openVaultWithKey B sha256 resolved scheme = .ok (vault, keypair) := by
  rw [openVault, Outcome.bind_eq_ok]
  constructor
  · rintro ⟨⟨vault', keypair⟩, hopen, h⟩
    cases h
    exact ⟨keypair, hopen⟩
  · rintro ⟨keypair, hopen⟩
    exact ⟨_, hopen, rfl⟩

theorem address_eq_ok {vault : SlhVault} {address : Address} : vault.address kaspa lib addressPrefix = .ok address ↔
    ∃ script, vault.redeemScript kaspa = .ok script ∧
      lib.extractScriptPubKeyAddress (kaspa.payToScriptHashScript script) addressPrefix = .ok address := by
  simp only [SlhVault.address, bind_eq_ok, mapError_eq_ok]

/-- **How something comes to be shown.** -/
theorem cmdBalance_eq_ok {shown : Shown Address}
    (h : cmdBalance B kaspa sha256 cli resolved scheme addressPrefix = .ok shown) :
    ∃ vault address client utxos, openVault B sha256 resolved scheme = .ok vault ∧
      vault.address kaspa cli.addresses addressPrefix = .ok address ∧ connect cli resolved.network = .ok client ∧
      vaultUtxos cli.addresses client address = .ok utxos ∧
      (utxos = [] ∧ shown = .unfunded address ∨
        utxos ≠ [] ∧ shown = .holds address utxos (utxos.map VaultUtxo.amount).sum) := by
  obtain ⟨vault, hopen, h⟩ := Outcome.bind_eq_ok.mp h
  obtain ⟨address, haddress, h⟩ := Outcome.ofExcept_bind_eq_ok.mp h
  obtain ⟨client, hclient, h⟩ := Outcome.ofExcept_bind_eq_ok.mp h
  obtain ⟨utxos, hutxos, h⟩ := Outcome.ofExcept_bind_eq_ok.mp h
  refine ⟨vault, address, client, utxos, hopen, haddress, hclient, hutxos, ?_⟩
  split_ifs at h with hempty
  · cases h
    exact .inl ⟨List.isEmpty_iff.mp hempty, rfl⟩
  · cases h
    exact .inr ⟨fun hnil => hempty (List.isEmpty_iff.mpr hnil), rfl⟩

variable [DecidableEq Prefix]

/-- **The list and the spend.** Of a node that answers with the coins there are, what is shown is every coin at the
vault's script, the largest first, and what they are worth together. It is unfunded if there is none. A spend
of this vault takes a coin of the list, the first, so that no coin of the vault is worth more. -/
theorem cmdBalance_lists (hlib : cli.addresses.Lawful kaspa)
    (hserves : ∀ client, connect cli resolved.network = .ok client → client.Serves cli.addresses addressPrefix coins)
    {shown : Shown Address} (h : cmdBalance B kaspa sha256 cli resolved scheme addressPrefix = .ok shown) :
    ∃ vault script, openVault B sha256 resolved scheme = .ok vault ∧ vault.redeemScript kaspa = .ok script ∧
      (∀ address, shown = .unfunded address → coinsAt kaspa coins script = []) ∧
      (∀ address utxos total, shown = .holds address utxos total →
        utxos.Perm ((coinsAt kaspa coins script).map listed) ∧ utxos.Pairwise (fun a b => b.amount ≤ a.amount) ∧
          (worth (coinsAt kaspa coins script) < 2 ^ 64 → total.toNat = worth (coinsAt kaspa coins script))) ∧
      ∀ args plan, planSpend B kaspa sha256 cli args resolved scheme addressPrefix = .ok plan →
        plan.vault = vault ∧ (∃ address rest total, shown = .holds address (plan.utxo :: rest) total) ∧
          ∀ c ∈ coinsAt kaspa coins script, c.amount ≤ plan.utxo.amount := by
  obtain ⟨vault, address, client, utxos, hopen, haddress, hclient, hutxos, hshown⟩ := cmdBalance_eq_ok h
  obtain ⟨script, hscript, hextract⟩ := address_eq_ok.mp haddress
  obtain ⟨hperm, hsorted⟩ := vaultUtxos_serves hlib (hserves _ hclient) hextract hutxos
  refine ⟨vault, script, hopen, hscript, ?_, ?_, ?_⟩
  · rintro address' rfl
    rcases hshown with ⟨rfl, -⟩ | ⟨-, hholds⟩
    · exact List.map_eq_nil_iff.mp (List.nil_perm.mp hperm)
    · cases hholds
  · rintro address' utxos' total rfl
    rcases hshown with ⟨-, hunfunded⟩ | ⟨-, hholds⟩
    · cases hunfunded
    · cases hholds
      exact ⟨hperm, hsorted, toNat_total hperm⟩
  · intro args plan hplan
    obtain ⟨_, address', rest, -, -, -, -, hopen', haddress', hclient', hutxos', -⟩ := planSpend_eq_ok.mp hplan
    obtain ⟨keypair, hkeypair⟩ := openVault_eq_ok.mp hopen
    obtain ⟨hvault, -⟩ := Prod.mk.inj (Outcome.ok.inj (hopen'.symm.trans hkeypair))
    rw [hvault] at haddress'
    obtain rfl := Except.ok.inj (haddress'.symm.trans haddress)
    obtain rfl := Except.ok.inj (hclient'.symm.trans hclient)
    obtain rfl := Except.ok.inj (hutxos'.symm.trans hutxos)
    refine ⟨hvault, ?_, fun c hc => ?_⟩
    · rcases hshown with ⟨hnil, -⟩ | ⟨-, hholds⟩
      · cases hnil
      · exact ⟨_, _, _, hholds⟩
    · rcases List.mem_cons.mp (hperm.mem_iff.mpr (List.mem_map_of_mem hc)) with hhead | hrest
      · rw [← hhead]
        exact UInt64.le_rfl
      · exact List.rel_of_pairwise_cons hsorted hrest

/-- A smaller coin at the same address. -/
def smallCoin : Coin := { scriptHashCoin with outpoint := ⟨Block.zero 32, 1⟩, amount := 400000000 }

/-- A node that holds both, and answers with the smaller one first. -/
def twoCoinsCli : Surroundings Unit Unit Bytes :=
  { testCli with newRpc := testRpc (LmsWallet.testClient [smallCoin, scriptHashCoin]) }

theorem vaultUtxos_twoCoins {script address : Bytes}
    (haddress : LmsWallet.testLib.extractScriptPubKeyAddress (scriptHashKaspa.payToScriptHashScript script) () =
      .ok address) :
    vaultUtxos LmsWallet.testLib (LmsWallet.testClient [smallCoin, scriptHashCoin]) address =
      .ok [testUtxo, listed smallCoin] := by
  obtain ⟨utxos, hutxos⟩ : ∃ utxos,
      vaultUtxos LmsWallet.testLib (LmsWallet.testClient [smallCoin, scriptHashCoin]) address = .ok utxos :=
    ⟨_, bind_eq_ok.mpr ⟨_, rfl, rfl⟩⟩
  obtain ⟨hperm, hsorted⟩ := vaultUtxos_serves LmsWallet.lawful_scriptHashKaspa (LmsWallet.serves_testClient _) haddress hutxos
  have hcoins : utxos.Perm [testUtxo, listed smallCoin] := hperm.trans (List.Perm.swap _ _ [])
  have hdistinct : ∀ a ∈ [testUtxo, listed smallCoin], ∀ b ∈ [testUtxo, listed smallCoin],
      b.amount ≤ a.amount → a.amount ≤ b.amount → a = b := by decide
  rw [hutxos, hcoins.eq_of_pairwise (fun a b ha hb => hdistinct a (hcoins.subset ha) b hb) hsorted (by decide)]

/-- Two coins, of which a spend takes the larger one. -/
theorem cmdBalance_lists_two : ∃ address total plan,
    cmdBalance pathTree scriptHashKaspa (fun _ => Block.zero 32) twoCoinsCli testResolved .slhDsaSha2_128s () =
        .ok (.holds address [testUtxo, listed smallCoin] total) ∧
      total.toNat = 1400000000 ∧
      planSpend pathTree scriptHashKaspa (fun _ => Block.zero 32) twoCoinsCli testArgs testResolved .slhDsaSha2_128s () =
        .ok plan ∧ plan.utxo = testUtxo := by
  obtain ⟨keypair, xi, -, hplan⟩ := planSpend_testCli fun _ => Block.zero 32
  obtain ⟨text, address, -, hto, hparse, hprefix, hamount, hopen, haddress, -, -, hparams, houtputs⟩ :=
    planSpend_eq_ok.mp hplan
  obtain ⟨script, -, hextract⟩ := address_eq_ok.mp haddress
  have hutxos := vaultUtxos_twoCoins hextract
  obtain ⟨plan, hplan⟩ : ∃ plan, planSpend pathTree scriptHashKaspa (fun _ => Block.zero 32) twoCoinsCli testArgs
      testResolved .slhDsaSha2_128s () = .ok plan :=
    ⟨⟨LmsWallet.testClient [smallCoin, scriptHashCoin], (), _, _, testUtxo, _, _, _⟩, planSpend_eq_ok.mpr
      ⟨text, address, _, hto, hparse, hprefix, hamount, hopen, haddress, rfl, hutxos, hparams, houtputs⟩⟩
  have hshown : cmdBalance pathTree scriptHashKaspa (fun _ => Block.zero 32) twoCoinsCli testResolved .slhDsaSha2_128s () =
      .ok (.holds address [testUtxo, listed smallCoin] ([testUtxo, listed smallCoin].map VaultUtxo.amount).sum) := by
    refine Outcome.bind_eq_ok.mpr ⟨_, openVault_eq_ok.mpr ⟨_, hopen⟩, ?_⟩
    refine Outcome.ofExcept_bind_eq_ok.mpr ⟨address, haddress, Outcome.ofExcept_bind_eq_ok.mpr ⟨_, rfl, ?_⟩⟩
    exact Outcome.ofExcept_bind_eq_ok.mpr ⟨_, hutxos, rfl⟩
  have hserves : ∀ client, connect twoCoinsCli testResolved.network = .ok client →
      client.Serves twoCoinsCli.addresses () [smallCoin, scriptHashCoin] := by
    intro client h
    obtain rfl := Except.ok.inj h
    exact LmsWallet.serves_testClient _
  obtain ⟨_, script', -, -, -, hholds, hspend⟩ := cmdBalance_lists LmsWallet.lawful_scriptHashKaspa hserves hshown
  obtain ⟨-, ⟨_, rest, _, hlist⟩, -⟩ := hspend testArgs plan hplan
  obtain ⟨-, -, htotal⟩ := hholds _ _ _ rfl
  have hall : coinsAt scriptHashKaspa [smallCoin, scriptHashCoin] script' = [smallCoin, scriptHashCoin] := rfl
  have hworth : worth [smallCoin, scriptHashCoin] = 1400000000 := by decide
  rw [hall, hworth] at htotal
  injection hlist with _ hhead
  exact ⟨address, _, plan, hshown, htotal (by norm_num), hplan, (List.cons.inj hhead).1.symm⟩

end KaspaPqv.VaultCli.SlhCmd
