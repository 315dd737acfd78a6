import KaspaPqv.LmsWallet.ChangeLeaf
import KaspaPqv.SlhWallet.Command
import KaspaPqv.VaultCore.Fee

/-!
# What a spend command pays

Both commands reckon in 64 bits, and neither checks what it adds: a large fee takes amount and
fee past `2 ^ 64`, and past the guard. Then the change is more than the amount leaves of the
coin. It is the estimate of the two outputs that refuses it, as these add up without wrapping
where the coin is below `2 ^ 63`.

## What is proved

* `total_of_checks` — the estimates before and after the guard make it sound.
* `spend_conserves` — whatever the commands build pays amount, change and fee, which are
  together what the coin is worth.
-/

namespace KaspaPqv.VaultCli

open KaspaPqv.Lib KaspaPqv.Script KaspaPqv.VaultCore
open LmsWallet (AddressLib Client LmsLib ScriptEngine saturatingSub)

/-- Amount, change and fee are what the coin is worth, over unbounded integers, and neither
output is dust. -/
structure Conserved (coin amount change fee : UInt64) : Prop where
  total : amount.toNat + change.toNat + fee.toNat = coin.toNat
  amount_ge : dustThreshold ≤ amount
  change_ge : dustThreshold ≤ change

/-! ### Sums of 64 bits -/

/-- What the amount leaves, cut off at zero. -/
theorem saturatingSub_of_lt {a b : UInt64} (h : a < b) : saturatingSub a b = 0 := if_neg (UInt64.not_le.mpr h)

/-- **The probe bounds the amount**: the change it is made with is zero where the amount is more
than the coin. -/
theorem amount_le_of_probe {coin amount rest : UInt64} (hprobe : amount + rest ≤ coin)
    (hrest : coin < amount → rest = 0) : amount ≤ coin := by
  by_contra hlt
  obtain rfl := hrest (UInt64.not_le.mp hlt)
  rw [UInt64.add_zero] at hprobe
  exact hlt hprobe

/-- **The checks together** leave no room for a sum that wraps. -/
theorem total_of_checks {coin amount fee : UInt64} (hcoin : coin.toNat < 2 ^ 63) (hamount : amount ≤ coin)
    (hguard : amount + fee ≤ coin) (htotal : amount + (coin - amount - fee) ≤ coin) :
    amount.toNat + (coin - amount - fee).toNat + fee.toNat = coin.toNat := by
  have hchange : (coin - amount - fee).toNat = coin.toNat - (amount + fee).toNat := by
    have hsub : coin - amount - fee = coin - (amount + fee) := by grind
    rw [hsub, UInt64.toNat_sub_of_le _ _ hguard]
  rw [UInt64.le_iff_toNat_le] at hamount hguard htotal
  -- amount and change are both at most the coin, so their sum does not wrap
  rw [UInt64.toNat_add, Nat.mod_eq_of_lt (by omega), hchange] at htotal
  rw [hchange]
  rw [UInt64.toNat_add] at hguard htotal ⊢
  have hfee := fee.toNat_lt
  rcases Nat.lt_or_ge (amount.toNat + fee.toNat) (2 ^ 64) with hlt | hwraps
  · rw [Nat.mod_eq_of_lt hlt] at hguard ⊢
    omega
  · -- the guard saw less than the amount: the change is then too large for the estimate
    omega

/-- What an estimate says of two outputs. -/
structure Estimated (coin amount change : UInt64) : Prop where
  total_le : amount + change ≤ coin
  amount_ge : dustThreshold ≤ amount
  change_ge : dustThreshold ≤ change

theorem estimated_of_estimate {Params : Type} {kaspa : Kaspa Params} {shape : SpendShape Params} {r : PreflightReport}
    {a b : OutputView} (h : estimate kaspa shape = .ok r) (houtputs : shape.outputs = [a, b]) :
    Estimated shape.utxoAmount a.amount b.amount := by
  obtain ⟨-, htotal, hdust, -⟩ := estimate_eq_ok.mp h
  rw [houtputs] at htotal hdust
  refine ⟨?_, hdust a (by simp), hdust b (by simp)⟩
  simpa [totalOut] using htotal

/-- **A probe, the guard, and an estimate** of what is left: value is conserved. -/
theorem conserved_of_estimated {coin amount rest fee : UInt64} (hcoin : coin.toNat < 2 ^ 63)
    (hprobe : Estimated coin amount rest) (hrest : coin < amount → rest = 0) (hguard : amount + fee ≤ coin)
    (h : Estimated coin amount (coin - amount - fee)) : Conserved coin amount (coin - amount - fee) fee where
  total := total_of_checks hcoin (amount_le_of_probe hprobe.total_le hrest) hguard h.total_le
  amount_ge := h.amount_ge
  change_ge := h.change_ge

/-! ### The two commands -/

section

variable {Params Prefix Address K : Type} (kaspa : Kaspa Params) (lib : AddressLib Prefix Address)
  (sha256 : Bytes → Block 32) (lms : LmsLib K)

/-- `run` comes to `build_spend` with a coin and outputs, and is returned a spend. -/
def RunBuilds (client : Client Address) (req : LmsWallet.SpendRequest Params Prefix Address) (file : AppendFile Char)
    (utxo : LmsWallet.VaultUtxo) (outputs : List OutputView) (signed : LmsWallet.SignedSpend) : Prop :=
  LmsWallet.planSpend kaspa lib client req = .ok (utxo, outputs) ∧
    ∃ entries signingKey journal k, LmsWallet.FileJournal.openJournal req.journalPath file.content = .ok entries ∧
      LmsWallet.signingKeyAt lms req.xi utxo.leaf = .ok signingKey ∧
      LmsWallet.buildSpend kaspa sha256 (LmsWallet.fileJournal .nowhere) lms.signingKey (file, entries)
        (req.call utxo outputs signingKey) = (.ok signed, journal, k)

variable {Node ChildNumber : Type} (B : Bip32 Node ChildNumber) (engine : ScriptEngine)
  (cli : SlhWallet.Surroundings Params Prefix Address) [DecidableEq Prefix]

/-- `cmd_spend` comes to `build_spend` with a plan, and is returned a spend. -/
def CmdSpendBuilds (args : SlhWallet.Args) (resolved : SlhWallet.Resolved Node) (scheme : Scheme) (addressPrefix : Prefix)
    (plan : SlhWallet.SpendPlan Params Address) (spend : SlhWallet.SignedSpend) : Prop :=
  SlhWallet.planSpend B kaspa sha256 cli args resolved scheme addressPrefix = .ok plan ∧
    plan.build kaspa sha256 engine = .ok spend

end

section

variable {Params Prefix Address K : Type} {kaspa : Kaspa Params} {lib : AddressLib Prefix Address}
  {sha256 : Bytes → Block 32} {lms : LmsLib K}

/-- An estimate of the stateful wallet. -/
theorem estimated_of_estimateSpend {params : Params} {vault : LmsWallet.Vault} {utxo : LmsWallet.VaultUtxo}
    {a b : OutputView} {budgetUnits : UInt16} {r : PreflightReport}
    (h : LmsWallet.estimateSpend kaspa params vault utxo 1 [a, b] budgetUnits = .ok r) :
    Estimated utxo.amount a.amount b.amount := by
  obtain ⟨s, hs, hest⟩ := bind_eq_ok.mp h
  obtain ⟨houtputs, hamount⟩ := LmsWallet.shape_fields kaspa hs
  rw [← hamount]
  exact estimated_of_estimate hest houtputs

/-- And one of the stateless wallet. -/
theorem estimated_of_preflight {params : Params} {vault : SlhWallet.SlhVault} {utxo : SlhWallet.VaultUtxo}
    {a b : OutputView} {budgetUnits : UInt16} {r : PreflightReport}
    (h : SlhWallet.preflight kaspa params vault utxo 1 [a, b] budgetUnits = .ok r) :
    Estimated utxo.amount a.amount b.amount := by
  obtain ⟨s, hest, houtputs, hamount⟩ := SlhWallet.preflight_eq_ok h
  rw [← hamount]
  exact estimated_of_estimate hest houtputs

end

/-! ### A test of each -/

section

open SlhWallet SlhScript

/-- Ten coins at the only address there is. -/
def scriptHashCoin : LmsWallet.Coin := ⟨⟨Block.zero 32, 0⟩, 1000000000, ⟨0, (scriptHashOutput 0).script⟩, 0⟩

/-- A node of the test network. -/
def testRpc (client : LmsWallet.Client Bytes) (network : VaultNode.NetworkId) :
    Except String (VaultNode.Rpc Bytes) :=
  if network = ⟨.testnet, some 10⟩ then .ok ⟨.ok (), .ok ⟨true, true, network⟩, client⟩ else .error "no such node"

/-- A node that holds them, and a command line that pays to the address they are at. -/
def testCli : Surroundings Unit Unit Bytes where
  addresses := LmsWallet.testLib
  parseAddress _ := .ok (scriptHashOutput 0).script
  prefixOf _ := ()
  prefixText _ := "kaspatest"
  kas amount := s!"{amount}e-8"
  newRpc := testRpc (LmsWallet.testClient [scriptHashCoin])
  networkText _ := "testnet-10"
  mainnetParams := ()
  testnetParams := ()
  readLine := .ok "no".toList

/-- Half of the coins, at the fee that the command decides on. -/
def testArgs : Args where
  «to» := some "kaspatest"
  amount := some 500000000
  fee := none
  yes := true
  dryRun := true

def testResolved : Resolved (List UInt32) := ⟨.raw (Block.zero 32), 0, "tn10"⟩

def testUtxo : SlhWallet.VaultUtxo := ⟨Block.zero 32, 0, 1000000000⟩

/-- Half of the coins and a change. -/
def halves (change : UInt64) : List OutputView := [scriptHashOutput 500000000, scriptHashOutput change]

variable {p : Params}

theorem shape_halves (hp : p ∈ Params.ALL) (publicKey : PublicKey) (change : UInt64) (budgetUnits : UInt16) :
    ∃ s, SlhWallet.shape scriptHashKaspa () (.fromPublicKey p publicKey) testUtxo 1 (halves change) budgetUnits = .ok s ∧
      s.outputs = halves change ∧ s.utxoAmount = 1000000000 ∧ s.expectedOutputCount = 2 := by
  obtain ⟨script, hscript⟩ := SlhVault.redeemScript_eq_ok scriptHashKaspa hp publicKey
  have hwitness : ∃ is, placeholderWitness (.forParams p) = .ok is :=
    ⟨_, map_eq_ok.mpr ⟨_, witnessPushes_apply (length_zeros _) (), rfl⟩⟩
  obtain ⟨is, his⟩ := hwitness
  obtain ⟨signatureScript, hplaceholder⟩ : ∃ signatureScript,
      SlhWallet.placeholderSignatureScript scriptHashKaspa (.fromPublicKey p publicKey) = .ok signatureScript :=
    ⟨_, bind_eq_ok.mpr ⟨script, hscript, bind_eq_ok.mpr ⟨is, his, rfl⟩⟩⟩
  exact ⟨_, bind_eq_ok.mpr ⟨signatureScript, hplaceholder, bind_eq_ok.mpr ⟨script, hscript, rfl⟩⟩, rfl, rfl, rfl⟩

/-- A change that is no dust, and that the coins have room for. -/
theorem preflight_halves (hp : p ∈ Params.ALL) (publicKey : PublicKey) (change : UInt64)
    (htotal : 500000000 + change ≤ 1000000000) (hdust : dustThreshold ≤ change) (budgetUnits : UInt16) :
    ∃ r, preflight scriptHashKaspa () (.fromPublicKey p publicKey) testUtxo 1 (halves change) budgetUnits = .ok r ∧
      r.fee = 1000000000 - (500000000 + change) ∧ r.minimumFee = 4978200 ∧ r.normalizedMaxMass = 49782 := by
  obtain ⟨s, hs, houtputs, hamount, hcount⟩ := shape_halves hp publicKey change budgetUnits
  have hsum : totalOut (halves change) = 500000000 + change := by
    simp [totalOut, halves, scriptHashOutput]
  have hest : estimate scriptHashKaspa s = .ok (s.report scriptHashKaspa 0) := by
    refine estimate_eq_ok.mpr ⟨?_, ?_, ?_, ?_, 0, rfl, rfl⟩
    · rw [houtputs, hcount]
      rfl
    · rw [houtputs, hamount, hsum]
      exact htotal
    · rw [houtputs]
      intro o ho
      rcases List.mem_pair.mp ho with rfl | rfl
      · decide
      · exact hdust
    · rw [houtputs]
      intro o ho
      rcases List.mem_pair.mp ho with rfl | rfl
      · exact relayable_scriptHashScript _ (length_zeros 32)
      · exact relayable_scriptHashScript _ (length_zeros 32)
  refine ⟨_, bind_eq_ok.mpr ⟨s, hs, hest⟩, ?_, ?_, ?_⟩
  · change s.utxoAmount - totalOut s.outputs = _
    rw [houtputs, hamount, hsum]
  · unfold SpendShape.report scriptHashKaspa
    dsimp only
    decide
  · unfold SpendShape.report scriptHashKaspa
    dsimp only
    decide

/-- What is left at the fee that the command decides on: a fifth above 4978200 sompi. -/
def testChange : UInt64 := 494026160

theorem vaultUtxos_testCli :
    vaultUtxos LmsWallet.testLib (LmsWallet.testClient [scriptHashCoin]) (scriptHashOutput 0).script = .ok [testUtxo] := by
  have hentries : (LmsWallet.testClient [scriptHashCoin]).getUtxosByAddresses [(scriptHashOutput 0).script] =
      .ok [⟨some (scriptHashOutput 0).script, ⟨Block.zero 32, 0⟩, 1000000000, 0⟩] := rfl
  have hfound : (LmsWallet.testClient [scriptHashCoin]).utxosFor LmsWallet.testLib [(scriptHashOutput 0).script] =
      .ok (Function.update (fun _ => none) (LmsWallet.testLib.text (scriptHashOutput 0).script)
        (some [⟨Block.zero 32, 0, 1000000000, 0⟩])) := by
    rw [LmsWallet.Client.utxosFor, hentries]
    rfl
  rw [vaultUtxos, hfound, bind_eq_ok]
  refine ⟨_, rfl, ?_⟩
  rw [Function.update_self]
  simp [testUtxo, pure, Except.pure]

/-- The plan of the test. -/
theorem planSpend_testCli (sha256 : Bytes → Block 32) :
    ∃ keypair xi, keypair.secret.Sound sha256 .SHA2_128S (seedsFromXi sha256 .SHA2_128S xi) ∧
      planSpend pathTree scriptHashKaspa sha256 testCli testArgs testResolved .slhDsaSha2_128s () =
        .ok ⟨LmsWallet.testClient [scriptHashCoin], (), .fromPublicKey .SHA2_128S keypair.publicKey, keypair, testUtxo,
          (scriptHashOutput 0).script, 500000000, halves testChange⟩ := by
  obtain ⟨xi, hxi⟩ : ∃ xi, Derivation.xiFrom pathTree { Derivation.DEFAULT with scheme := .slhDsaSha2_128s } 0 0 sha256
      (.raw (Block.zero 32)) = .ok xi := ⟨_, map_eq_ok.mpr ⟨_, rfl, rfl⟩⟩
  obtain ⟨keypair, hkeypair, -, hsound⟩ := @SlhVault.fromXi_eq_ok .SHA2_128S sha256 (by decide) xi
  have hopen : openVaultWithKey pathTree sha256 testResolved .slhDsaSha2_128s =
      .ok (.fromPublicKey .SHA2_128S keypair.publicKey, keypair) :=
    Outcome.ofOption_bind_eq_ok.mpr ⟨.SHA2_128S, rfl,
      Outcome.ofExcept_bind_eq_ok.mpr ⟨xi, mapError_eq_ok.mpr hxi, hkeypair⟩⟩
  obtain ⟨script, hscript⟩ := SlhVault.redeemScript_eq_ok scriptHashKaspa (p := .SHA2_128S) (by decide) keypair.publicKey
  obtain ⟨probe, hprobe, -, hfloor, -⟩ := preflight_halves (p := .SHA2_128S) (by decide) keypair.publicKey
    250000000 (by decide) (by decide) preflightBudgetUnits
  have hhalf : saturatingSub 1000000000 500000000 / 2 = 250000000 := by decide
  rw [← hhalf] at hprobe
  have hfee : chosenFee none probe = 5973840 := by
    rw [chosenFee, hfloor]
    decide
  have haddress : (SlhVault.fromPublicKey .SHA2_128S keypair.publicKey).address scriptHashKaspa testCli.addresses () =
      .ok (scriptHashOutput 0).script := bind_eq_ok.mpr ⟨script, hscript, rfl⟩
  refine ⟨keypair, xi, hsound, planSpend_eq_ok.mpr ⟨"kaspatest", (scriptHashOutput 0).script, [], rfl, rfl, rfl, rfl,
    hopen, haddress, rfl, vaultUtxos_testCli, rfl, ?_⟩⟩
  refine chooseOutputs_eq_ok.mpr ⟨script, probe, hscript, hprobe, ?_, ?_⟩
  · change 500000000 + chosenFee none probe < 1000000000
    rw [hfee]
    decide
  · change halves (1000000000 - 500000000 - chosenFee none probe) = _
    rw [hfee]
    rfl

/-- A signature of the right length is made into a spend. -/
theorem assembleSpend_testCli {keypair : Keypair} (hset : keypair.secret.p = .SHA2_128S) (digest : Block 32)
    {signature : Bytes} (hlen : signature.length = Params.SHA2_128S.sigLen) :
    ∃ spend, SlhWallet.assembleSpend scriptHashKaspa LmsWallet.testEngine ()
      (.fromPublicKey .SHA2_128S keypair.publicKey) keypair testUtxo 1 (halves testChange) digest signature = .ok spend := by
  have hp : Params.SHA2_128S ∈ Params.ALL := by decide
  obtain ⟨script, hscript⟩ := SlhVault.redeemScript_eq_ok scriptHashKaspa hp keypair.publicKey
  obtain ⟨is, hwitness⟩ : ∃ is, witnessOf (.forParams .SHA2_128S) signature = .ok is :=
    ⟨_, map_eq_ok.mpr ⟨_, witnessPushes_apply hlen (), rfl⟩⟩
  have hbudget : declaredBudget 500000 = .ok 52 := by decide
  obtain ⟨r, hr, hfee, hfloor, -⟩ := preflight_halves hp keypair.publicKey testChange (by decide) (by decide) 52
  have hpaid : r.minimumFee ≤ r.fee := by
    rw [hfee, hfloor]
    decide
  let signatureScript := scriptHashKaspa.build is ++ shortestPush script
  let built := SlhWallet.buildTx scriptHashKaspa signatureScript script testUtxo 1 (halves testChange) 52
  refine ⟨⟨digest, built.1, built.2, script, 500000, 52, r⟩, ensure_bind_eq_ok.mpr ⟨hset, ?_⟩⟩
  refine bind_eq_ok.mpr ⟨script, hscript, bind_eq_ok.mpr ⟨is, hwitness,
    bind_eq_ok.mpr ⟨signatureScript, rfl, ?_⟩⟩⟩
  refine bind_eq_ok.mpr ⟨500000, rfl, bind_eq_ok.mpr ⟨52, hbudget, bind_eq_ok.mpr ⟨500000, rfl, ?_⟩⟩⟩
  exact bind_eq_ok.mpr ⟨r, hr, ensure_bind_eq_ok.mpr ⟨hpaid, rfl⟩⟩

/-- A key of the set signs, and spends. -/
theorem buildSpend_testCli {sha256 : Bytes → Block 32} {seeds : SecretSeeds} {keypair : Keypair}
    (hsound : keypair.secret.Sound sha256 .SHA2_128S seeds) :
    ∃ spend, SlhWallet.buildSpend scriptHashKaspa sha256 LmsWallet.testEngine ()
      (.fromPublicKey .SHA2_128S keypair.publicKey) keypair testUtxo 1 (halves testChange) = .ok spend := by
  have hp : Params.SHA2_128S ∈ Params.ALL := by decide
  have hfacts := Params.facts _ hp
  have hfits : SpendView.Fits ⟨1, testUtxo.txid, testUtxo.index, halves testChange⟩ := by
    refine ⟨Nat.two_pos, (by decide : 2 < 2 ^ 7), (by decide : (1 : UInt16).toNat < 2 ^ 15),
      (by decide : (0 : UInt32).toNat < 2 ^ 31), fun o ho => ?_⟩
    rcases List.mem_pair.mp ho with rfl | rfl
    · decide
    · decide
  obtain ⟨digest, hdigest⟩ : ∃ digest, bindingDigest sha256 ⟨1, testUtxo.txid, testUtxo.index, halves testChange⟩ =
      .ok digest := ⟨_, map_eq_ok.mpr ⟨_, bindingPreimage_eq_ok.mpr ⟨hfits, rfl⟩, rfl⟩⟩
  have hcheck : SlhWallet.checkSpend scriptHashKaspa sha256 () (.fromPublicKey .SHA2_128S keypair.publicKey)
      testUtxo 1 (halves testChange) = .ok digest := by
    obtain ⟨r, hr, hfee, hfloor, hmass⟩ := preflight_halves hp keypair.publicKey testChange (by decide)
      (by decide) preflightBudgetUnits
    refine SlhWallet.checkSpend_eq_ok.mpr ⟨rfl, r, hr, ?_, ?_, hdigest⟩
    · rw [hfee, hfloor]
      decide
    · rw [hmass]
      decide
  obtain ⟨secret, hsign, -⟩ := sign_sound sha256 hfacts hsound digest.bytes
  have hlen : (keypair.secret.signature sha256 digest.bytes).toBytes.length = Params.SHA2_128S.sigLen := by
    rw [length_signature sha256 (by rwa [hsound.p_eq]), hsound.p_eq]
  obtain ⟨spend, hspend⟩ := assembleSpend_testCli hsound.p_eq digest hlen
  exact ⟨spend, buildSpend_eq_ok.mpr ⟨digest, _, secret, hcheck, hsign, hspend⟩⟩

end

/-- **Both commands conserve value**: whatever amount and fee they are asked for, and however the
sums wrap, a spend that is built of a coin below `2 ^ 63` pays the amount, the change and the fee,
which are together what the coin is worth; neither output is dust, and the change output carries
the change. -/
theorem spend_conserves {Params Prefix Address K Node ChildNumber : Type} [DecidableEq Prefix] (kaspa : Kaspa Params)
    (lib : AddressLib Prefix Address) (sha256 : Bytes → Block 32) (lms : LmsLib K) (B : Bip32 Node ChildNumber)
    (engine : ScriptEngine) (cli : SlhWallet.Surroundings Params Prefix Address) :
    (∀ client req file utxo outputs signed, RunBuilds kaspa lib sha256 lms client req file utxo outputs signed →
      utxo.amount.toNat < 2 ^ 63 → ∃ changeAddress probe change,
        req.vault.address kaspa lib req.addressPrefix (utxo.leaf + 1) = .ok changeAddress ∧
        LmsWallet.estimateSpend kaspa req.params req.vault utxo 1 [LmsWallet.toOutput lib req.destination req.amount,
          LmsWallet.toOutput lib changeAddress (saturatingSub utxo.amount req.amount)] LmsWallet.sizingBudgetUnits =
          .ok probe ∧
        outputs = [LmsWallet.toOutput lib req.destination req.amount, LmsWallet.toOutput lib changeAddress change] ∧
        Conserved utxo.amount req.amount change (req.chosenFee probe)) ∧
    ∀ args resolved scheme addressPrefix plan spend,
      CmdSpendBuilds kaspa sha256 B engine cli args resolved scheme addressPrefix plan spend →
      plan.utxo.amount.toNat < 2 ^ 63 → ∃ redeemScript probe change,
        args.amount = some plan.amount ∧ plan.vault.redeemScript kaspa = .ok redeemScript ∧
        SlhWallet.preflight kaspa plan.params plan.vault plan.utxo 1
          [SlhWallet.p2shOrPubkeyOutput cli.addresses plan.destination plan.amount,
            SlhWallet.changeOutput (kaspa.payToScriptHashScript redeemScript)
              (saturatingSub plan.utxo.amount plan.amount / 2)] SlhWallet.preflightBudgetUnits = .ok probe ∧
        plan.outputs = [SlhWallet.p2shOrPubkeyOutput cli.addresses plan.destination plan.amount,
          SlhWallet.changeOutput (kaspa.payToScriptHashScript redeemScript) change] ∧
        spend.tx.outputs = toOutputs plan.outputs ∧
        Conserved plan.utxo.amount plan.amount change (SlhWallet.chosenFee args.fee probe) := by
  constructor
  · rintro client req file utxo outputs signed ⟨hplan, -⟩ hcoin
    obtain ⟨-, -, changeAddress, probe, report, hchange, hprobe, hguard, rfl, hreport⟩ :=
      LmsWallet.planSpend_reckons hplan
    refine ⟨changeAddress, probe, _, hchange, hprobe, rfl, ?_⟩
    exact conserved_of_estimated hcoin (estimated_of_estimateSpend hprobe) saturatingSub_of_lt hguard
      (estimated_of_estimateSpend hreport)
  · -- the outputs are estimated again where the spend is built
    rintro args resolved scheme addressPrefix plan spend ⟨hplan, hbuild⟩ hcoin
    obtain ⟨-, -, -, -, -, -, hasked, -, -, -, -, -, hchoose⟩ := SlhWallet.planSpend_eq_ok.mp hplan
    obtain ⟨redeemScript, probe, hscript, hprobe, hguard, houtputs⟩ := SlhWallet.chooseOutputs_eq_ok.mp hchoose
    obtain ⟨digest, signature, -, hcheck, -, hassemble⟩ := SlhWallet.buildSpend_eq_ok.mp hbuild
    obtain ⟨-, report, hreport, -⟩ := SlhWallet.checkSpend_eq_ok.mp hcheck
    obtain ⟨-, -, ⟨scripts, -, hbuilt⟩, -⟩ := SlhWallet.assembleSpend_eq_ok hassemble
    have htx : spend.tx.outputs = toOutputs plan.outputs := congrArg (fun built => built.1.outputs) hbuilt
    rw [← houtputs] at hreport
    have hrest (hlt : plan.utxo.amount < plan.amount) : saturatingSub plan.utxo.amount plan.amount / 2 = 0 := by
      rw [saturatingSub_of_lt hlt]
      rfl
    refine ⟨redeemScript, probe, _, hasked, hscript, hprobe, houtputs.symm, htx, ?_⟩
    exact conserved_of_estimated hcoin (estimated_of_preflight hprobe) hrest (UInt64.le_of_lt hguard)
      (estimated_of_preflight hreport)

/-- Ten coins, half of which are paid: by one command at the fee asked for, by the other at its own. -/
theorem spend_conserves_test :
    (∃ change, Conserved 1000000000 500000000 change 10000000) ∧
      ∃ probe change, Conserved 1000000000 500000000 change (SlhWallet.chosenFee none probe) := by
  obtain ⟨keypair, xi, hsound, hplan⟩ := planSpend_testCli LmsWallet.testHash
  obtain ⟨spend, hspend⟩ := buildSpend_testCli hsound
  obtain ⟨-, hcmd⟩ := spend_conserves scriptHashKaspa LmsWallet.testLib LmsWallet.testHash LmsWallet.testLms pathTree
    LmsWallet.testEngine testCli
  obtain ⟨hrun, -⟩ := spend_conserves LmsWallet.scriptKaspa LmsWallet.testLib LmsWallet.testHash LmsWallet.testLms pathTree
    LmsWallet.testEngine testCli
  constructor
  · have hfunded : LmsWallet.testVault.OnlyFunded LmsWallet.scriptKaspa [LmsWallet.coinAt 0] LmsWallet.scanWindow 0
        (LmsWallet.coinAt 0) := LmsWallet.World.onlyFunded_coinAt (by decide) fun _ hc => nomatch hc
    obtain ⟨r, signed, -, -, hbuild⟩ := LmsWallet.TestSpend.first.buildSpend_eq LmsWallet.testHash (c := LmsWallet.coinAt 0)
      .empty (fun _ => none) hfunded.lt_leafCount rfl (by decide) rfl
    obtain ⟨-, probe, change, -, -, -, hconserved⟩ := hrun (LmsWallet.testClient [LmsWallet.coinAt 0]) LmsWallet.TestSpend.first.request
      .empty _ _ signed ⟨LmsWallet.TestSpend.first.planSpend_eq hfunded rfl, _, _, _, _, rfl,
        LmsWallet.signingKeyAt_testLms hfunded.lt_leafCount _, hbuild⟩ (by decide)
    exact ⟨change, hconserved⟩
  · obtain ⟨-, probe, change, -, -, -, -, -, hconserved⟩ := hcmd testArgs testResolved .slhDsaSha2_128s () _ spend
      ⟨hplan, hspend⟩ (by decide : (1000000000 : UInt64).toNat < 2 ^ 63)
    exact ⟨probe, change, hconserved⟩

end KaspaPqv.VaultCli
