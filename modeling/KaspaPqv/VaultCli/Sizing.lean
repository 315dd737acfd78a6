import KaspaPqv.LmsWallet.BeforeSigning
import KaspaPqv.SlhWallet.Spend
import KaspaPqv.VaultCore.Sizing

/-!
# What is sized is what is broadcast

Both wallets put a transaction together twice, in two places: with a witness of zeros to size it,
and with a signature to broadcast it. No push of either witness is so short that the script builder
would have an opcode for it, so the two are of one size, whatever the signature says.

## What is proved

* `built_as_sized` — the transaction built for a signature differs from the one that was sized only
  in the bytes of its signature script, for either wallet.
-/

namespace KaspaPqv.VaultCli

open KaspaPqv.Lib KaspaPqv.Script KaspaPqv.VaultCore KaspaPqv.SlhScript

variable {NodeParams K : Type} {kaspa : Kaspa NodeParams}

/-! ### The one-time scheme -/

theorem length_of_mem_chunksExact {n : ℕ} {bs chunk : Bytes} (h : chunk ∈ LmsWallet.chunksExact n bs) :
    chunk.length = n := by
  obtain ⟨i, hi, rfl⟩ := List.mem_map.mp h
  have hend : (i + 1) * n ≤ bs.length :=
    (Nat.mul_le_mul_right n (List.mem_range.mp hi)).trans (Nat.div_mul_le_self _ _)
  rw [length_slice, Nat.min_eq_left hend, Nat.succ_mul, Nat.add_sub_cancel_left]

/-- Every push of a witness has 32 bytes. -/
theorem length_of_mem_signatureItems {signature item : Bytes}
    (hlen : signature.length = LmsWallet.signatureLen LmsWallet.vaultParams)
    (h : item ∈ LmsWallet.signatureItems signature) : item.length = 32 := by
  simp only [LmsWallet.signatureItems, List.mem_append, List.mem_reverse, List.mem_singleton] at h
  rcases h with (h | h) | rfl
  · exact length_of_mem_chunksExact h
  · exact length_of_mem_chunksExact h
  · have hlong : 40 ≤ LmsWallet.signatureLen LmsWallet.vaultParams := by decide
    rw [length_slice, hlen, Nat.min_eq_left hlong]

/-- **A spend of a leaf** can be put together if and only if it can be sized, whatever the signature says,
and what is put together is what was sized. -/
theorem lms_built_as_sized (hpush : kaspa.PushesPlainly) (happend : kaspa.AppendsRedeemScript)
    (call : LmsWallet.SpendCall NodeParams K) (report : PreflightReport) (digest : Block 32)
    (outcome : LmsWallet.SignOutcome) (budgetUnits : UInt16) (hleaf : call.utxo.leaf < call.vault.leafCount)
    (hlen : outcome.record.signature.length = LmsWallet.signatureLen LmsWallet.vaultParams) :
    ((∃ signed, LmsWallet.assembleSpend kaspa call report digest outcome = .ok signed) ↔
      ∃ s, LmsWallet.shape kaspa call.params call.vault call.utxo call.txVersion call.outputs budgetUnits = .ok s) ∧
    ∀ signed s, LmsWallet.assembleSpend kaspa call report digest outcome = .ok signed →
      LmsWallet.shape kaspa call.params call.vault call.utxo call.txVersion call.outputs budgetUnits = .ok s →
      s.Sizes (LmsWallet.buildTx kaspa signed call.utxo call.txVersion call.outputs budgetUnits) := by
  obtain ⟨redeemScript, hredeem⟩ := call.vault.redeemScript_eq_ok kaspa hleaf
  have hzeros := length_zeros (LmsWallet.signatureLen LmsWallet.vaultParams)
  have hwitness := LmsWallet.witnessPushes_eq_items hlen
  have hplaceholder := LmsWallet.witnessPushes_eq_items hzeros
  have hscripts := signatureScript_congr hpush happend redeemScript
    (fun item h => by rw [length_of_mem_signatureItems hlen h]; norm_num)
    (LmsWallet.length_signatureItems_congr (hlen.trans hzeros.symm))
  set items := LmsWallet.signatureItems outcome.record.signature
  set zeroItems := LmsWallet.signatureItems (zeros (LmsWallet.signatureLen LmsWallet.vaultParams))
  simp only [LmsWallet.assembleSpend, LmsWallet.shape, LmsWallet.placeholderSignatureScript, bind_eq_ok, hredeem,
    hwitness, hplaceholder, mapError_eq_ok, Except.ok.injEq, exists_eq_left', pure, Except.pure]
  rcases hscripts with ⟨e, herror, herror'⟩ | ⟨script, script', hscript, hscript', hsame⟩
  · simp [herror, herror']
  · refine ⟨⟨fun _ => ⟨_, _, hscript', rfl⟩, fun _ => ⟨_, _, hscript, rfl⟩⟩, ?_⟩
    rintro signed s ⟨_, hs, rfl⟩ ⟨_, hs', rfl⟩
    obtain rfl := Except.ok.inj (hscript.symm.trans hs)
    obtain rfl := Except.ok.inj (hscript'.symm.trans hs')
    exact ⟨⟨rfl, .cons ⟨rfl, hsame, rfl, rfl⟩ .nil, rfl, rfl, rfl, rfl⟩, rfl⟩

/-! ### The stateless scheme -/

theorem length_blobsOf_congr {a b : Bytes} (h : a.length = b.length) (blobs : List ℕ) (offset : ℕ) :
    (blobsOf a blobs offset).map List.length = (blobsOf b blobs offset).map List.length := by
  induction blobs generalizing offset with
  | nil => rfl
  | cons count blobs ih => rw [blobsOf, blobsOf, List.map_cons, List.map_cons, ih, length_slice, length_slice, h]

/-- No blob within the signature is shorter than an element. -/
theorem length_of_mem_blobsOf {signature blob : Bytes} {blobs : List ℕ} {offset : ℕ} (hpos : ∀ n ∈ blobs, 0 < n)
    (hfit : offset + blobs.sum * N ≤ signature.length) (h : blob ∈ blobsOf signature blobs offset) :
    N ≤ blob.length := by
  induction blobs generalizing offset with
  | nil => cases h
  | cons count blobs ih =>
    obtain ⟨hcount, hblobs⟩ := List.forall_mem_cons.mp hpos
    rw [List.sum_cons, Nat.add_mul] at hfit
    rcases List.mem_cons.mp h with rfl | hrest
    · rw [length_slice, Nat.min_eq_left (by omega), Nat.add_sub_cancel_left]
      exact Nat.le_mul_of_pos_left N hcount
    · exact ih hblobs (by omega) hrest

theorem witnessOf_eq {plan : BlobPlan} {signature : Bytes} (h : signature.length = plan.p.sigLen) :
    SlhWallet.witnessOf plan signature = .ok ((blobsOf signature plan.blobs 0).map .push) := by
  rw [SlhWallet.witnessOf, Gen.code_eq_ok]
  exact ⟨_, _, witnessPushes_apply h ()⟩

/-- **A spend of a vault** has its scripts if and only if it can be sized, whatever the signature says, and
what is built of them is what was sized. -/
theorem slh_built_as_sized (hpush : kaspa.PushesPlainly) (happend : kaspa.AppendsRedeemScript) (params : NodeParams)
    {vault : SlhWallet.SlhVault} (hp : vault.plan.p ∈ Params.ALL) (utxo : SlhWallet.VaultUtxo) (txVersion : UInt16)
    (outputs : List OutputView) (budgetUnits : UInt16) {signature : Bytes}
    (hlen : signature.length = vault.plan.p.sigLen) :
    ((∃ scripts, SlhWallet.signedScripts kaspa vault signature = .ok scripts) ↔
      ∃ s, SlhWallet.shape kaspa params vault utxo txVersion outputs budgetUnits = .ok s) ∧
    ∀ scripts s, SlhWallet.signedScripts kaspa vault signature = .ok scripts →
      SlhWallet.shape kaspa params vault utxo txVersion outputs budgetUnits = .ok s →
      s.Sizes (SlhWallet.buildTx kaspa scripts.1 scripts.2 utxo txVersion outputs budgetUnits) := by
  have hzeros := length_zeros vault.plan.p.sigLen
  have hwitness := witnessOf_eq hlen
  have hplaceholder := witnessOf_eq hzeros
  have hfit : 0 + vault.plan.blobs.sum * N ≤ signature.length := by
    rw [hlen, vault.plan.sum_blobs, Params.sigLen, (Params.facts _ hp).n_eq, Nat.zero_add]
  simp only [SlhWallet.signedScripts, SlhWallet.shape, SlhWallet.placeholderSignatureScript, SlhWallet.placeholderWitness,
    SlhWallet.signatureScriptOf, bind_eq_ok, hwitness, hplaceholder, mapError_eq_ok, Except.ok.injEq, exists_eq_left',
    pure, Except.pure]
  cases hredeem : vault.redeemScript kaspa with
  | error e => simp
  | ok redeemScript =>
    simp only [Except.ok.injEq, exists_eq_left']
    rcases signatureScript_congr hpush happend redeemScript
        (fun _ h => (by norm_num [N] : 2 ≤ N).trans (length_of_mem_blobsOf vault.plan.blobs_pos hfit h))
        (length_blobsOf_congr (hlen.trans hzeros.symm) vault.plan.blobs 0) with
      ⟨e, herror, herror'⟩ | ⟨script, script', hscript, hscript', hsame⟩
    · simp [herror, herror']
    · refine ⟨⟨fun _ => ⟨_, _, hscript', rfl⟩, fun _ => ⟨_, _, hscript, rfl⟩⟩, ?_⟩
      rintro scripts s ⟨_, hs, rfl⟩ ⟨_, hs', rfl⟩
      obtain rfl := Except.ok.inj (hscript.symm.trans hs)
      obtain rfl := Except.ok.inj (hscript'.symm.trans hs')
      exact ⟨⟨rfl, .cons ⟨rfl, hsame, rfl, rfl⟩ .nil, rfl, rfl, rfl, rfl⟩, rfl⟩

/-! ### What is broadcast -/

/-- **What is sized is what is broadcast**, in both wallets: for every signature and every budget, a spend can
be put together if and only if it can be sized, and the two transactions differ only in the bytes of the
signature script. So what goes by lengths, amounts and the budget is the same for both. What is broadcast
is the one for the budget that it declares. -/
theorem built_as_sized (kaspa : Kaspa NodeParams) (hpush : kaspa.PushesPlainly) (happend : kaspa.AppendsRedeemScript) :
    (∀ (call : LmsWallet.SpendCall NodeParams K) (report : PreflightReport) (digest : Block 32)
      (outcome : LmsWallet.SignOutcome) (budgetUnits : UInt16), call.utxo.leaf < call.vault.leafCount →
      outcome.record.signature.length = LmsWallet.signatureLen LmsWallet.vaultParams →
      ((∃ signed, LmsWallet.assembleSpend kaspa call report digest outcome = .ok signed) ↔
        ∃ s, LmsWallet.shape kaspa call.params call.vault call.utxo call.txVersion call.outputs budgetUnits = .ok s) ∧
      ∀ signed s, LmsWallet.assembleSpend kaspa call report digest outcome = .ok signed →
        LmsWallet.shape kaspa call.params call.vault call.utxo call.txVersion call.outputs budgetUnits = .ok s →
        s.Sizes (LmsWallet.buildTx kaspa signed call.utxo call.txVersion call.outputs budgetUnits)) ∧
    (∀ engine signed utxo txVersion outputs assembled,
      LmsWallet.assemble kaspa engine signed utxo txVersion outputs = .ok assembled → (assembled.tx, assembled.utxo) =
        LmsWallet.buildTx kaspa signed utxo txVersion outputs assembled.declaredBudgetUnits) ∧
    (∀ (params : NodeParams) (vault : SlhWallet.SlhVault) (utxo : SlhWallet.VaultUtxo) (txVersion : UInt16)
      (outputs : List OutputView) (budgetUnits : UInt16) (signature : Bytes), vault.plan.p ∈ Params.ALL →
      signature.length = vault.plan.p.sigLen →
      ((∃ scripts, SlhWallet.signedScripts kaspa vault signature = .ok scripts) ↔
        ∃ s, SlhWallet.shape kaspa params vault utxo txVersion outputs budgetUnits = .ok s) ∧
      ∀ scripts s, SlhWallet.signedScripts kaspa vault signature = .ok scripts →
        SlhWallet.shape kaspa params vault utxo txVersion outputs budgetUnits = .ok s →
        s.Sizes (SlhWallet.buildTx kaspa scripts.1 scripts.2 utxo txVersion outputs budgetUnits)) ∧
    (∀ engine params vault keypair utxo txVersion outputs digest signature spend,
      SlhWallet.assembleSpend kaspa engine params vault keypair utxo txVersion outputs digest signature = .ok spend →
      ∃ scripts, SlhWallet.signedScripts kaspa vault signature = .ok scripts ∧ (spend.tx, spend.utxo) =
        SlhWallet.buildTx kaspa scripts.1 scripts.2 utxo txVersion outputs spend.declaredBudgetUnits) ∧
    ∀ (s : SpendShape NodeParams) built, s.Sizes built → ∀ (β : Type) (f : MassTransaction → UtxoEntry → β), SizeOnly f →
      f built.1 built.2 = f s.tx s.utxoEntry :=
  ⟨fun call report digest outcome budgetUnits => lms_built_as_sized hpush happend call report digest outcome budgetUnits,
    fun engine _ _ _ _ _ h => (LmsWallet.assemble_eq_ok kaspa engine h).1,
    fun params _ utxo txVersion outputs budgetUnits _ hp =>
      slh_built_as_sized hpush happend params hp utxo txVersion outputs budgetUnits,
    fun _ _ _ _ _ _ _ _ _ _ h => (SlhWallet.assembleSpend_eq_ok h).2.2.1, fun _ _ h _ _ hf => h.eq hf⟩

/-! ### A script builder -/

/-- The length of a push depends on what is pushed. -/
example : (LmsWallet.testKaspa.build [.push [7]]).length ≠ (LmsWallet.testKaspa.build [.push [17]]).length := by decide

theorem pushesPlainly_testKaspa : LmsWallet.testKaspa.PushesPlainly := by
  refine ⟨pushHeader, fun xs hlong => ?_⟩
  change (xs.map Instr.push).flatMap encodeInstr = _
  rw [List.flatMap_map]
  exact List.flatMap_congr fun x hx => shortestPush_of_le (hlong x hx)

theorem appendsRedeemScript_testKaspa : LmsWallet.testKaspa.AppendsRedeemScript :=
  fun redeemScript => .inr ⟨shortestPush redeemScript, fun _ => rfl⟩

/-- Signatures of ones, for a leaf of the one-time scheme and for a vault of the other. -/
def onesRecord : LmsWallet.SpendRecord :=
  ⟨⟨LmsWallet.blockOf 16 1, 0⟩, Block.zero 32, List.replicate (LmsWallet.signatureLen LmsWallet.vaultParams) 1⟩

def onesVault : SlhWallet.SlhVault := .fromPublicKey .SHA2_128S ⟨Block.zero 16, Block.zero 16⟩

/-- Spends with these signatures are of the size they have with zeros. -/
theorem built_as_sized_ones :
    (∃ signed s, LmsWallet.assembleSpend LmsWallet.testKaspa (LmsWallet.spendOf 1 1 900000000) ⟨0, 0, 0, 0, 0, 0, 0, 0⟩
        (Block.zero 32) (.signed onesRecord) = .ok signed ∧
      LmsWallet.shape LmsWallet.testKaspa () (LmsWallet.spendOf 1 1 900000000).vault (LmsWallet.spendOf 1 1 900000000).utxo 1
        (LmsWallet.spendOf 1 1 900000000).outputs 60 = .ok s ∧
      s.Sizes (LmsWallet.buildTx LmsWallet.testKaspa signed (LmsWallet.spendOf 1 1 900000000).utxo 1
        (LmsWallet.spendOf 1 1 900000000).outputs 60)) ∧
    ∃ scripts s, SlhWallet.signedScripts LmsWallet.testKaspa onesVault (List.replicate Params.SHA2_128S.sigLen 1) = .ok scripts ∧
      SlhWallet.shape LmsWallet.testKaspa () onesVault ⟨Block.zero 32, 0, 1000000000⟩ 1 [] 200 = .ok s ∧
      s.Sizes (SlhWallet.buildTx LmsWallet.testKaspa scripts.1 scripts.2 ⟨Block.zero 32, 0, 1000000000⟩ 1 [] 200) := by
  obtain ⟨hlms, -, hslh, -⟩ := built_as_sized LmsWallet.testKaspa pushesPlainly_testKaspa
    appendsRedeemScript_testKaspa
  constructor
  · have hleaf : (0 : UInt32) < (LmsWallet.spendOf 1 1 900000000).vault.leafCount := by decide
    obtain ⟨hiff, hsizes⟩ := hlms (LmsWallet.spendOf 1 1 900000000) ⟨0, 0, 0, 0, 0, 0, 0, 0⟩ (Block.zero 32)
      (.signed onesRecord) 60 hleaf List.length_replicate
    obtain ⟨redeemScript, hredeem⟩ := (LmsWallet.spendOf 1 1 900000000).vault.redeemScript_eq_ok LmsWallet.testKaspa hleaf
    obtain ⟨signed, hsigned⟩ : ∃ signed, LmsWallet.assembleSpend LmsWallet.testKaspa (LmsWallet.spendOf 1 1 900000000)
        ⟨0, 0, 0, 0, 0, 0, 0, 0⟩ (Block.zero 32) (.signed onesRecord) = .ok signed :=
      ⟨_, bind_eq_ok.mpr ⟨_, hredeem, bind_eq_ok.mpr ⟨_, LmsWallet.witnessPushes_eq_items List.length_replicate, rfl⟩⟩⟩
    obtain ⟨s, hs⟩ := hiff.mp ⟨signed, hsigned⟩
    exact ⟨signed, s, hsigned, hs, hsizes signed s hsigned hs⟩
  · obtain ⟨hiff, hsizes⟩ := hslh () onesVault ⟨Block.zero 32, 0, 1000000000⟩ 1 [] 200
      (List.replicate Params.SHA2_128S.sigLen 1) (by decide) List.length_replicate
    obtain ⟨redeemScript, hredeem⟩ := SlhWallet.SlhVault.redeemScript_eq_ok LmsWallet.testKaspa (p := .SHA2_128S) (by decide)
      ⟨Block.zero 16, Block.zero 16⟩
    obtain ⟨scripts, hscripts⟩ : ∃ scripts, SlhWallet.signedScripts LmsWallet.testKaspa onesVault
        (List.replicate Params.SHA2_128S.sigLen 1) = .ok scripts :=
      ⟨_, bind_eq_ok.mpr ⟨_, hredeem, bind_eq_ok.mpr ⟨_, witnessOf_eq List.length_replicate, rfl⟩⟩⟩
    obtain ⟨s, hs⟩ := hiff.mp ⟨scripts, hscripts⟩
    exact ⟨scripts, s, hscripts, hs, hsizes scripts s hscripts hs⟩

end KaspaPqv.VaultCli
