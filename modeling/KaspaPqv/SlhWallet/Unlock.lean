import KaspaPqv.SlhScript.Redeem
import KaspaPqv.SlhWallet.Command
import KaspaPqv.VaultCore.Unlock

/-!
# What the stateless wallet broadcasts

Key, script, digest, signature and witness are made in different places, and come together in the
engine only. Here they are followed all the way: a spend that is returned was signed by the key
whose script the coin is locked by, over the digest that this script rebuilds in the transaction
that is broadcast.

## What is proved

* `buildSpend_unlocks` — what `buildSpend` returns unlocks its coin.
-/

namespace KaspaPqv.SlhWallet

open KaspaPqv.Lib KaspaPqv.Script KaspaPqv.VaultCore KaspaPqv.SlhScript
open LmsWallet (ScriptEngine)

variable {NodeParams : Type} {kaspa : Kaspa NodeParams} {sha256 : Bytes → Block 32} {engine : ScriptEngine}
  {params : NodeParams} {p : Params} {keypair : Keypair} {utxo : VaultUtxo} {txVersion : UInt16}
  {outputs : List OutputView} {spend : SignedSpend}

/-- **The redeem script of a vault takes its key's signatures**: of the blobs of one it leaves true, in any
transaction that has the digest signed. -/
theorem execute_redeem_signature (hp : p ∈ Params.ALL) {seeds : SecretSeeds} {key : SigningKey}
    (hkey : key.Sound sha256 p seeds) (n : ℕ) (hpos : 0 < n) (hn : n ≤ maxOutputCount) (digest : Block 32) :
    ∃ v witness items, buildVaultScript key.publicKey (.forParams p) n = .ok v ∧
      witnessOf (.forParams p) (key.signature sha256 digest.bytes).toBytes = .ok witness ∧
      (∀ env, execute env witness [] = some items) ∧
      ∀ c, rebuiltDigest ⟨sha256, some c⟩ n = some digest →
        execute ⟨sha256, some c⟩ v.script items = some [boolBytes true] := by
  have hfacts : key.p.Facts := hkey.p_eq ▸ Params.facts p hp
  have hemit := emittable p hp
  obtain ⟨g, is, hgen, -⟩ := exists_body (.forParams p) key.publicKey hemit
  obtain ⟨hlen, hparse⟩ := fromBytes_signature sha256 hfacts digest.bytes
  rw [hkey.p_eq] at hlen hparse
  have hverify := verify_signature sha256 (Params.facts p hp) hkey digest.bytes
  set sig := (key.signature sha256 digest.bytes).toBytes with hsig
  obtain ⟨witness, hwitness, -⟩ := execute_witnessPushes (.forParams p) ⟨sha256, none⟩ hlen
  refine ⟨_, witness, ((piecesOf (.forParams p) sig).map Prod.snd).reverse, buildVaultScript_redeem hgen hpos hn, hwitness,
    fun env => ?_, fun c hdigest => ?_⟩
  · obtain ⟨witness', hwitness', hitems⟩ := execute_witnessPushes (.forParams p) env hlen
    obtain rfl := Except.ok.inj (hwitness.symm.trans hwitness')
    rw [hitems, List.append_nil]
  · obtain ⟨s, hs, hexec⟩ := execute_redeem_piecesOf hemit hgen hpos hn hlen ⟨sha256, some c⟩
    obtain rfl := Except.ok.inj (Option.some.inj (hparse.symm.trans hs))
    rw [hexec, hdigest, Option.bind_some, hverify, Option.map_some]

/-- **What is returned unlocks its coin**: whatever engine and library the node has, a spend that is built
for a vault with a key of the vault has an input that carries the redeem script and a witness, and
in the transaction the redeem script leaves true of the witness. -/
theorem buildSpend_unlocks (hp : p ∈ Params.ALL) {seeds : SecretSeeds} (hkey : keypair.secret.Sound sha256 p seeds)
    (hpublic : keypair.publicKey = keypair.secret.publicKey)
    (h : buildSpend kaspa sha256 engine params (.fromPublicKey p keypair.publicKey) keypair utxo txVersion outputs =
      .ok spend) :
    ∃ v items, buildVaultScript keypair.publicKey (.forParams p) canonicalOutputCount = .ok v ∧
      Carries kaspa v.script items spend.tx spend.utxo ∧ ∀ c, Sees c spend.tx → Unlocks sha256 v.script items c := by
  obtain ⟨digest, signature, secret, hcheck, hsign, hassemble⟩ := buildSpend_eq_ok.mp h
  obtain ⟨hcount, -, -, -, -, hdigest⟩ := checkSpend_eq_ok.mp hcheck
  obtain ⟨-, -, ⟨scripts, hscripts, hbuilt⟩, -⟩ := assembleSpend_eq_ok hassemble
  obtain ⟨key', hsign', -⟩ := sign_sound sha256 (Params.facts p hp) hkey digest.bytes
  obtain rfl := congrArg Prod.fst (Option.some.inj (hsign.symm.trans hsign'))
  obtain ⟨v, witness, items, hv, hwitness, hitems, hexec⟩ := execute_redeem_signature hp hkey canonicalOutputCount
    (by decide) (by decide) digest
  rw [← hpublic] at hv
  obtain ⟨redeemScript, hredeem, hrest⟩ := bind_eq_ok.mp hscripts
  obtain ⟨witness', hwitness', hrest⟩ := bind_eq_ok.mp hrest
  obtain ⟨signatureScript, hscript, hpure⟩ := bind_eq_ok.mp hrest
  obtain ⟨v', hv', hbuild⟩ := bind_eq_ok.mp hredeem
  obtain rfl := Except.ok.inj (hv.symm.trans (mapError_eq_ok.mp hv'))
  obtain rfl := Except.ok.inj hbuild
  obtain rfl := Except.ok.inj (hwitness.symm.trans hwitness')
  obtain rfl := Except.ok.inj hpure
  obtain ⟨htx, hcoin⟩ := Prod.mk.inj hbuilt
  refine ⟨v, items, hv, ⟨by rw [hcoin], ?_⟩, fun c hsees => ?_⟩
  · exact ⟨⟨utxo.txid, utxo.index⟩, signatureScript, spend.declaredBudgetUnits, witness, by rw [htx],
      mapError_eq_ok.mp hscript, hitems⟩
  have hversion : spend.tx.version = txVersion := by rw [htx]
  have hinputs : spend.tx.inputs.map TransactionInput.previousOutpoint = [⟨utxo.txid, utxo.index⟩] := by
    rw [htx]
    rfl
  have houtputs : spend.tx.outputs = toOutputs outputs := by rw [htx]
  rw [← hversion] at hdigest
  have hrebuilt := hsees.rebuiltDigest_eq hinputs houtputs hdigest
  rw [hcount] at hrebuilt
  exact ⟨_, hexec c hrebuilt, isTrue_boolBytes true⟩

end KaspaPqv.SlhWallet
