import KaspaPqv.LmsWallet.Funds
import KaspaPqv.SlhScript.Pinned
import KaspaPqv.SlhScript.Sign
import KaspaPqv.VaultCore.Derivation

/-!
# Vaults of the stateless scheme

One key, one script, one address: a vault is a public key, its parameter set, and the plan
the signature is cut by. The key is generated from three secrets, each a hash of the seed.

## What is proved

* `keypairFromXi_eq_ok` — every seed has a key pair of every set.
* `fromXi_eq_ok` — and a vault, which has a redeem script.
-/

namespace KaspaPqv.SlhWallet

open KaspaPqv.Lib KaspaPqv.Script KaspaPqv.VaultCore KaspaPqv.SlhScript
open LmsWallet (AddressLib)

/-- The parameter set of a scheme, if it is one of this kind. -/
def paramsFor : Scheme → Option Params
  | .lmsSha256 => none
  | .slhDsaSha2_128s => some .SHA2_128S
  | .slhDsaSha2_128_24 => some .SHA2_128_24
  | .slhDsaSha2_128_24D2 => some .SHA2_128_24_D2

theorem paramsFor_mem {scheme : Scheme} {p : Params} (h : paramsFor scheme = some p) : p ∈ Params.ALL := by
  cases scheme <;> cases h <;> decide

/-! ### Keys -/

/-- The domain separator of a parameter set. -/
def keyDomain (p : Params) : String := s!"KaspaPQV-{p.name}-v1"

/-- A key pair. -/
structure Keypair where
  publicKey : PublicKey
  secret : SigningKey

section

variable (sha256 : Bytes → Block 32)

/-- The three secrets that a key is generated from. -/
def seedsFromXi (p : Params) (xi : Block 32) : SecretSeeds :=
  let field (label : String) : Hash := truncN (sha256 (ascii (keyDomain p) ++ ascii label ++ xi.bytes))
  { skSeed := field "sk.seed", skPrf := field "sk.prf", pkSeed := field "pk.seed" }

/-- The key pair of a seed. -/
def keypairFromXi (p : Params) (xi : Block 32) : Outcome String Keypair := do
  let seeds := seedsFromXi sha256 p xi
  let secret ← .orPanic (SigningKey.generate sha256 p seeds)
  let publicKey := secret.publicKey
  .ofExcept (ensure (publicKey.seed = seeds.pkSeed)
    (s!"keygen did not carry the derived PK.seed; the key material this wallet derives no " ++
      s!"longer matches what {p.name} generates"))
  pure ⟨publicKey, secret⟩

end

/-! ### Vaults -/

/-- Destination and change. -/
def canonicalOutputCount : ℕ := 2

/-- A vault. -/
structure SlhVault where
  p : Params
  publicKey : PublicKey
  plan : BlobPlan

namespace SlhVault

/-- The vault of a seed, and its key. -/
def fromXi (sha256 : Bytes → Block 32) (p : Params) (xi : Block 32) : Outcome String (SlhVault × Keypair) := do
  let keypair ← keypairFromXi sha256 p xi
  pure (⟨p, keypair.publicKey, .forParams p⟩, keypair)

/-- A vault without its key. -/
def fromPublicKey (p : Params) (publicKey : PublicKey) : SlhVault := ⟨p, publicKey, .forParams p⟩

variable {NodeParams Prefix Address : Type} (kaspa : Kaspa NodeParams) (lib : AddressLib Prefix Address)

/-- The redeem script for a number of outputs. -/
def redeemScriptForShape (vault : SlhVault) (outputCount : ℕ) : Except String Bytes := do
  let vaultScript ← (buildVaultScript vault.publicKey vault.plan outputCount).mapError fun e =>
    s!"emitting the vault script: {e}"
  pure (kaspa.build vaultScript.script)

/-- The redeem script. -/
def redeemScript (vault : SlhVault) : Except String Bytes := vault.redeemScriptForShape kaspa canonicalOutputCount

/-- The address. -/
def address (vault : SlhVault) (addressPrefix : Prefix) : Except String Address := do
  let script ← vault.redeemScript kaspa
  let spk := kaspa.payToScriptHashScript script
  (lib.extractScriptPubKeyAddress spk addressPrefix).mapError fun e => s!"address extraction failed: {e}"

end SlhVault

/-! ### What a seed gives -/

variable {sha256 : Bytes → Block 32} {p : Params}

/-- **Every seed has a key pair.** -/
theorem keypairFromXi_eq_ok (sha256 : Bytes → Block 32) (hp : p ∈ Params.ALL) (xi : Block 32) :
    ∃ keypair, keypairFromXi sha256 p xi = .ok keypair ∧ keypair.publicKey = keypair.secret.publicKey ∧
      keypair.secret.Sound sha256 p (seedsFromXi sha256 p xi) := by
  obtain ⟨secret, hgen, hsound⟩ := generate_sound sha256 (Params.facts p hp) (seedsFromXi sha256 p xi)
  refine ⟨⟨secret.publicKey, secret⟩, ?_, rfl, hsound⟩
  have hseed : secret.publicKey.seed = (seedsFromXi sha256 p xi).pkSeed := by rw [hsound.publicKey_eq]
  rw [keypairFromXi, Outcome.orPanic_bind_eq_ok]
  refine ⟨secret, hgen, ?_⟩
  rw [Outcome.ofExcept_bind_eq_ok]
  exact ⟨(), ensure_eq_ok.mpr hseed, rfl⟩

/-- A vault of a supported set and of the deployed plan has a redeem script. -/
theorem SlhVault.redeemScript_eq_ok {NodeParams : Type} (kaspa : Kaspa NodeParams) (hp : p ∈ Params.ALL)
    (publicKey : PublicKey) : ∃ script, (fromPublicKey p publicKey).redeemScript kaspa = .ok script := by
  obtain ⟨g, is, hgen, -⟩ := exists_body (.forParams p) publicKey (emittable p hp)
  have hscript := buildVaultScript_eq hgen (n := canonicalOutputCount) (by decide) (by decide)
  refine ⟨_, bind_eq_ok.mpr ⟨_, mapError_eq_ok.mpr hscript, rfl⟩⟩

/-- **Every seed has a vault**, and its key is the vault's. -/
theorem SlhVault.fromXi_eq_ok (sha256 : Bytes → Block 32) (hp : p ∈ Params.ALL) (xi : Block 32) :
    ∃ keypair, fromXi sha256 p xi = .ok (fromPublicKey p keypair.publicKey, keypair) ∧
      keypair.publicKey = keypair.secret.publicKey ∧ keypair.secret.Sound sha256 p (seedsFromXi sha256 p xi) := by
  obtain ⟨keypair, hkeypair, hpublic, hsound⟩ := keypairFromXi_eq_ok sha256 hp xi
  refine ⟨keypair, ?_, hpublic, hsound⟩
  rw [fromXi, hkeypair]
  rfl

end KaspaPqv.SlhWallet
