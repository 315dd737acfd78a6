import KaspaPqv.LmsScript.Pinned
import KaspaPqv.SlhWallet.Command

/-!
# No two vaults share an address

From key material to an address there are four steps: a seed is hashed of a string that names the
vault, three secrets are hashed of strings that name the parameter set, the public key is pinned
into the redeem script, and the script is hashed. The strings are told apart by what they name,
and the scripts by what they pin, so that two vaults with one address are a collision of one of
the hashes, among strings that were hashed for these two vaults.

Under a bare key the first step does not name the scheme. The scheme is named by the script.

## What is proved

* `Derived.hashed_once` — every string that is hashed on the way to a key has one use.
* `redeemScript_ne_emitVaultScript` — the two families of scripts have no script in common.
* `addresses_apart` — two vaults of one key material with one address.
-/

namespace KaspaPqv.SlhWallet

open KaspaPqv.Lib KaspaPqv.Script KaspaPqv.VaultCore KaspaPqv.SlhScript
open LmsWallet (AddressLib)

/-! ### The strings that are hashed -/

/-- The secrets a key is generated from. -/
inductive Secret where
  | skSeed
  | skPrf
  | pkSeed
  deriving DecidableEq

def Secret.ALL : List Secret := [skSeed, skPrf, pkSeed]

theorem Secret.mem_ALL (s : Secret) : s ∈ ALL := by cases s <;> decide

def Secret.label : Secret → String
  | skSeed => "sk.seed"
  | skPrf => "sk.prf"
  | pkSeed => "pk.seed"

/-- What stands before the seed. -/
def secretHead (p : Params) (s : Secret) : Bytes := ascii (keyDomain p) ++ ascii s.label

/-- What a secret is the hash of. -/
def secretInput (p : Params) (s : Secret) (xi : Block 32) : Bytes := secretHead p s ++ xi.bytes

/-- All that is hashed on the way to a key. -/
inductive DerivationInput where
  /-- For a seed, of a key at the end of a path. -/
  | path (key : Block 32)
  /-- For a seed, of a bare key. -/
  | bare (account keyIndex : UInt32) (key : Block 32)
  | secret (p : Params) (s : Secret) (xi : Block 32)

namespace DerivationInput

/-- The string. -/
def bytes : DerivationInput → Bytes
  | path key => XI_DOMAIN ++ key.bytes
  | bare account keyIndex key => XI_DOMAIN_RAW ++ leBytes 4 account.toNat ++ leBytes 4 keyIndex.toNat ++ key.bytes
  | secret p s xi => secretInput p s xi

/-- The set is a supported one. -/
def Supported : DerivationInput → Prop
  | secret p _ _ => p ∈ Params.ALL
  | _ => True

end DerivationInput

/-- The heads are told apart by their lengths, all but those of the two seeds of a set. -/
theorem secretHead_inj {p p' : Params} (hp : p ∈ Params.ALL) (hp' : p' ∈ Params.ALL) {s s' : Secret}
    (h : secretHead p s = secretHead p' s') : p = p' ∧ s = s' := by
  have hlengths : ∀ p ∈ Params.ALL, ∀ s ∈ Secret.ALL, ∀ p' ∈ Params.ALL, ∀ s' ∈ Secret.ALL,
      (secretHead p s).length = (secretHead p' s').length → p = p' ∧ (s = .skPrf ↔ s' = .skPrf) := by decide
  obtain ⟨rfl, hprf⟩ := hlengths p hp s s.mem_ALL p' hp' s' s'.mem_ALL (congrArg List.length h)
  refine ⟨rfl, ?_⟩
  have hlabel : ascii s.label = ascii s'.label := List.append_cancel_left h
  have hseeds : ascii Secret.skSeed.label ≠ ascii Secret.pkSeed.label := by decide
  cases s with
  | skPrf => exact (hprf.mp rfl).symm
  | skSeed =>
    cases s' with
    | skSeed => rfl
    | skPrf => exact absurd (hprf.mpr rfl) (by decide)
    | pkSeed => exact absurd hlabel hseeds
  | pkSeed =>
    cases s' with
    | skSeed => exact absurd hlabel.symm hseeds
    | skPrf => exact absurd (hprf.mpr rfl) (by decide)
    | pkSeed => rfl

/-- The heads are neither too short nor too long for another use. -/
theorem length_secretHead {p : Params} (hp : p ∈ Params.ALL) (s : Secret) :
    35 ≤ (secretHead p s).length :=
  (by decide : ∀ p ∈ Params.ALL, ∀ s ∈ Secret.ALL, 35 ≤ (secretHead p s).length) p hp s s.mem_ALL

theorem secretInput_eq {p p' : Params} (hp : p ∈ Params.ALL) (hp' : p' ∈ Params.ALL) {s s' : Secret}
    {xi xi' : Block 32} (h : secretInput p s xi = secretInput p' s' xi') : p = p' ∧ s = s' ∧ xi = xi' := by
  obtain ⟨hhead, hxi⟩ := List.append_inj' h (by simp)
  obtain ⟨hset, hsecret⟩ := secretHead_inj hp hp' hhead
  exact ⟨hset, hsecret, Block.ext hxi⟩

/-- Such a string tells what it is hashed for. -/
theorem DerivationInput.bytes_eq_iff {d d' : DerivationInput} (hd : d.Supported) (hd' : d'.Supported) :
    d.bytes = d'.bytes ↔ d = d' := by
  refine ⟨fun h => ?_, fun h => by rw [h]⟩
  have hpath (key : Block 32) : (path key).bytes.length = 43 := by
    rw [bytes, List.length_append, Block.length_bytes, show XI_DOMAIN.length = 11 by decide]
  have hbare (account keyIndex : UInt32) (key : Block 32) : (bare account keyIndex key).bytes.length = 58 := by
    simp only [bytes, List.length_append, length_leBytes, Block.length_bytes, show XI_DOMAIN_RAW.length = 18 by decide]
  have hsecret {p : Params} (hp : p ∈ Params.ALL) (s : Secret) (xi : Block 32) :
      67 ≤ (secret p s xi).bytes.length := by
    have hhead := length_secretHead hp s
    rw [bytes, secretInput, List.length_append, Block.length_bytes]
    omega
  have hlength := congrArg List.length h
  cases d with
  | path key =>
    cases d' with
    | path key' => rw [Block.ext (List.append_cancel_left h)]
    | bare account keyIndex key' => simp [hpath, hbare] at hlength
    | secret p s xi =>
      have hlong := hsecret hd' s xi
      rw [hpath] at hlength
      omega
  | bare account keyIndex key =>
    cases d' with
    | path key' => simp [hpath, hbare] at hlength
    | bare account' keyIndex' key' =>
      obtain ⟨hfields, hkey⟩ := List.append_inj' h (by simp)
      obtain ⟨haccount, hindex⟩ := List.append_inj' hfields (by simp)
      rw [UInt32.toNat_inj.mp (leBytes_inj account.toNat_lt account'.toNat_lt (List.append_cancel_left haccount)),
        UInt32.toNat_inj.mp (leBytes_inj keyIndex.toNat_lt keyIndex'.toNat_lt hindex), Block.ext hkey]
    | secret p s xi =>
      have hlong := hsecret hd' s xi
      rw [hbare] at hlength
      omega
  | secret p s xi =>
    cases d' with
    | path key =>
      have hlong := hsecret hd s xi
      rw [hpath] at hlength
      omega
    | bare account keyIndex key =>
      have hlong := hsecret hd s xi
      rw [hbare] at hlength
      omega
    | secret p' s' xi' =>
      obtain ⟨rfl, rfl, rfl⟩ := secretInput_eq hd hd' h
      rfl

/-! ### What the code hashes -/

/-- One of the three secrets. -/
def Secret.of (seeds : SecretSeeds) : Secret → Hash
  | skSeed => seeds.skSeed
  | skPrf => seeds.skPrf
  | pkSeed => seeds.pkSeed

/-- A value that is derived on the way to a key. -/
inductive Derived (Node : Type) where
  /-- The seed of a vault. -/
  | xi (d : Derivation) (account keyIndex : UInt32) (material : KeyMaterial Node)
  /-- A secret that a seed gives under a parameter set. -/
  | secret (p : Params) (s : Secret) (xi : Block 32)

namespace Derived

section

variable {Node ChildNumber : Type} (B : Bip32 Node ChildNumber) (sha256 : Bytes → Block 32)

/-- The value, as it is derived. -/
def value : Derived Node → Except String Bytes
  | xi d account keyIndex material => (d.xiFrom B account keyIndex sha256 material).map Block.bytes
  | secret p s seed => .ok (s.of (seedsFromXi sha256 p seed)).bytes

/-- Its length. -/
def length : Derived Node → ℕ
  | xi .. => 32
  | secret .. => N

/-- The set is a supported one. -/
def Supported : Derived Node → Prop
  | xi .. => True
  | secret p _ _ => p ∈ Params.ALL

/-- What is hashed for it. -/
inductive HashedFor : Derived Node → DerivationInput → Prop
  | bip39Seed {d : Derivation} {account keyIndex : UInt32} {seed : Bytes} {root key : Node}
      (hroot : B.newNode seed = .ok root) (hkey : B.derivePath root (d.levels account keyIndex) = .ok key) :
      HashedFor (.xi d account keyIndex (.bip39Seed seed)) (.path (B.privateKey key))
  | extended {d : Derivation} {account keyIndex : UInt32} {xprv key : Node}
      (hkey : B.derivePath xprv (d.levels account keyIndex) = .ok key) :
      HashedFor (.xi d account keyIndex (.extended xprv)) (.path (B.privateKey key))
  | raw (d : Derivation) (account keyIndex : UInt32) (key : Block 32) :
      HashedFor (.xi d account keyIndex (.raw key)) (.bare account keyIndex key)
  | secret (p : Params) (s : Secret) (xi : Block 32) : HashedFor (.secret p s xi) (.secret p s xi)

end

variable {Node ChildNumber : Type} {B : Bip32 Node ChildNumber} {sha256 : Bytes → Block 32}

/-- A seed is the hash of one of these strings. -/
theorem xiInput_hashedFor {d : Derivation} {account keyIndex : UInt32} {material : KeyMaterial Node} {bytes : Bytes}
    (h : d.xiInput B account keyIndex material = .ok bytes) :
    ∃ x, HashedFor B (.xi d account keyIndex material) x ∧ x.bytes = bytes := by
  have hnode {node : Node} (h : d.xiInputOfNode B account keyIndex node = .ok bytes) :
      ∃ key, B.derivePath node (d.levels account keyIndex) = .ok key ∧
        (DerivationInput.path (B.privateKey key)).bytes = bytes := by
    obtain ⟨key, hkey, hbytes⟩ := bind_eq_ok.mp h
    exact ⟨key, hkey, Except.ok.inj hbytes⟩
  cases material with
  | bip39Seed seed =>
    obtain ⟨root, hroot, h⟩ := xiInputOfSeed_eq_ok.mp h
    obtain ⟨key, hkey, hbytes⟩ := hnode h
    exact ⟨_, .bip39Seed hroot hkey, hbytes⟩
  | extended xprv =>
    obtain ⟨key, hkey, hbytes⟩ := hnode h
    exact ⟨_, .extended hkey, hbytes⟩
  | raw key => exact ⟨_, .raw d account keyIndex key, Except.ok.inj h⟩

/-- The secrets are cut from the hashes of these strings. -/
theorem of_seedsFromXi (sha256 : Bytes → Block 32) (p : Params) (s : Secret) (xi : Block 32) :
    s.of (seedsFromXi sha256 p xi) = truncN (sha256 (DerivationInput.secret p s xi).bytes) := by
  cases s <;> rfl

/-- What is derived is the hash of what is hashed for it. -/
theorem value_eq_ok {u : Derived Node} {v : Bytes} (h : u.value B sha256 = .ok v) :
    ∃ x, u.HashedFor B x ∧ v = (sha256 x.bytes).bytes.take u.length := by
  cases u with
  | xi d account keyIndex material =>
    obtain ⟨xi, hxi, rfl⟩ := map_eq_ok.mp h
    obtain ⟨bytes, hbytes, rfl⟩ := map_eq_ok.mp hxi
    obtain ⟨x, hx, rfl⟩ := xiInput_hashedFor hbytes
    refine ⟨x, hx, (List.take_of_length_le ?_).symm⟩
    rw [Block.length_bytes, length]
  | secret p s xi =>
    refine ⟨_, .secret p s xi, ?_⟩
    rw [← Except.ok.inj h, of_seedsFromXi]
    rfl

theorem HashedFor.supported {u : Derived Node} {x : DerivationInput} (h : u.HashedFor B x) (hu : u.Supported) :
    x.Supported := by
  cases h with
  | secret p s xi => exact hu
  | bip39Seed | extended | raw => trivial

/-- **Every string that is hashed on the way to a key has one use.** Any two values that are derived are cut from the
hashes of two strings, which are one string only if they are hashed for the same: the private key at the end of
a path, a bare key with an account and an index, or a secret of a set and a seed. -/
theorem hashed_once {u u' : Derived Node} (hu : u.Supported) (hu' : u'.Supported) {v v' : Bytes}
    (h : u.value B sha256 = .ok v) (h' : u'.value B sha256 = .ok v') :
    ∃ x x', u.HashedFor B x ∧ u'.HashedFor B x' ∧ v = (sha256 x.bytes).bytes.take u.length ∧
      v' = (sha256 x'.bytes).bytes.take u'.length ∧ (x.bytes = x'.bytes ↔ x = x') := by
  obtain ⟨x, hx, hv⟩ := value_eq_ok h
  obtain ⟨x', hx', hv'⟩ := value_eq_ok h'
  exact ⟨x, x', hx, hx', hv, hv', DerivationInput.bytes_eq_iff (hx.supported hu) (hx'.supported hu')⟩

/-- The seed of a vault below an extended key, and the public seed that it gives. -/
theorem hashed_once_seeds : ∃ (key : List UInt32) (xi : Block 32),
    pathTree.derivePath [] (Derivation.DEFAULT.levels 0 3) = .ok key ∧
    Derivation.DEFAULT.xiFrom pathTree 0 3 LmsWallet.testHash (.extended []) = .ok xi ∧
    (DerivationInput.path (pathTree.privateKey key)).bytes ≠ (DerivationInput.secret .SHA2_128S .pkSeed xi).bytes := by
  obtain ⟨xi, hxi⟩ : ∃ xi, Derivation.DEFAULT.xiFrom pathTree 0 3 LmsWallet.testHash (.extended []) = .ok xi :=
    ⟨_, map_eq_ok.mpr ⟨_, rfl, rfl⟩⟩
  have hset : (Derived.secret .SHA2_128S .pkSeed xi : Derived (List UInt32)).Supported :=
    (by decide : Params.SHA2_128S ∈ Params.ALL)
  have hvalue : (Derived.xi .DEFAULT 0 3 (.extended [])).value pathTree LmsWallet.testHash = .ok xi.bytes :=
    map_eq_ok.mpr ⟨xi, hxi, rfl⟩
  have hany : (Derived.xi .DEFAULT 0 3 (.extended []) : Derived (List UInt32)).Supported := trivial
  have hsecret : (Derived.secret .SHA2_128S .pkSeed xi).value pathTree LmsWallet.testHash =
      .ok (seedsFromXi LmsWallet.testHash .SHA2_128S xi).pkSeed.bytes := rfl
  obtain ⟨x, x', hx, hx', -, -, hsame⟩ := hashed_once hany hset hvalue hsecret
  cases hx with
  | extended hkey =>
    cases hx' with
    | secret => exact ⟨_, xi, hkey, hxi, fun h => nomatch hsame.mp h⟩

end Derived

/-! ### The vaults -/

variable {Node ChildNumber NodeParams Prefix Address : Type} {B : Bip32 Node ChildNumber} {kaspa : Kaspa NodeParams}
  {lib : AddressLib Prefix Address} {sha256 : Bytes → Block 32} {material : KeyMaterial Node}

theorem paramsFor_inj {scheme scheme' : Scheme} {p : Params} (h : paramsFor scheme = some p)
    (h' : paramsFor scheme' = some p) : scheme = scheme' := by
  cases scheme <;> cases scheme' <;> cases h <;> first | rfl | exact absurd h' (by decide)

variable (B) (material) in
/-- The string that the seed of a vault is the hash of. -/
def xiInputOf (scheme : Scheme) (keyIndex : UInt32) : Except String Bytes :=
  Derivation.xiInput B { Derivation.DEFAULT with scheme := scheme } 0 keyIndex material

/-- **A vault that is opened** is that of a public key, whose seed is the hash of its string, in which stands the hash
of the string of the seed. -/
theorem openVaultWithKey_key {keyIndex : UInt32} {network : String} {scheme : Scheme} {vault : SlhVault}
    {keypair : Keypair} (h : openVaultWithKey B sha256 ⟨material, keyIndex, network⟩ scheme = .ok (vault, keypair)) :
    ∃ p x, paramsFor scheme = some p ∧ xiInputOf B material scheme keyIndex = .ok x ∧
      vault = .fromPublicKey p keypair.publicKey ∧
      keypair.publicKey.seed = truncN (sha256 (secretInput p .pkSeed (sha256 x))) := by
  obtain ⟨p, hset, h⟩ := Outcome.ofOption_bind_eq_ok.mp h
  obtain ⟨xi, hxi, hvault⟩ := Outcome.ofExcept_bind_eq_ok.mp h
  obtain ⟨x, hx, rfl⟩ := map_eq_ok.mp (mapError_eq_ok.mp hxi)
  obtain ⟨keypair', hkeypair, hpublic, hsound⟩ := SlhVault.fromXi_eq_ok sha256 (paramsFor_mem hset) (sha256 x)
  rw [hkeypair] at hvault
  cases hvault
  refine ⟨p, x, hset, hx, rfl, ?_⟩
  rw [hpublic, hsound.publicKey_eq]
  rfl

/-- The redeem script of a vault is built of its code. -/
theorem redeemScript_code {p : Params} {publicKey : PublicKey} {script : Bytes}
    (h : (SlhVault.fromPublicKey p publicKey).redeemScript kaspa = .ok script) :
    ∃ v, buildVaultScript publicKey (.forParams p) canonicalOutputCount = .ok v ∧ kaspa.build v.script = script := by
  obtain ⟨v, hv, hbuild⟩ := bind_eq_ok.mp h
  exact ⟨v, mapError_eq_ok.mp hv, Except.ok.inj hbuild⟩

/-- **One script, one vault.** -/
theorem redeemScript_inj (hbuild : Function.Injective kaspa.build) {p p' : Params} (hp : p ∈ Params.ALL)
    (hp' : p' ∈ Params.ALL) {publicKey publicKey' : PublicKey} {script : Bytes}
    (h : (SlhVault.fromPublicKey p publicKey).redeemScript kaspa = .ok script)
    (h' : (SlhVault.fromPublicKey p' publicKey').redeemScript kaspa = .ok script) : p = p' ∧ publicKey = publicKey' := by
  obtain ⟨v, hv, hscript⟩ := redeemScript_code h
  obtain ⟨v', hv', hscript'⟩ := redeemScript_code h'
  have helems : 0 < BLOB_ELEMS := by norm_num [BLOB_ELEMS]
  have hpos : 0 < canonicalOutputCount := Nat.two_pos
  have hmax : canonicalOutputCount ≤ maxOutputCount := by decide
  obtain ⟨w, w', hw, hw', hinj⟩ :=
    buildVaultScript_inj hp hp' publicKey publicKey' helems helems hpos hpos hmax hmax
  obtain rfl := Except.ok.inj (hv.symm.trans hw)
  obtain rfl := Except.ok.inj (hv'.symm.trans hw')
  obtain ⟨hset, hkey, -, -⟩ := hinj (hbuild (hscript.trans hscript'.symm))
  exact ⟨hset, hkey⟩

/-- **The two families of scripts have none in common**: one moves its witness away first. -/
theorem redeemScript_ne_emitVaultScript {p : Params} (hp : p ∈ Params.ALL) {publicKey : PublicKey} {v : VaultScript}
    (hv : buildVaultScript publicKey (.forParams p) canonicalOutputCount = .ok v) {P : LmsScript.LmsParams}
    {key : LmsScript.LmsPublicKey} {q n : ℕ} {is : List Instr}
    (hcode : (LmsScript.emitVaultScript P key q n : Gen Unit Instr String Unit).code () = .ok is) : v.script ≠ is := by
  obtain ⟨g, body, hgen, -⟩ := exists_body (.forParams p) publicKey (emittable p hp)
  obtain rfl := Except.ok.inj (hv.symm.trans (buildVaultScript_eq hgen (by decide) (by decide)))
  obtain ⟨verify, -, -, rfl⟩ := LmsScript.emitVaultScript_split hcode
  have hblobs : (BlobPlan.forParams p).blobCount ≠ 0 := by
    intro hzero
    have hsum := (BlobPlan.forParams p).sum_blobs
    rw [List.eq_nil_of_length_eq_zero hzero] at hsum
    exact absurd hsum.symm ((by decide : ∀ p ∈ Params.ALL, p.sigElements ≠ 0) p hp)
  obtain ⟨k, hk⟩ := Nat.exists_eq_succ_of_ne_zero hblobs
  intro hsame
  rw [hk, prologueCode, List.replicate_succ] at hsame
  simp [bindingCode, headerCode] at hsame

/-- Vaults of one scheme are named by their strings. -/
theorem xiInputOf_ne (hB : B.PathsApart) {scheme : Scheme} {i i' : UInt32} (hne : i ≠ i') {x x' : Bytes}
    (h : xiInputOf B material scheme i = .ok x) (h' : xiInputOf B material scheme i' = .ok x') : x ≠ x' := by
  have hpath : (⟨scheme, 0, i⟩ : VaultPath) ≠ ⟨scheme, 0, i'⟩ := fun hsame => hne (congrArg VaultPath.keyIndex hsame)
  cases material with
  | bip39Seed seed =>
    obtain ⟨root, hroot, hnode⟩ := xiInputOfSeed_eq_ok.mp h
    obtain ⟨root', hroot', hnode'⟩ := xiInputOfSeed_eq_ok.mp h'
    obtain rfl := Except.ok.inj (hroot.symm.trans hroot')
    exact xiInputOfNode_apart hB hpath hnode hnode'
  | extended xprv => exact xiInputOfNode_apart hB hpath h h'
  | raw key =>
    rintro rfl
    obtain rfl := Except.ok.inj h
    exact hne (rawInput_inj (Except.ok.inj h')).2.symm

/-- An address is paid to by the hash of a script. -/
theorem address_eq_ok {vault : SlhVault} (hlib : lib.Lawful kaspa) {addressPrefix : Prefix} {a : Address}
    (h : vault.address kaspa lib addressPrefix = .ok a) :
    ∃ script, vault.redeemScript kaspa = .ok script ∧
      lib.payToAddressScript a = kaspa.payToScriptHashScript script := by
  obtain ⟨script, hscript, h⟩ := bind_eq_ok.mp h
  exact ⟨script, hscript, hlib.pay_of_extract _ _ _ (mapError_eq_ok.mp h)⟩

variable (kaspa) in
/-- Two redeem scripts that are not the same have one hash. -/
def ScriptsCollide (script script' : Bytes) : Prop :=
  script ≠ script' ∧ kaspa.payToScriptHashScript script = kaspa.payToScriptHashScript script'

variable (sha256) in
/-- The strings of two seeds, or those of the public seeds that they give under one set, are not the same and have one
hash. -/
def SeedsCollide (p : Params) (x x' : Bytes) : Prop :=
  x ≠ x' ∧ (sha256 x = sha256 x' ∨
    secretInput p .pkSeed (sha256 x) ≠ secretInput p .pkSeed (sha256 x') ∧
      truncN (sha256 (secretInput p .pkSeed (sha256 x))) = truncN (sha256 (secretInput p .pkSeed (sha256 x'))))

/-- **Two vaults with one address are a collision**: under any key material, two schemes or two key indices whose
vaults have one address, on any networks, have two redeem scripts of one hash, or two strings of one hash from
which their public seeds were made; and a leaf of the other kind of vault that has the address of one has another
redeem script of the same hash. -/
theorem addresses_apart (hB : B.PathsApart) (hlib : lib.Lawful kaspa) (hbuild : Function.Injective kaspa.build)
    {scheme : Scheme} {keyIndex : UInt32} {network : String} {vault : SlhVault} {keypair : Keypair}
    (h : openVaultWithKey B sha256 ⟨material, keyIndex, network⟩ scheme = .ok (vault, keypair)) {addressPrefix : Prefix}
    {a : Address} (ha : vault.address kaspa lib addressPrefix = .ok a) :
    (∀ scheme' keyIndex' network' vault' keypair' addressPrefix', scheme ≠ scheme' ∨ keyIndex ≠ keyIndex' →
      openVaultWithKey B sha256 ⟨material, keyIndex', network'⟩ scheme' = .ok (vault', keypair') →
      vault'.address kaspa lib addressPrefix' = .ok a →
      (∃ script script', vault.redeemScript kaspa = .ok script ∧ vault'.redeemScript kaspa = .ok script' ∧
        ScriptsCollide kaspa script script') ∨
      ∃ p x x', paramsFor scheme = some p ∧ xiInputOf B material scheme keyIndex = .ok x ∧
        xiInputOf B material scheme' keyIndex' = .ok x' ∧ SeedsCollide sha256 p x x') ∧
    ∀ (lmsVault : LmsWallet.Vault) addressPrefix' leaf, lmsVault.address kaspa lib addressPrefix' leaf = .ok a →
      ∃ script script', vault.redeemScript kaspa = .ok script ∧ lmsVault.redeemScript kaspa leaf = .ok script' ∧
        ScriptsCollide kaspa script script' := by
  obtain ⟨p, x, hset, hx, rfl, hseed⟩ := openVaultWithKey_key h
  have hp := paramsFor_mem hset
  obtain ⟨script, hscript, hpay⟩ := address_eq_ok hlib ha
  constructor
  · intro scheme' keyIndex' network' vault' keypair' addressPrefix' hne h' ha'
    obtain ⟨p', x', hset', hx', rfl, hseed'⟩ := openVaultWithKey_key h'
    obtain ⟨script', hscript', hpay'⟩ := address_eq_ok hlib ha'
    by_cases hsame : script = script'
    · subst hsame
      obtain ⟨rfl, hkey⟩ := redeemScript_inj hbuild hp (paramsFor_mem hset') hscript hscript'
      obtain rfl := paramsFor_inj hset hset'
      rcases hne with hne | hne
      · exact absurd rfl hne
      · refine .inr ⟨p, x, x', hset, hx, hx', xiInputOf_ne hB hne hx hx', ?_⟩
        by_cases hxi : sha256 x = sha256 x'
        · exact .inl hxi
        · refine .inr ⟨fun hinput => hxi (secretInput_eq hp hp hinput).2.2, ?_⟩
          rw [← hseed, ← hseed', hkey]
    · exact .inl ⟨script, script', hscript, hscript', hsame, hpay.symm.trans hpay'⟩
  · intro lmsVault addressPrefix' leaf ha'
    obtain ⟨spk, hspk, hextract⟩ := LmsWallet.address_eq_ok.mp ha'
    obtain ⟨script', hscript', rfl⟩ := map_eq_ok.mp hspk
    obtain ⟨-, is, hcode, hbytes⟩ := LmsWallet.redeemScript_cases hscript'
    obtain ⟨v, hv, hbytes'⟩ := redeemScript_code hscript
    refine ⟨script, script', hscript, hscript', fun hsame => ?_, ?_⟩
    · exact redeemScript_ne_emitVaultScript hp hv hcode (hbuild (by rw [hbytes, hbytes', hsame]))
    · rw [← hpay, hlib.pay_of_extract _ _ _ hextract]

/-! ### A library without a hash -/

/-- The vault of a scheme under a bare key, and its address. -/
theorem exists_oneHashVault (sha256 : Bytes → Block 32) {scheme : Scheme} {p : Params} (hset : paramsFor scheme = some p) :
    ∃ vault keypair, openVaultWithKey pathTree sha256 ⟨.raw (Block.zero 32), 0, "tn10"⟩ scheme = .ok (vault, keypair) ∧
      vault.address scriptHashKaspa LmsWallet.testLib () = .ok (scriptHashOutput 0).script := by
  obtain ⟨xi, hxi⟩ : ∃ xi, Derivation.xiFrom pathTree { Derivation.DEFAULT with scheme := scheme } 0 0 sha256
      (.raw (Block.zero 32)) = .ok xi := ⟨_, map_eq_ok.mpr ⟨_, rfl, rfl⟩⟩
  obtain ⟨keypair, hkeypair, -, -⟩ := SlhVault.fromXi_eq_ok sha256 (paramsFor_mem hset) xi
  obtain ⟨script, hscript⟩ := SlhVault.redeemScript_eq_ok scriptHashKaspa (paramsFor_mem hset) keypair.publicKey
  refine ⟨_, keypair, ?_, bind_eq_ok.mpr ⟨script, hscript, rfl⟩⟩
  exact Outcome.ofOption_bind_eq_ok.mpr ⟨p, hset, Outcome.ofExcept_bind_eq_ok.mpr ⟨xi, mapError_eq_ok.mpr hxi, hkeypair⟩⟩

/-- Two schemes under a bare key, which have one seed. -/
theorem addresses_apart_bare : ∃ vault vault' : SlhVault,
    (∃ script script', vault.redeemScript scriptHashKaspa = .ok script ∧ vault'.redeemScript scriptHashKaspa = .ok script' ∧
      ScriptsCollide scriptHashKaspa script script') ∨
    ∃ p x x', paramsFor .slhDsaSha2_128s = some p ∧
      xiInputOf pathTree (.raw (Block.zero 32)) .slhDsaSha2_128s 0 = .ok x ∧
      xiInputOf pathTree (.raw (Block.zero 32)) .slhDsaSha2_128_24 0 = .ok x' ∧ SeedsCollide LmsWallet.testHash p x x' := by
  obtain ⟨vault, keypair, h, ha⟩ := exists_oneHashVault LmsWallet.testHash (rfl : paramsFor .slhDsaSha2_128s = _)
  obtain ⟨vault', keypair', h', ha'⟩ := exists_oneHashVault LmsWallet.testHash (rfl : paramsFor .slhDsaSha2_128_24 = _)
  refine ⟨vault, vault', ?_⟩
  obtain ⟨hother, -⟩ := addresses_apart pathTree_pathsApart LmsWallet.lawful_scriptHashKaspa encodeScript_injective h ha
  exact hother .slhDsaSha2_128_24 0 "tn10" vault' keypair' () (.inl (by decide)) h' ha'

end KaspaPqv.SlhWallet
