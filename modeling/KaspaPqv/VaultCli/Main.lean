import KaspaPqv.VaultCli.Args
import KaspaPqv.VaultCli.Conservation
import KaspaPqv.VaultCli.Env
import KaspaPqv.VaultCli.Holdings
import KaspaPqv.VaultCore.KeyText

/-!
# From a command line to a call

What a command works with is told in three places: on the command line, in variables of the process, and
in the settings file. A flag comes first and the file last. The key must be told exactly once, as a
mnemonic or as a key; the stateless schemes may have variables of their own for it.

`main` reads all three and makes the call of the command. The commands themselves are in other modules, but
for the one that writes a settings file.

## What is proved

* `main_settles` — every call works with the key, the key index, the parameter set and the network that
  were told, and with no other network than this one.
* `initEnv_default` — only the default settings file is ever begun, and it can be loaded.
-/

namespace KaspaPqv.VaultCli.CommandLine

open KaspaPqv.Lib KaspaPqv.VaultCore KaspaPqv.LmsScript
open LmsWallet (Client SpendRequest Vault)

/-! ### What it is settled with -/

def ENV_KEY : List Char := "KASPA_VAULT_KEY".toList

def ENV_MNEMONIC : List Char := "KASPA_VAULT_MNEMONIC".toList

def ENV_MNEMONIC_SLH : List Char := "KASPA_VAULT_MNEMONIC_SLH".toList

def ENV_KEY_SLH : List Char := "KASPA_VAULT_KEY_SLH".toList

def ENV_NETWORK : List Char := "KASPA_VAULT_NETWORK".toList

def ENV_KEY_INDEX : List Char := "KASPA_VAULT_KEY_INDEX".toList

/-- What the command line, the environment and the settings say together. -/
structure Resolved (Node : Type) extends SlhWallet.Resolved Node where
  origin : String

/-- What is used of the libraries besides what the commands use. -/
structure Libraries (Node Prefix : Type) where
  chars : CharTable
  mainnet : Prefix
  testnet : Prefix
  parseXprv : List Char → Except String Node
  /-- The seed of a mnemonic, in hex. -/
  mnemonicSeed : List Char → Except String (List Char)
  /-- The public key of a seed, as the LMS library encodes it. -/
  newInternal : Block 32 → Bytes

section

variable {Node Prefix : Type} (lib : Libraries Node Prefix) (process : List Char → Option (List Char)) (env : EnvFile)

/-- The network of a name. -/
def prefixFor (network : String) : Except String Prefix :=
  match network with
  | "tn10" | "testnet" | "testnet-10" => .ok lib.testnet
  | "mainnet" => .ok lib.mainnet
  | other =>
    let shown := String.ofList (debugText lib.chars other.toList)
    .error s!"unknown network {shown}; use tn10 or mainnet"

/-- The value of a variable. -/
def envGet (name : List Char) : Option String := (env.get process name).map String.ofList

/-- The variables that hold the mnemonic and the key. -/
def keyVars (scheme : Scheme) : List Char × List Char :=
  if scheme ≠ .lmsSha256 ∧
      ((envGet process env ENV_MNEMONIC_SLH).isSome = true ∨ (envGet process env ENV_KEY_SLH).isSome = true) then
    (ENV_MNEMONIC_SLH, ENV_KEY_SLH)
  else (ENV_MNEMONIC, ENV_KEY)

/-- The scheme of the short name of a parameter set. -/
def setScheme (name : String) : Except String Scheme :=
  match name with
  | "128s" => .ok .slhDsaSha2_128s
  | "128-24" => .ok .slhDsaSha2_128_24
  | "128-24d2" => .ok .slhDsaSha2_128_24D2
  | other =>
    let shown := String.ofList (debugText lib.chars other.toList)
    .error (s!"unknown parameter set {shown}. Use 128s (FIPS 205), 128-24 (SP 800-230 ipd) " ++
      "or 128-24d2 (proposed, not standardised).")

def slhScheme (args : Args) : Except String Scheme := setScheme lib (args.set.getD "128s")

/-- The key material of a mnemonic. -/
def fromMnemonic (phrase : String) : Outcome String (KeyMaterial Node) := do
  let hex ← .ofExcept ((lib.mnemonicSeed (trim phrase.toList)).mapError fun e => s!"invalid mnemonic: {e}")
  let seed ← (KeyMaterial.hexDecode hex).mapError fun e => s!"deriving BIP39 seed: {e}"
  pure (.bip39Seed seed)

/-- Where a value comes from that is not on the command line. -/
def variableOrigin (name : List Char) : String :=
  let shown := String.ofList name
  let source := (env.sourceOf process name).getD "environment"
  s!"{shown} ({source})"

/-- The key material, which must be told once. -/
def resolveMaterial (args : Args) (scheme : Scheme) : Outcome String (KeyMaterial Node × String) :=
  let (envMnemonic, envKey) := keyVars process env scheme
  let mnemonicName := String.ofList envMnemonic
  let keyName := String.ofList envKey
  match args.mnemonic.or (envGet process env envMnemonic), args.key.or (envGet process env envKey) with
  | some _, some _ => .error ("both a mnemonic and a key were supplied. Give exactly one, and check " ++
      s!"{mnemonicName} / {keyName} if you did not pass both on the command line.")
  | some words, none => do
    let material ← fromMnemonic lib words
    pure (material, if args.mnemonic.isSome = true then "--mnemonic" else variableOrigin process env envMnemonic)
  | none, some k => do
    let material ← KeyMaterial.parse lib.parseXprv k.toList
    pure (material, if args.key.isSome = true then "--key" else variableOrigin process env envKey)
  | none, none => .error (s!"no key supplied. Pass --mnemonic or --key, or set {mnemonicName} / " ++
      s!"{keyName} in a .env file (run `kaspa-vault init-env` to create one).")

/-- The key index. -/
def resolveKeyIndex (args : Args) : Except String UInt32 :=
  match args.keyIndex with
  | some i => .ok i
  | none =>
    match envGet process env ENV_KEY_INDEX with
    | some v =>
      let shown := String.ofList (debugText lib.chars v.toList)
      ((parseDecimal (2 ^ 32) v.toList).mapError fun e => s!"KASPA_VAULT_KEY_INDEX={shown}: {e}").map UInt32.ofNat
    | none => .ok 0

/-- Merge the three sources. -/
def resolve (args : Args) (scheme : Scheme) : Outcome String (Resolved Node) := do
  let (material, origin) ← resolveMaterial lib process env args scheme
  let keyIndex ← .ofExcept (resolveKeyIndex lib process env args)
  let network := (args.network.or (envGet process env ENV_NETWORK)).getD "tn10"
  pure { material, origin, keyIndex, network }

end

/-! ### The commands -/

/-- The call that a command makes. -/
inductive Call (Node NodeParams Prefix Address : Type) where
  | info
  | artifacts
  | usage
  | unknown (command : String)
  | initEnv (path : String)
  | addresses (vault : Vault) (addressPrefix : Prefix) (count : UInt32)
  | balance (client : Client Address) (vault : Vault) (addressPrefix : Prefix) (count : UInt32)
  | spend (client : Client Address) (req : SpendRequest NodeParams Prefix Address)
  | slhAddress (resolved : Resolved Node) (scheme : Scheme) (addressPrefix : Prefix)
  | slhBalance (resolved : Resolved Node) (scheme : Scheme) (addressPrefix : Prefix)
  | slhSpend (args : Args) (resolved : Resolved Node) (scheme : Scheme) (addressPrefix : Prefix)

section

variable {Node ChildNumber NodeParams Prefix Address : Type} (B : Bip32 Node ChildNumber) (kaspa : Kaspa NodeParams)
  (sha256 : Bytes → Block 32) (cli : SlhWallet.Surroundings NodeParams Prefix Address) (lib : Libraries Node Prefix)
  (process : List Char → Option (List Char)) (env : EnvFile) (args : Args)

/-- The seed of a vault. -/
def xiOf (resolved : Resolved Node) : Except String (Block 32) :=
  Derivation.DEFAULT.xiFrom B 0 resolved.keyIndex sha256 resolved.material

/-- The two parts of an encoded public key that a vault keeps. -/
def parsePublicKey (encoded : Bytes) : Outcome String LmsPublicKey :=
  if h : 56 ≤ encoded.length then
    .ok ⟨.ofBytes (slice encoded 8 24) (by rw [length_slice]; omega),
      .ofBytes (slice encoded 24 56) (by rw [length_slice]; omega)⟩
  else .panic

/-- `Vault::from_xi`. -/
def vaultFromXi (xi : Block 32) : Outcome String Vault := do
  let publicKey ← parsePublicKey (lib.newInternal xi)
  pure ⟨publicKey⟩

def openVault (resolved : Resolved Node) : Outcome String Vault := do
  let xi ← .ofExcept (xiOf B sha256 resolved)
  vaultFromXi lib xi

/-- The first addresses of a vault. -/
def firstAddresses (vault : Vault) (addressPrefix : Prefix) (count : UInt32) : Except String (List Address) :=
  (List.range (min count vault.leafCount).toNat).mapM fun leaf =>
    vault.address kaspa cli.addresses addressPrefix (UInt32.ofNat leaf)

def callAddresses : Outcome String (Call Node NodeParams Prefix Address) := do
  let resolved ← resolve lib process env args .lmsSha256
  let vault ← openVault B sha256 lib resolved
  let addressPrefix ← .ofExcept (prefixFor lib resolved.network)
  pure (.addresses vault addressPrefix args.count)

/-- The addresses are derived before a node is asked. -/
def callBalance : Outcome String (Call Node NodeParams Prefix Address) := do
  let resolved ← resolve lib process env args .lmsSha256
  let vault ← openVault B sha256 lib resolved
  let addressPrefix ← .ofExcept (prefixFor lib resolved.network)
  let _ ← .ofExcept (firstAddresses kaspa cli vault addressPrefix args.count)
  let client ← .ofExcept (SlhWallet.connect cli resolved.network)
  pure (.balance client vault addressPrefix args.count)

variable [DecidableEq Prefix]

def callSpend : Outcome String (Call Node NodeParams Prefix Address) := do
  let resolved ← resolve lib process env args .lmsSha256
  let addressPrefix ← .ofExcept (prefixFor lib resolved.network)
  let text ← .ofOption args.«to» "--to <address> is required"
  let destination ← .ofExcept ((cli.parseAddress text).mapError fun e => s!"--to is not a valid Kaspa address: {e}")
  .ofExcept (ensure (cli.prefixOf destination = addressPrefix)
    (s!"destination is a {cli.prefixText (cli.prefixOf destination)} address but the wallet is on " ++
      cli.prefixText addressPrefix))
  let amount ← .ofOption args.amount "--amount <sompi> is required"
  let xi ← .ofExcept (xiOf B sha256 resolved)
  let vault ← vaultFromXi lib xi
  let client ← .ofExcept (SlhWallet.connect cli resolved.network)
  pure (.spend client {
    vault
    xi
    keyIndex := resolved.keyIndex
    addressPrefix
    params := SlhWallet.networkParams cli resolved.network
    destination
    amount
    fee := args.fee
    journalPath := args.journal.getD "vault.journal"
    confirmed := args.yes
    dryRun := args.dryRun })

/-- A command of the stateless schemes. -/
def callSlh (call : Resolved Node → Scheme → Prefix → Call Node NodeParams Prefix Address) :
    Outcome String (Call Node NodeParams Prefix Address) := do
  let scheme ← .ofExcept (slhScheme lib args)
  let resolved ← resolve lib process env args scheme
  let addressPrefix ← .ofExcept (prefixFor lib resolved.network)
  pure (call resolved scheme addressPrefix)

/-- The call of the command. -/
def callOf : Outcome String (Call Node NodeParams Prefix Address) :=
  match args.command with
  | "info" => .ok .info
  | "artifacts" => .ok .artifacts
  | "init-env" => .ok (.initEnv (args.envFile.getD ".env"))
  | "addresses" => callAddresses B sha256 lib process env args
  | "balance" => callBalance B kaspa sha256 cli lib process env args
  | "spend" => callSpend B sha256 cli lib process env args
  | "slh-address" => callSlh lib process env args .slhAddress
  | "slh-balance" => callSlh lib process env args .slhBalance
  | "slh-spend" => callSlh lib process env args (.slhSpend args)
  | "help" | "--help" | "-h" => .ok .usage
  | other => .ok (.unknown other)

/-- From the words behind the name of the program to a call. -/
def main (fs : FileSystem) (argv : List String) : Outcome String (Call Node NodeParams Prefix Address) := do
  let args ← .ofExcept (parseArgs argv)
  let env ← .ofExcept (EnvFile.load lib.chars fs args.envFile)
  callOf B kaspa sha256 cli lib process env args

end

/-! ### What a call works with -/

section

variable {Node ChildNumber NodeParams Prefix Address : Type} (B : Bip32 Node ChildNumber) (kaspa : Kaspa NodeParams)
  (sha256 : Bytes → Block 32) (cli : SlhWallet.Surroundings NodeParams Prefix Address) (lib : Libraries Node Prefix)
  (process : List Char → Option (List Char)) (env : EnvFile) (settings : List Setting)

/-- What was told of a thing: by the last flag, or else by a variable. -/
def told (said : Setting → Option String) (name : List Char) : Option String :=
  (lastSaid said settings).or (envGet process env name)

/-- The key, the key index and the network are those that were told. -/
structure Settles (scheme : Scheme) (resolved : Resolved Node) : Prop where
  material :
    (∃ words, told process env settings saidMnemonic (keyVars process env scheme).1 = some words ∧
      told process env settings saidKey (keyVars process env scheme).2 = none ∧
      fromMnemonic lib words = .ok resolved.material) ∨
    ∃ text, told process env settings saidMnemonic (keyVars process env scheme).1 = none ∧
      told process env settings saidKey (keyVars process env scheme).2 = some text ∧
      KeyMaterial.parse lib.parseXprv text.toList = .ok resolved.material
  keyIndex :
    lastSaid saidKeyIndex settings = some resolved.keyIndex ∨
    lastSaid saidKeyIndex settings = none ∧
      ((∃ v, envGet process env ENV_KEY_INDEX = some v ∧
          parseDecimal (2 ^ 32) v.toList = .ok resolved.keyIndex.toNat) ∨
        envGet process env ENV_KEY_INDEX = none ∧ resolved.keyIndex = 0)
  network : resolved.network = (told process env settings saidNetwork ENV_NETWORK).getD "tn10"

/-- The network of this name, and a node that says that it is of this network. -/
inductive OneNetwork (name : String) : Prefix → Client Address → NodeParams → Prop where
  | mainnet {rpc : VaultNode.Rpc Address} (h : name = "mainnet") (hrpc : cli.newRpc ⟨.mainnet, none⟩ = .ok rpc)
    (hinfo : rpc.getServerInfo = .ok ⟨true, true, ⟨.mainnet, none⟩⟩) :
    OneNetwork name lib.mainnet rpc.calls cli.mainnetParams
  | testnet {rpc : VaultNode.Rpc Address} (h : name ∈ ["tn10", "testnet", "testnet-10"])
    (hrpc : cli.newRpc ⟨.testnet, some 10⟩ = .ok rpc)
    (hinfo : rpc.getServerInfo = .ok ⟨true, true, ⟨.testnet, some 10⟩⟩) :
    OneNetwork name lib.testnet rpc.calls cli.testnetParams

/-- What is paid, and to whom, is what the command line says, and the address is of the same network. -/
structure Asked (addressPrefix : Prefix) (destination : Address) (amount : UInt64) : Prop where
  to_eq : ∃ text, lastSaid saidTo settings = some text ∧ cli.parseAddress text = .ok destination
  amount_eq : lastSaid saidAmount settings = some amount
  prefix_eq : cli.prefixOf destination = addressPrefix

/-- A call that works with no key. -/
def Call.Keyless : Call Node NodeParams Prefix Address → Prop
  | .info | .artifacts | .usage | .unknown _ | .initEnv _ => True
  | _ => False

variable [DecidableEq Prefix]

/-- A call works with this scheme and this key, with no other network, and with what the command line says. -/
def Call.WorksWith (scheme : Scheme) (resolved : Resolved Node) : Call Node NodeParams Prefix Address → Prop
  | .addresses vault addressPrefix count =>
    scheme = .lmsSha256 ∧ openVault B sha256 lib resolved = .ok vault ∧
      prefixFor lib resolved.network = .ok addressPrefix ∧
      count = (lastSaid saidCount settings).getD DEFAULT_ADDRESS_COUNT
  | .balance client vault addressPrefix count =>
    scheme = .lmsSha256 ∧ openVault B sha256 lib resolved = .ok vault ∧
      OneNetwork cli lib resolved.network addressPrefix client (SlhWallet.networkParams cli resolved.network) ∧
      count = (lastSaid saidCount settings).getD DEFAULT_ADDRESS_COUNT
  | .spend client req =>
    scheme = .lmsSha256 ∧ (xiOf B sha256 resolved = .ok req.xi ∧ vaultFromXi lib req.xi = .ok req.vault) ∧
      req.keyIndex = resolved.keyIndex ∧ OneNetwork cli lib resolved.network req.addressPrefix client req.params ∧
      Asked cli settings req.addressPrefix req.destination req.amount ∧ req.fee = lastSaid saidFee settings ∧
      req.journalPath = (lastSaid saidJournal settings).getD "vault.journal" ∧
      req.confirmed = (lastSaid saidYes settings).getD false ∧ req.dryRun = (lastSaid saidDryRun settings).getD false
  | .slhAddress resolved' scheme' addressPrefix =>
    scheme' = scheme ∧ setScheme lib ((lastSaid saidSet settings).getD "128s") = .ok scheme ∧ resolved' = resolved ∧
      prefixFor lib resolved.network = .ok addressPrefix
  | .slhBalance resolved' scheme' addressPrefix =>
    scheme' = scheme ∧ setScheme lib ((lastSaid saidSet settings).getD "128s") = .ok scheme ∧ resolved' = resolved ∧
      prefixFor lib resolved.network = .ok addressPrefix ∧
      ∀ shown, SlhCmd.cmdBalance B kaspa sha256 cli resolved.toResolved scheme addressPrefix = .ok shown →
        ∃ client, SlhWallet.connect cli resolved.network = .ok client ∧
          OneNetwork cli lib resolved.network addressPrefix client (SlhWallet.networkParams cli resolved.network)
  | .slhSpend args resolved' scheme' addressPrefix =>
    scheme' = scheme ∧ setScheme lib ((lastSaid saidSet settings).getD "128s") = .ok scheme ∧ resolved' = resolved ∧
      (∀ plan,
        SlhWallet.planSpend B kaspa sha256 cli args.toArgs resolved.toResolved scheme addressPrefix = .ok plan →
          OneNetwork cli lib resolved.network addressPrefix plan.client plan.params ∧
            Asked cli settings addressPrefix plan.destination plan.amount) ∧
      args.fee = lastSaid saidFee settings ∧ args.yes = (lastSaid saidYes settings).getD false ∧
      args.dryRun = (lastSaid saidDryRun settings).getD false
  | _ => False

end

section

variable {Node ChildNumber NodeParams Prefix Address : Type} {B : Bip32 Node ChildNumber} {kaspa : Kaspa NodeParams}
  {sha256 : Bytes → Block 32} {cli : SlhWallet.Surroundings NodeParams Prefix Address} {lib : Libraries Node Prefix}
  {process : List Char → Option (List Char)} {env : EnvFile} {settings : List Setting} {args : Args} {command : String}
  {scheme : Scheme} {resolved : Resolved Node} {call : Call Node NodeParams Prefix Address}

theorem prefixFor_eq_ok {network : String} {addressPrefix : Prefix} : prefixFor lib network = .ok addressPrefix ↔
    (network = "mainnet" ∧ addressPrefix = lib.mainnet) ∨
      network ∈ ["tn10", "testnet", "testnet-10"] ∧ addressPrefix = lib.testnet := by
  unfold prefixFor
  split
  · simp [eq_comm]
  · simp [eq_comm]
  · simp [eq_comm]
  · simp [eq_comm]
  · rename_i h10 htestnet htestnet10 hmainnet
    constructor
    · intro h
      cases h
    · rintro (⟨h, -⟩ | ⟨hname, -⟩)
      · exact absurd h hmainnet
      · simp only [List.mem_cons, List.not_mem_nil, or_false] at hname
        rcases hname with h | h | h
        · exact absurd h h10
        · exact absurd h htestnet
        · exact absurd h htestnet10

/-- **The node that is asked** is of the network of the addresses. -/
theorem oneNetwork_of_connect {network : String} {addressPrefix : Prefix} {client : Client Address}
    (hnetwork : prefixFor lib network = .ok addressPrefix) (hclient : SlhWallet.connect cli network = .ok client) :
    OneNetwork cli lib network addressPrefix client (SlhWallet.networkParams cli network) := by
  obtain ⟨node, hnode, rfl⟩ := map_eq_ok.mp hclient
  rcases prefixFor_eq_ok.mp hnetwork with ⟨rfl, rfl⟩ | ⟨hname, rfl⟩
  · obtain ⟨rpc, hrpc, -, hinfo, rfl⟩ := VaultNode.connectPnn_eq_ok.mp hnode
    exact .mainnet rfl hrpc hinfo
  · have hother : network ≠ "mainnet" := by
      rintro rfl
      exact absurd hname (by decide)
    rw [if_neg hother] at hnode
    rw [SlhWallet.networkParams, if_neg hother]
    obtain ⟨rpc, hrpc, -, hinfo, rfl⟩ := VaultNode.connectPnn_eq_ok.mp hnode
    exact .testnet hname hrpc hinfo

/-- The node of a list of coins. -/
theorem oneNetwork_of_cmdBalance {resolved : SlhWallet.Resolved Node} {addressPrefix : Prefix}
    {shown : SlhCmd.Shown Address} (hnetwork : prefixFor lib resolved.network = .ok addressPrefix)
    (h : SlhCmd.cmdBalance B kaspa sha256 cli resolved scheme addressPrefix = .ok shown) :
    ∃ client, SlhWallet.connect cli resolved.network = .ok client ∧
      OneNetwork cli lib resolved.network addressPrefix client (SlhWallet.networkParams cli resolved.network) := by
  obtain ⟨vault, address, client, utxos, -, -, hclient, -⟩ := SlhCmd.cmdBalance_eq_ok h
  exact ⟨client, hclient, oneNetwork_of_connect hnetwork hclient⟩

/-- **What is settled** is what was told. -/
theorem settles_of_resolve (hargs : args.Told command settings)
    (h : resolve lib process env args scheme = .ok resolved) : Settles lib process env settings scheme resolved := by
  obtain ⟨⟨material, origin⟩, hmaterial, h⟩ := Outcome.bind_eq_ok.mp h
  obtain ⟨keyIndex, hindex, h⟩ := Outcome.ofExcept_bind_eq_ok.mp h
  cases h
  refine ⟨?_, ?_, ?_⟩
  · unfold resolveMaterial at hmaterial
    rw [hargs.mnemonic_eq, hargs.key_eq] at hmaterial
    simp only at hmaterial
    split at hmaterial
    · cases hmaterial
    · rename_i words hwords hkey
      obtain ⟨m, hm, hpair⟩ := Outcome.bind_eq_ok.mp hmaterial
      cases hpair
      exact .inl ⟨words, hwords, hkey, hm⟩
    · rename_i text hwords hkey
      obtain ⟨m, hm, hpair⟩ := Outcome.bind_eq_ok.mp hmaterial
      cases hpair
      exact .inr ⟨text, hwords, hkey, hm⟩
    · cases hmaterial
  · unfold resolveKeyIndex at hindex
    rw [hargs.keyIndex_eq] at hindex
    split at hindex
    · rename_i i hi
      obtain rfl := Except.ok.inj hindex
      exact .inl hi
    · rename_i hnone
      refine .inr ⟨hnone, ?_⟩
      split at hindex
      · rename_i v hv
        obtain ⟨n, hn, rfl⟩ := map_eq_ok.mp hindex
        have hread := mapError_eq_ok.mp hn
        refine .inl ⟨v, hv, ?_⟩
        have hlt := ((parseDecimal_eq_ok (by norm_num)).mp hread).2.2.2
        rw [hread]
        simp only [UInt32.toNat_ofNat']
        rw [Nat.mod_eq_of_lt hlt]
      · rename_i hnone'
        obtain rfl := Except.ok.inj hindex
        exact .inr ⟨hnone', rfl⟩
  · rw [told, ← hargs.network_eq]

variable [DecidableEq Prefix]

theorem worksWith_of_callAddresses (hargs : args.Told command settings)
    (h : callAddresses B sha256 lib process env args = .ok call) : ∃ scheme resolved,
      Settles lib process env settings scheme resolved ∧
        call.WorksWith B kaspa sha256 cli lib settings scheme resolved := by
  obtain ⟨resolved, hresolve, h⟩ := Outcome.bind_eq_ok.mp h
  obtain ⟨vault, hvault, h⟩ := Outcome.bind_eq_ok.mp h
  obtain ⟨addressPrefix, hnetwork, h⟩ := Outcome.ofExcept_bind_eq_ok.mp h
  cases h
  exact ⟨.lmsSha256, resolved, settles_of_resolve hargs hresolve, rfl, hvault, hnetwork, hargs.count_eq⟩

theorem worksWith_of_callBalance (hargs : args.Told command settings)
    (h : callBalance B kaspa sha256 cli lib process env args = .ok call) : ∃ scheme resolved,
      Settles lib process env settings scheme resolved ∧
        call.WorksWith B kaspa sha256 cli lib settings scheme resolved := by
  obtain ⟨resolved, hresolve, h⟩ := Outcome.bind_eq_ok.mp h
  obtain ⟨vault, hvault, h⟩ := Outcome.bind_eq_ok.mp h
  obtain ⟨addressPrefix, hnetwork, h⟩ := Outcome.ofExcept_bind_eq_ok.mp h
  obtain ⟨_, -, h⟩ := Outcome.ofExcept_bind_eq_ok.mp h
  obtain ⟨client, hclient, h⟩ := Outcome.ofExcept_bind_eq_ok.mp h
  cases h
  exact ⟨.lmsSha256, resolved, settles_of_resolve hargs hresolve, rfl, hvault, oneNetwork_of_connect hnetwork hclient,
    hargs.count_eq⟩

theorem worksWith_of_callSpend (hargs : args.Told command settings)
    (h : callSpend B sha256 cli lib process env args = .ok call) : ∃ scheme resolved,
      Settles lib process env settings scheme resolved ∧
        call.WorksWith B kaspa sha256 cli lib settings scheme resolved := by
  obtain ⟨resolved, hresolve, h⟩ := Outcome.bind_eq_ok.mp h
  obtain ⟨addressPrefix, hnetwork, h⟩ := Outcome.ofExcept_bind_eq_ok.mp h
  obtain ⟨text, hto, h⟩ := Outcome.ofOption_bind_eq_ok.mp h
  obtain ⟨destination, hparse, h⟩ := Outcome.ofExcept_bind_eq_ok.mp h
  obtain ⟨_, hsame, h⟩ := Outcome.ofExcept_bind_eq_ok.mp h
  obtain ⟨amount, hamount, h⟩ := Outcome.ofOption_bind_eq_ok.mp h
  obtain ⟨xi, hxi, h⟩ := Outcome.ofExcept_bind_eq_ok.mp h
  obtain ⟨vault, hvault, h⟩ := Outcome.bind_eq_ok.mp h
  obtain ⟨client, hclient, h⟩ := Outcome.ofExcept_bind_eq_ok.mp h
  cases h
  have hasked : Asked cli settings addressPrefix destination amount :=
    ⟨⟨text, hargs.to_eq ▸ hto, mapError_eq_ok.mp hparse⟩, hargs.amount_eq ▸ hamount, ensure_eq_ok.mp hsame⟩
  refine ⟨.lmsSha256, resolved, settles_of_resolve hargs hresolve, rfl, ⟨hxi, hvault⟩, rfl,
    oneNetwork_of_connect hnetwork hclient, hasked, hargs.fee_eq, ?_, hargs.yes_eq, hargs.dryRun_eq⟩
  rw [← hargs.journal_eq]

omit [DecidableEq Prefix] in
theorem settles_of_callSlh {make : Resolved Node → Scheme → Prefix → Call Node NodeParams Prefix Address}
    (hargs : args.Told command settings) (h : callSlh lib process env args make = .ok call) :
    ∃ scheme resolved addressPrefix, Settles lib process env settings scheme resolved ∧
      setScheme lib ((lastSaid saidSet settings).getD "128s") = .ok scheme ∧
      prefixFor lib resolved.network = .ok addressPrefix ∧ call = make resolved scheme addressPrefix := by
  obtain ⟨scheme, hscheme, h⟩ := Outcome.ofExcept_bind_eq_ok.mp h
  obtain ⟨resolved, hresolve, h⟩ := Outcome.bind_eq_ok.mp h
  obtain ⟨addressPrefix, hnetwork, h⟩ := Outcome.ofExcept_bind_eq_ok.mp h
  cases h
  rw [slhScheme, hargs.set_eq] at hscheme
  exact ⟨scheme, resolved, addressPrefix, settles_of_resolve hargs hresolve, hscheme, hnetwork, rfl⟩

/-- A plan pays what the command line says. -/
theorem asked_of_planSpend {addressPrefix : Prefix} {plan : SlhWallet.SpendPlan NodeParams Address}
    (hargs : args.Told command settings) (hnetwork : prefixFor lib resolved.network = .ok addressPrefix)
    (hplan : SlhWallet.planSpend B kaspa sha256 cli args.toArgs resolved.toResolved scheme addressPrefix = .ok plan) :
    OneNetwork cli lib resolved.network addressPrefix plan.client plan.params ∧
      Asked cli settings addressPrefix plan.destination plan.amount := by
  obtain ⟨text, address, utxos, hto, hparse, hsame, hamount, -, -, hclient, -, hparams, -⟩ :=
    SlhWallet.planSpend_eq_ok.mp hplan
  exact ⟨hparams ▸ oneNetwork_of_connect hnetwork hclient, ⟨text, hargs.to_eq ▸ hto, hparse⟩, hargs.amount_eq ▸ hamount,
    hsame⟩

/-- **What a command works with**, if it works with a key. -/
theorem worksWith_of_callOf (hargs : args.Told command settings)
    (h : callOf B kaspa sha256 cli lib process env args = .ok call) : call.Keyless ∨ ∃ scheme resolved,
      Settles lib process env settings scheme resolved ∧
        call.WorksWith B kaspa sha256 cli lib settings scheme resolved := by
  unfold callOf at h
  split at h
  · exact .inl (Outcome.ok.inj h ▸ trivial)
  · exact .inl (Outcome.ok.inj h ▸ trivial)
  · exact .inl (Outcome.ok.inj h ▸ trivial)
  · exact .inr (worksWith_of_callAddresses hargs h)
  · exact .inr (worksWith_of_callBalance hargs h)
  · exact .inr (worksWith_of_callSpend hargs h)
  · obtain ⟨scheme, resolved, addressPrefix, hsettles, hscheme, hnetwork, rfl⟩ := settles_of_callSlh hargs h
    exact .inr ⟨scheme, resolved, hsettles, rfl, hscheme, rfl, hnetwork⟩
  · obtain ⟨scheme, resolved, addressPrefix, hsettles, hscheme, hnetwork, rfl⟩ := settles_of_callSlh hargs h
    exact .inr ⟨scheme, resolved, hsettles, rfl, hscheme, rfl, hnetwork, fun shown =>
      oneNetwork_of_cmdBalance hnetwork⟩
  · obtain ⟨scheme, resolved, addressPrefix, hsettles, hscheme, hnetwork, rfl⟩ := settles_of_callSlh hargs h
    exact .inr ⟨scheme, resolved, hsettles, rfl, hscheme, rfl, fun plan => asked_of_planSpend hargs hnetwork,
      hargs.fee_eq, hargs.yes_eq, hargs.dryRun_eq⟩
  · exact .inl (Outcome.ok.inj h ▸ trivial)
  · exact .inl (Outcome.ok.inj h ▸ trivial)
  · exact .inl (Outcome.ok.inj h ▸ trivial)
  · exact .inl (Outcome.ok.inj h ▸ trivial)

/-- **Every call works with what was told**: whatever the command line, the environment and the settings file are, a
call that is made works with the key, the key index, the scheme and the network that were told there, a flag before a
variable of the process and this before the file; it asks a node, reckons with parameters and pays to an address of
this network only; and it pays the amount that the last flags say. -/
theorem main_settles {fs : FileSystem} {argv : List String}
    (h : main B kaspa sha256 cli lib process fs argv = .ok call) : ∃ settings env, Says flags argv.tail settings ∧
      EnvFile.load lib.chars fs (lastSaid saidEnvFile settings) = .ok env ∧
      (call.Keyless ∨ ∃ scheme resolved, Settles lib process env settings scheme resolved ∧
        call.WorksWith B kaspa sha256 cli lib settings scheme resolved) := by
  obtain ⟨args, hargs, h⟩ := Outcome.ofExcept_bind_eq_ok.mp h
  obtain ⟨env, henv, h⟩ := Outcome.ofExcept_bind_eq_ok.mp h
  obtain ⟨settings, hsays, htold⟩ := parseArgs_eq_ok hargs
  exact ⟨settings, env, hsays, htold.envFile_eq ▸ henv, worksWith_of_callOf htold h⟩

end

/-! ### A run -/

/-- No files at all. -/
def noFiles : FileSystem where
  pathExists _ := false
  mode _ := .error "no such file"
  readToString _ := .error "no such file"
  canonicalize _ := none

/-- Libraries that know no key but the one of a vault of zeros. -/
def testLibraries : Libraries (List UInt32) Unit where
  chars := ⟨fun _ => true, fun _ => false⟩
  mainnet := ()
  testnet := ()
  parseXprv _ := .error "invalid length"
  mnemonicSeed _ := .error "invalid word count"
  newInternal _ := zeros 56

/-- A bare key of zeros. -/
def zeroKey : String := String.ofList (toHex (zeros 32))

/-- Pay half of the coins; the amount is given twice. -/
def testLine : List Setting := [.amount 1, .key zeroKey, .network "testnet", .«to» "kaspatest", .amount 500000000]

theorem parse_zeroKey : KeyMaterial.parse testLibraries.parseXprv zeroKey.toList = .ok (.raw (Block.zero 32)) := by
  refine KeyMaterial.parse_eq_raw.mpr ?_
  rw [zeroKey, String.toList_ofList]
  have htrim : trim (toHex (zeros 32)) = toHex (zeros 32) := by decide +kernel
  rw [htrim]
  exact ⟨by decide +kernel, hexPairs_eq_some.mp (hexPairs_toHex _)⟩

/-- What it comes to. -/
def testCall : Call (List UInt32) Unit Unit Bytes :=
  .spend (LmsWallet.testClient [scriptHashCoin]) {
    vault := ⟨⟨Block.zero 16, Block.zero 32⟩⟩
    xi := Block.zero 32
    keyIndex := 0
    addressPrefix := ()
    params := ()
    destination := (scriptHashOutput 0).script
    amount := 500000000
    fee := none
    journalPath := "vault.journal"
    confirmed := false
    dryRun := false }

/-- The spend of this line. -/
theorem main_settles_spend :
    ∃ settings env, Says flags (testLine.flatMap Setting.words) settings ∧
      EnvFile.load testLibraries.chars noFiles (lastSaid saidEnvFile settings) = .ok env ∧
      (testCall.Keyless ∨ ∃ scheme resolved, Settles testLibraries (fun _ => none) env settings scheme resolved ∧
        testCall.WorksWith pathTree scriptHashKaspa (fun _ => Block.zero 32) testCli testLibraries settings scheme
          resolved) := by
  have hargs : parseArgs ("spend" :: testLine.flatMap Setting.words) =
      .ok (testLine.foldl Args.note (.plain "spend")) := (says_words testLine).parseFlags_eq Args.note (.plain "spend")
  have hresolve : resolve testLibraries (fun _ => none) ⟨none, fun _ => none⟩
      (testLine.foldl Args.note (.plain "spend")) .lmsSha256 = .ok ⟨⟨.raw (Block.zero 32), 0, "testnet"⟩, "--key"⟩ :=
    Outcome.bind_eq_ok.mpr ⟨(.raw (Block.zero 32), "--key"), Outcome.bind_eq_ok.mpr ⟨_, parse_zeroKey, rfl⟩, rfl⟩
  have hcall : callSpend pathTree (fun _ => Block.zero 32) testCli testLibraries (fun _ => none) ⟨none, fun _ => none⟩
      (testLine.foldl Args.note (.plain "spend")) = .ok testCall := Outcome.bind_eq_ok.mpr ⟨_, hresolve, rfl⟩
  have hmain : main pathTree scriptHashKaspa (fun _ => Block.zero 32) testCli testLibraries (fun _ => none) noFiles
      ("spend" :: testLine.flatMap Setting.words) = .ok testCall :=
    Outcome.ofExcept_bind_eq_ok.mpr ⟨_, hargs, Outcome.ofExcept_bind_eq_ok.mpr ⟨⟨none, fun _ => none⟩, rfl, hcall⟩⟩
  exact main_settles hmain

/-! ### A settings file to begin with -/

/-- How files are written. -/
structure Writer where
  write : FileSystem → String → List Char → Except String FileSystem
  setMode : FileSystem → String → ℕ → Except String FileSystem

/-- What was written is there, and so are the permissions that were set. -/
structure Writer.Lawful (w : Writer) : Prop where
  write_eq_ok : ∀ {fs fs' : FileSystem} {path : String} {text : List Char}, w.write fs path text = .ok fs' →
    fs'.pathExists path = true ∧ fs'.readToString path = .ok text
  setMode_eq_ok : ∀ {fs fs' : FileSystem} {path : String} {mode : ℕ}, w.setMode fs path mode = .ok fs' →
    fs'.pathExists path = fs.pathExists path ∧ fs'.readToString path = fs.readToString path ∧ fs'.mode path = .ok mode

/-- Write the template, but not over a file. -/
def cmdInitEnv (w : Writer) (fs : FileSystem) (path : String) : Except String FileSystem := do
  ensure (fs.pathExists path = false) s!"{path} already exists; refusing to overwrite a file that may hold a key"
  let fs ← (w.write fs path ENV_TEMPLATE).mapError fun e => s!"writing {path}: {e}"
  (w.setMode fs path 0o600).mapError fun e => s!"setting permissions on {path}: {e}"

section

variable {Node ChildNumber NodeParams Prefix Address : Type} [DecidableEq Prefix] {B : Bip32 Node ChildNumber}
  {kaspa : Kaspa NodeParams} {sha256 : Bytes → Block 32} {cli : SlhWallet.Surroundings NodeParams Prefix Address}
  {lib : Libraries Node Prefix} {process : List Char → Option (List Char)} {env : EnvFile} {args : Args}

theorem path_eq_of_callOf {command path : String} {settings : List Setting} (hargs : args.Told command settings)
    (h : callOf B kaspa sha256 cli lib process env args = .ok (.initEnv path)) : path = args.envFile.getD ".env" := by
  unfold callOf at h
  split at h
  · cases h
  · cases h
  · cases h
    rfl
  · obtain ⟨scheme, resolved, -, hworks⟩ := @worksWith_of_callAddresses _ _ _ _ _ _ kaspa _ cli _ _ _ _ _ _ _ _ hargs h
    exact hworks.elim
  · obtain ⟨scheme, resolved, -, hworks⟩ := worksWith_of_callBalance hargs h
    exact hworks.elim
  · obtain ⟨scheme, resolved, -, hworks⟩ := @worksWith_of_callSpend _ _ _ _ _ _ kaspa _ cli _ _ _ _ _ _ _ _ hargs h
    exact hworks.elim
  · obtain ⟨scheme, resolved, addressPrefix, -, -, -, hcall⟩ := settles_of_callSlh hargs h
    cases hcall
  · obtain ⟨scheme, resolved, addressPrefix, -, -, -, hcall⟩ := settles_of_callSlh hargs h
    cases hcall
  · obtain ⟨scheme, resolved, addressPrefix, -, -, -, hcall⟩ := settles_of_callSlh hargs h
    cases hcall
  · cases h
  · cases h
  · cases h
  · cases h

omit [DecidableEq Prefix] in
/-- A file that is asked for is there. -/
theorem pathExists_of_load {fs : FileSystem} {path : String} (h : EnvFile.load lib.chars fs (some path) = .ok env) :
    fs.pathExists path = true := by
  by_contra hnone
  rw [EnvFile.load, Option.getD_some, if_neg hnone] at h
  cases h

/-- **Only the default file is begun**: the file of `--env-file` must be there to be loaded, and must not be there to be
written, so that nothing is written with this flag. What is written otherwise is loaded by the next command, and says
nothing. -/
theorem initEnv_default {w : Writer} (hw : w.Lawful) {fs fs' : FileSystem} {argv : List String} {path : String}
    (h : main B kaspa sha256 cli lib process fs argv = .ok (.initEnv path)) (hinit : cmdInitEnv w fs path = .ok fs') :
    (∃ settings, Says flags argv.tail settings ∧ lastSaid saidEnvFile settings = none) ∧
      path = ".env" ∧ fs.pathExists ".env" = false ∧
      ∃ loaded, EnvFile.load lib.chars fs' none = .ok ⟨some loaded, fun _ => none⟩ := by
  obtain ⟨args, hargs, h⟩ := Outcome.ofExcept_bind_eq_ok.mp h
  obtain ⟨env, henv, h⟩ := Outcome.ofExcept_bind_eq_ok.mp h
  obtain ⟨settings, hsays, htold⟩ := parseArgs_eq_ok hargs
  have hpath := path_eq_of_callOf htold h
  obtain ⟨hfree, hwrite⟩ := ensure_bind_eq_ok.mp hinit
  obtain ⟨fs₁, hwritten, hmode⟩ := bind_eq_ok.mp hwrite
  cases hfile : args.envFile with
  | some file =>
    rw [hfile] at henv hpath
    rw [hpath, Option.getD_some, pathExists_of_load henv] at hfree
    cases hfree
  | none =>
    rw [hfile, Option.getD_none] at hpath
    subst hpath
    obtain ⟨hthere, htext⟩ := hw.write_eq_ok (mapError_eq_ok.mp hwritten)
    obtain ⟨hthere', htext', hmode'⟩ := hw.setMode_eq_ok (mapError_eq_ok.mp hmode)
    refine ⟨⟨settings, hsays, htold.envFile_eq ▸ hfile⟩, rfl, hfree, (fs'.canonicalize ".env").getD ".env", ?_⟩
    have hprivate : checkPermissions fs' ".env" = .ok () :=
      bind_eq_ok.mpr ⟨0o600, mapError_eq_ok.mpr hmode', ensure_eq_ok.mpr (by decide)⟩
    rw [EnvFile.load, Option.getD_none, if_pos (hthere'.trans hthere)]
    exact bind_eq_ok.mpr ⟨(), hprivate, bind_eq_ok.mpr
      ⟨ENV_TEMPLATE, mapError_eq_ok.mpr (htext'.trans htext), bind_eq_ok.mpr ⟨_, parse_template ".env", rfl⟩⟩⟩

end

/-- A memory of files. -/
def memory : Writer where
  write fs path text := .ok { fs with
    pathExists := Function.update fs.pathExists path true
    readToString := Function.update fs.readToString path (.ok text) }
  setMode fs path mode := .ok { fs with mode := Function.update fs.mode path (.ok mode) }

theorem memory_lawful : memory.Lawful where
  write_eq_ok := by
    intro fs fs' path text h
    cases h
    exact ⟨Function.update_self .., Function.update_self ..⟩
  setMode_eq_ok := by
    intro fs fs' path mode h
    cases h
    exact ⟨rfl, rfl, Function.update_self ..⟩

/-- The first command there is. -/
theorem initEnv_default_first : ∃ fs', cmdInitEnv memory noFiles ".env" = .ok fs' ∧
    (∃ settings, Says flags [] settings ∧ lastSaid saidEnvFile settings = none) ∧
      ".env" = ".env" ∧ noFiles.pathExists ".env" = false ∧
      ∃ loaded, EnvFile.load testLibraries.chars fs' none = .ok ⟨some loaded, fun _ => none⟩ := by
  have hmain : main pathTree scriptHashKaspa (fun _ => Block.zero 32) testCli testLibraries (fun _ => none) noFiles
      ["init-env"] = .ok (.initEnv ".env") := rfl
  exact ⟨_, rfl, initEnv_default memory_lawful hmain rfl⟩

end KaspaPqv.VaultCli.CommandLine
